import Rhiza.Commands.Apply

/-! # The filter in front of the receipts

A request id that was never recorded is recognised without a look at the table: a filter keeps
three bits of the digest of each recorded id. It has two halves, one for each parity of the
epoch, a stretch of as many slots as the retention window has. The first id of a new epoch
clears the half of the epoch before the last one.
-/

namespace Rhiza.Materializer

open Foundations Commands

def sqlReceiptBloomBytes : ℕ := 4 * 2 ^ 20

/-- A part of the digest, which is given as the number that its bytes are from the lowest. -/
def bloomBit (hash : ValueHash) (index : ℕ) : ℕ :=
  hash / 2 ^ (32 * index) % (sqlReceiptBloomBytes * 8)

def bloomBits (codec : Codec) (requestID : ByteString) : List ℕ :=
  (List.range 3).map (bloomBit (codec.sha256 (coreBytes requestID)))

structure SQLReceiptBloomEpoch where
  epoch : ℕ
  valid : Bool
  /-- The bits that are set. -/
  bits : List ℕ

abbrev SQLReceiptBloom := Fin 2 → SQLReceiptBloomEpoch

namespace SQLReceiptBloom

def empty : SQLReceiptBloom := fun _ => ⟨0, false, []⟩

variable (codec : Codec) (window : ℕ)

def add (bloom : SQLReceiptBloom) (requestID : ByteString) (slot : ℕ) : SQLReceiptBloom :=
  let epoch := slot / window
  let filter := bloom (Fin.ofNat 2 epoch)
  let kept := if filter.valid ∧ filter.epoch = epoch then filter.bits else []
  Function.update bloom (Fin.ofNat 2 epoch) ⟨epoch, true, bloomBits codec requestID ++ kept⟩

def mightContain (bloom : SQLReceiptBloom) (requestID : ByteString) (tip : ℕ) : Bool :=
  let epoch := tip / window
  (List.finRange 2).any fun half =>
    let filter := bloom half
    filter.valid ∧ ¬ (epoch < filter.epoch ∨ 1 < epoch - filter.epoch) ∧
      ∀ bit ∈ bloomBits codec requestID, bit ∈ filter.bits

def addAll (bloom : SQLReceiptBloom) (entries : List (ByteString × ℕ)) : SQLReceiptBloom :=
  entries.foldl (fun bloom entry => add codec window bloom entry.1 entry.2) bloom

/-- The id is in the half of the slot's epoch. -/
structure Marked (bloom : SQLReceiptBloom) (requestID : ByteString) (slot : ℕ) : Prop where
  valid : (bloom (Fin.ofNat 2 (slot / window))).valid = true
  epoch : (bloom (Fin.ofNat 2 (slot / window))).epoch = slot / window
  bits : ∀ bit ∈ bloomBits codec requestID, bit ∈ (bloom (Fin.ofNat 2 (slot / window))).bits

variable {codec window} {bloom : SQLReceiptBloom} {requestID : ByteString} {slot : ℕ}
  {entries : List (ByteString × ℕ)}

theorem marked_add (bloom : SQLReceiptBloom) (requestID : ByteString) (slot : ℕ) :
    Marked codec window (add codec window bloom requestID slot) requestID slot := by
  refine ⟨?_, ?_, fun bit hbit => ?_⟩ <;> simp only [add, Function.update_self]
  exact List.mem_append_left _ hbit

/-- Neighbouring epochs do not share a half. -/
theorem ofNat_ne_of_near {first second : ℕ} (hne : first ≠ second) (hle : first ≤ second + 1)
    (hge : second ≤ first + 1) : (Fin.ofNat 2 first : Fin 2) ≠ Fin.ofNat 2 second := by
  intro heq
  have hmod : first % 2 = second % 2 := congrArg Fin.val heq
  omega

/-- An id stays while ids of the same epoch or of its neighbours are added. -/
theorem Marked.add {other : ByteString} {later : ℕ}
    (hmark : Marked codec window bloom requestID slot)
    (hle : slot / window ≤ later / window + 1) (hge : later / window ≤ slot / window + 1) :
    Marked codec window (SQLReceiptBloom.add codec window bloom other later) requestID slot := by
  by_cases hsame : later / window = slot / window
  · have hkept : (bloom (Fin.ofNat 2 (later / window))).valid ∧
        (bloom (Fin.ofNat 2 (later / window))).epoch = later / window := by
      rw [hsame]
      exact ⟨hmark.valid, hmark.epoch⟩
    refine ⟨?_, ?_, fun bit hbit => ?_⟩ <;>
      simp only [SQLReceiptBloom.add, hsame, Function.update_self]
    rw [hsame] at hkept
    rw [if_pos hkept]
    exact List.mem_append_right _ (hmark.bits bit hbit)
  · have hother := ofNat_ne_of_near (Ne.symm hsame) hle hge
    refine ⟨?_, ?_, ?_⟩ <;> simp only [SQLReceiptBloom.add, Function.update_of_ne hother]
    · exact hmark.valid
    · exact hmark.epoch
    · exact hmark.bits

theorem Marked.addAll
    (hmark : Marked codec window bloom requestID slot)
    (hnear : ∀ entry ∈ entries,
      slot / window ≤ entry.2 / window + 1 ∧ entry.2 / window ≤ slot / window + 1) :
    Marked codec window (SQLReceiptBloom.addAll codec window bloom entries) requestID slot := by
  induction entries generalizing bloom with
  | nil => exact hmark
  | cons entry rest ih =>
    obtain ⟨⟨hle, hge⟩, hrest⟩ := List.forall_mem_cons.mp hnear
    exact ih (hmark.add hle hge) hrest

theorem marked_addAll (hmem : (requestID, slot) ∈ entries)
    (hnear : ∀ entry ∈ entries,
      slot / window ≤ entry.2 / window + 1 ∧ entry.2 / window ≤ slot / window + 1) :
    Marked codec window (addAll codec window bloom entries) requestID slot := by
  induction entries generalizing bloom with
  | nil => cases hmem
  | cons entry rest ih =>
    obtain ⟨-, hrest⟩ := List.forall_mem_cons.mp hnear
    obtain rfl | hlater := List.mem_cons.mp hmem
    · exact (marked_add bloom requestID slot).addAll hrest
    · exact ih hlater hrest

theorem Marked.mightContain {tip : ℕ} (hmark : Marked codec window bloom requestID slot)
    (hle : slot / window ≤ tip / window) (hge : tip / window ≤ slot / window + 1) :
    mightContain codec window bloom requestID tip = true := by
  refine List.any_eq_true.mpr ⟨Fin.ofNat 2 (slot / window), List.mem_finRange _, ?_⟩
  refine decide_eq_true ⟨hmark.valid, ?_, hmark.bits⟩
  rw [hmark.epoch]
  omega

end SQLReceiptBloom

/-- Slots less than a window apart are of the same or of neighbouring epochs. -/
theorem epoch_near {window slot later : ℕ} (hwin : 0 < window) (hlt : later < slot + window) :
    later / window ≤ slot / window + 1 := by
  rw [← Nat.add_div_right slot hwin]
  exact Nat.div_le_div_right hlt.le

end Rhiza.Materializer
