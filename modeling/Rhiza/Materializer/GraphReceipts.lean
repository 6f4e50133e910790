import Rhiza.Materializer.Graph

/-! # Receipts of graph commands

Within one slot receipts are only added: the receipts that left the window are gone after the
first command, and a receipt is written for an id that has none. A command that was settled
once finds its receipt, and settling it again changes nothing.
-/

namespace Rhiza.Materializer

open Foundations Commands

namespace GraphStore

variable {Graph : Type} {durableTip window : ℕ} {store : GraphStore Graph} {id : ByteString}
  {request : GraphRequest}

/-- The slots whose receipts a command of the slot removes. -/
def expiredSlots (slot durableTip window : ℕ) : List ℕ :=
  if durableTip = 0 ∨ slot ≤ window then []
  else
    let start := if window ≤ durableTip then durableTip - window + 1 else 1
    List.range' start (min durableTip (slot - window) + 1 - start)

theorem pruneForApply_eq (store : GraphStore Graph) (slot durableTip window : ℕ) :
    store.pruneGraphRequestsForApply slot durableTip window =
      (expiredSlots slot durableTip window).foldl pruneGraphRequests store := by
  unfold pruneGraphRequestsForApply expiredSlots
  split <;> rfl

theorem le_of_mem_expiredSlots {slot expired : ℕ}
    (h : expired ∈ expiredSlots slot durableTip window) : expired ≤ durableTip := by
  unfold expiredSlots at h
  split at h
  · cases h
  · rw [List.mem_range'_1] at h
    omega

/-- No receipt is left to remove. -/
def Swept (store : GraphStore Graph) (slot durableTip window : ℕ) : Prop :=
  ∀ expired ∈ expiredSlots slot durableTip window, store.bySlot.lookup expired = none

theorem lookup_bySlot_pruneGraphRequests (store : GraphStore Graph) (slot slot' : ℕ) :
    (store.pruneGraphRequests slot).bySlot.lookup slot' =
      if slot' = slot then none else store.bySlot.lookup slot' := by
  unfold pruneGraphRequests
  split
  · rename_i hnone
    split
    · rename_i heq
      rw [heq, hnone]
    · rfl
  · exact Table.lookup_erase_eq ..

theorem lookup_bySlot_foldl (slots : List ℕ) (store : GraphStore Graph) (slot : ℕ) :
    (slots.foldl pruneGraphRequests store).bySlot.lookup slot =
      if slot ∈ slots then none else store.bySlot.lookup slot := by
  induction slots generalizing store with
  | nil => simp
  | cons first rest ih =>
    rw [List.foldl_cons, ih, lookup_bySlot_pruneGraphRequests]
    by_cases hrest : slot ∈ rest <;> by_cases hfirst : slot = first <;> simp [hrest, hfirst]

theorem swept_pruneForApply (store : GraphStore Graph) (slot durableTip window : ℕ) :
    (store.pruneGraphRequestsForApply slot durableTip window).Swept slot durableTip window := by
  intro expired hdue
  rw [pruneForApply_eq, lookup_bySlot_foldl, if_pos hdue]

theorem Swept.pruneForApply_eq_self {slot : ℕ} (hswept : store.Swept slot durableTip window) :
    store.pruneGraphRequestsForApply slot durableTip window = store := by
  rw [pruneForApply_eq]
  have hfold : ∀ slots : List ℕ, (∀ expired ∈ slots, store.bySlot.lookup expired = none) →
      slots.foldl pruneGraphRequests store = store := by
    intro slots hnone
    induction slots with
    | nil => rfl
    | cons first rest ih =>
      obtain ⟨hfirst, hrest⟩ := List.forall_mem_cons.mp hnone
      rw [List.foldl_cons, pruneGraphRequests, hfirst]
      exact ih hrest
  exact hfold _ hswept

/-- A receipt of a later slot is not among those to remove. -/
theorem Swept.putRequest {store' : GraphStore Graph} {slot : ℕ}
    (hswept : store.Swept slot durableTip window)
    (hlate : durableTip < request.slot) (h : store.putRequest id request = .ok store') :
    store'.Swept slot durableTip window := by
  unfold GraphStore.putRequest at h
  split at h
  · cases h
  · cases h
    intro expired hdue
    have hne : expired ≠ request.slot := by
      have := le_of_mem_expiredSlots hdue
      omega
    rw [Table.lookup_insert_eq, if_neg hne]
    exact hswept expired hdue

/-- Every receipt of one store is one of the other. -/
def Keeps (store store' : GraphStore Graph) : Prop :=
  ∀ id request, store.requests.lookup id = some request → store'.requests.lookup id = some request

theorem Keeps.refl (store : GraphStore Graph) : Keeps store store := fun _ _ h => h

theorem Keeps.trans {first second third : GraphStore Graph} (hfirst : Keeps first second)
    (htwo : Keeps second third) : Keeps first third :=
  fun id request h => htwo id request (hfirst id request h)

theorem keeps_putRequest {store' : GraphStore Graph} (hnew : store.requests.lookup id = none)
    (h : store.putRequest id request = .ok store') :
    Keeps store store' ∧ store'.requests.lookup id = some request := by
  unfold GraphStore.putRequest at h
  split at h
  · cases h
  · cases h
    refine ⟨fun id' request' hold => ?_, AList.lookup_insert _⟩
    rw [Table.lookup_insert_eq, if_neg]
    · exact hold
    · rintro rfl
      rw [hnew] at hold
      cases hold

end GraphStore

section Settle

variable {lib : Library} {engine : LatticeEngine lib.Float} {codec : Codec} {window : ℕ}
  {slot durableTip : ℕ} {command : GraphCommand lib.Float} {fingerprint : ValueHash}
  {store store' : GraphStore engine.Graph}

open GraphStore

/-- What a settled command leaves: the store as it is without the receipts that left the
window, or in addition a new receipt. -/
inductive Settled (window slot durableTip : ℕ) (command : GraphCommand lib.Float)
    (store : GraphStore engine.Graph) : GraphStore engine.Graph → Prop
  | known (hknown : ((store.pruneGraphRequestsForApply slot durableTip window).requests.lookup
      command.requestID).isSome ∨ command.requestID = []) :
    Settled window slot durableTip command store
      (store.pruneGraphRequestsForApply slot durableTip window)
  | added {graph request store'} (hslot : request.slot = slot)
    (hnew : (store.pruneGraphRequestsForApply slot durableTip window).requests.lookup
      command.requestID = none)
    (hput : ((store.pruneGraphRequestsForApply slot durableTip window).withGraph graph).putRequest
      command.requestID request = .ok store') :
    Settled window slot durableTip command store store'

theorem settled_recordFailureTx
    (h : recordFailureTx engine window slot command fingerprint durableTip store = .ok store') :
    Settled window slot durableTip command store store' := by
  simp only [recordFailureTx] at h
  split at h
  · rename_i hknown
    cases h
    exact .known hknown
  · rename_i hnew
    rw [not_or, Option.not_isSome_iff_eq_none] at hnew
    exact .added rfl hnew.1 h

theorem settled_applyCommandTx
    (h : applyCommandTx engine window slot command fingerprint durableTip store = .ok store') :
    Settled window slot durableTip command store store' := by
  unfold applyCommandTx at h
  split at h
  · cases h
  split at h
  · rename_i existing hexisting
    split at h
    · cases h
    · cases h
      exact .known (.inl (by rw [hexisting]; rfl))
  rename_i hnew
  split at h
  · cases h
  split at h
  · cases h
  · exact .added rfl hnew h

theorem settled_settleCommand
    (h : settleCommand engine codec window slot command durableTip store = .ok store') :
    Settled window slot durableTip command store store' := by
  unfold settleCommand at h
  split at h
  · cases h
  split at h
  · exact settled_recordFailureTx h
  split at h
  · exact settled_recordFailureTx h
  · exact settled_applyCommandTx h

namespace Settled

section Settled

variable (h : Settled window slot durableTip command store store')
include h

theorem swept (hlate : durableTip < slot) : store'.Swept slot durableTip window := by
  have htrim := swept_pruneForApply store slot durableTip window
  cases h with
  | known => exact htrim
  | @added graph _ _ hslot hnew hput =>
    have hwith : ((store.pruneGraphRequestsForApply slot durableTip window).withGraph graph).Swept
        slot durableTip window := htrim
    exact hwith.putRequest (hslot ▸ hlate) hput

theorem keeps : Keeps (store.pruneGraphRequestsForApply slot durableTip window) store' := by
  cases h with
  | known => exact .refl _
  | @added graph _ _ hslot hnew hput =>
    intro id request hold
    exact (@keeps_putRequest _ (.withGraph _ graph) _ _ _ hnew hput).1 id request hold

theorem recorded : (store'.requests.lookup command.requestID).isSome ∨ command.requestID = [] := by
  cases h with
  | known hknown => exact hknown
  | @added graph _ _ hslot hnew hput =>
    have hget := (@keeps_putRequest _ (.withGraph _ graph) _ _ _ hnew hput).2
    exact .inl (by rw [hget]; rfl)

end Settled

end Settled

/-- A command whose outcome is recorded is not executed again. -/
theorem settleCommand_again (hprint : graphFingerprint lib codec command = some fingerprint)
    (hswept : store.Swept slot durableTip window)
    (hrec : (store.requests.lookup command.requestID).isSome ∨ command.requestID = []) :
    settleCommand engine codec window slot command durableTip store = .ok store := by
  have htrim := hswept.pruneForApply_eq_self
  have hfailure : recordFailureTx engine window slot command fingerprint durableTip store =
      .ok store := by
    simp only [recordFailureTx, htrim]
    exact if_pos hrec
  unfold settleCommand
  rw [hprint]
  simp only
  split
  · exact hfailure
  rename_i hvalid
  have hid : command.requestID ≠ [] := by
    simp only [validateGraphCommand, bind_eq_ok] at hvalid
    obtain ⟨_, hid, -⟩ := hvalid
    exact (require_eq_ok.mp hid).1
  obtain ⟨existing, hexisting⟩ := Option.isSome_iff_exists.mp (hrec.resolve_right hid)
  have htx : applyCommandTx engine window slot command fingerprint durableTip store =
      .error .rejected ∨
      applyCommandTx engine window slot command fingerprint durableTip store = .ok store := by
    unfold applyCommandTx
    split
    · exact .inl rfl
    · rw [htrim, hexisting]
      simp only
      split
      · exact .inl rfl
      · exact .inr rfl
  obtain htx | htx := htx
  · rw [htx]
    exact hfailure
  · rw [htx]

end Settle

end Rhiza.Materializer
