import Mathlib.Algebra.Ring.Nat
import Rhiza.Foundations.Check
import Rhiza.Foundations.Utf8

/-! # Reading and writing bytes within a bound

A reader consumes bytes and spends from a budget; it fails when either runs out. `Reads`
says what a reader makes of the bytes some value is written as: it returns the value, leaves
what follows, and fails for no other reason than the budget.

A writer appends to a buffer and may refuse what it is given; some writers also refuse to let
the buffer outgrow a limit. `Writes` says that a writer appends certain bytes, refuses only
what is not acceptable, and refuses nothing acceptable that stays within the limit.

Both statements compose, so that of a whole format is read off those of its parts.
-/

namespace Rhiza.Foundations

namespace BigEndian

/-- The given number of low bytes, most significant first. -/
def bytes : ℕ → ℕ → ByteString
  | 0, _ => []
  | width + 1, n => bytes width (n / 256) ++ [UInt8.ofNat n]

def value (s : ByteString) : ℕ := s.foldl (fun n b => n * 256 + b.toNat) 0

@[simp] theorem length_bytes (width n : ℕ) : (bytes width n).length = width := by
  induction width generalizing n with
  | zero => rfl
  | succ width ih => simp [bytes, ih]

theorem value_append (s : ByteString) (b : UInt8) : value (s ++ [b]) = value s * 256 + b.toNat := by
  simp [value]

theorem value_bytes {width n : ℕ} (h : n < 256 ^ width) : value (bytes width n) = n := by
  induction width generalizing n with
  | zero =>
    obtain rfl : n = 0 := by simpa using h
    rfl
  | succ width ih =>
    have hhigh : n / 256 < 256 ^ width := by
      apply Nat.div_lt_of_lt_mul
      rwa [Nat.mul_comm, ← Nat.pow_succ]
    rw [bytes, value_append, ih hhigh, UInt8.toNat_ofNat']
    omega

end BigEndian

/-- What is left to read, and to spend. -/
structure Reader where
  input : ByteString
  budget : ℕ

abbrev Read (α : Type) := StateT Reader (Except String) α

namespace Read

variable {α β : Type}

/-- The next bytes. -/
def take (n : ℕ) (message : String) : Read ByteString := fun reader =>
  if n ≤ reader.input.length then
    .ok (reader.input.take n, { reader with input := reader.input.drop n })
  else .error message

/-- The next number of that many bytes. -/
def word (width : ℕ) (message : String) : Read ℕ := do
  let s ← take width message
  pure (BigEndian.value s)

/-- Fails unless the condition holds. -/
def check (p : Prop) [Decidable p] (message : String) : Read Unit := fun reader =>
  if p then .ok ((), reader) else .error message

def spend (n : ℕ) (message : String) : Read Unit := fun reader =>
  if n ≤ reader.budget then .ok ((), { reader with budget := reader.budget - n })
  else .error message

/-- Spends a price for each of several things. -/
def spendEach (count price : ℕ) (message : String) : Read Unit := fun reader =>
  if count ≤ reader.budget / price then
    .ok ((), { reader with budget := reader.budget - count * price })
  else .error message

/-- Reads the given number of things in a row. -/
def many : ℕ → Read α → Read (List α)
  | 0, _ => pure []
  | n + 1, read => do
    let first ← read
    let rest ← many n read
    pure (first :: rest)

/-- Fails with a message of its own. -/
def relabel (message : String) (read : Read α) : Read α := fun reader =>
  match read reader with
  | .ok result => .ok result
  | .error _ => .error message

/-- Fails unless everything was read. -/
def finish (message : String) : Read Unit := fun reader =>
  if reader.input = [] then .ok ((), reader) else .error message

end Read

/-- On these bytes the reader returns the value at that charge, and leaves what follows. -/
def Reads {α : Type} (read : Read α) (bytes : ByteString) (charge : ℕ) (value : α) : Prop :=
  ∀ rest budget, (read ⟨bytes ++ rest, budget⟩).toOption =
    if charge ≤ budget then some (value, ⟨rest, budget - charge⟩) else none

namespace Reads

variable {α β : Type}

theorem toOption_bind {ε : Type} (result : Except ε α) (next : α → Except ε β) :
    (result >>= next).toOption = result.toOption.bind fun value => (next value).toOption := by
  cases result <;> rfl

theorem pure (value : α) : Reads (Pure.pure value) [] 0 value := by
  intro rest budget
  rw [if_pos (Nat.zero_le budget)]
  rfl

variable {read : Read α} {value : α} {charge charge' : ℕ}

theorem bind {bytes bytes' : ByteString}
    {value' : β} (h : Reads read bytes charge value) (next : α → Read β)
    (h' : Reads (next value) bytes' charge' value') :
    Reads (read >>= next) (bytes ++ bytes') (charge + charge') value' := by
  intro rest budget
  have hrun : (read >>= next) ⟨bytes ++ bytes' ++ rest, budget⟩ =
      read ⟨bytes ++ bytes' ++ rest, budget⟩ >>= fun result => next result.1 result.2 := rfl
  rw [hrun, toOption_bind, List.append_assoc, h]
  by_cases hfirst : charge ≤ budget
  · rw [if_pos hfirst, Option.bind_some, h']
    by_cases hboth : charge + charge' ≤ budget
    · rw [if_pos hboth, if_pos (by omega), Nat.sub_add_eq]
    · rw [if_neg hboth, if_neg (by omega)]
  · rw [if_neg hfirst, if_neg (by omega), Option.bind_none]

variable {bytes : ByteString}

theorem map (f : α → β) (h : Reads read bytes charge value) :
    Reads (read >>= fun value => Pure.pure (f value)) bytes charge (f value) := by
  have hbind := h.bind (fun value => Pure.pure (f value)) (pure (f value))
  rwa [List.append_nil] at hbind

/-- A reader that needs no bytes before the next one. -/
theorem seq {read : Read Unit} {next : Read β}
    {value : β} (h : Reads read [] charge ()) (h' : Reads next bytes charge' value) :
    Reads (read >>= fun _ => next) bytes (charge + charge') value :=
  h.bind (fun _ => next) h'

theorem congr {bytes bytes' : ByteString}
    (h : Reads read bytes charge value) (hbytes : bytes = bytes') (hcost : charge = charge') :
    Reads read bytes' charge' value := by
  rwa [← hbytes, ← hcost]

theorem relabel (h : Reads read bytes charge value) (message : String) :
    Reads (Read.relabel message read) bytes charge value := by
  intro rest budget
  rw [← h rest budget, Read.relabel]
  cases read ⟨bytes ++ rest, budget⟩ <;> rfl

theorem take (bytes : ByteString) {n : ℕ} (h : bytes.length = n) (message : String) :
    Reads (Read.take n message) bytes 0 bytes := by
  intro rest budget
  simp [Read.take, ← h, Except.toOption]

theorem word {width n : ℕ} (h : n < 256 ^ width) (message : String) :
    Reads (Read.word width message) (BigEndian.bytes width n) 0 n := by
  have hword := (take _ (BigEndian.length_bytes width n) message).map BigEndian.value
  rwa [BigEndian.value_bytes h] at hword

theorem check {p : Prop} [Decidable p] (h : p) (message : String) :
    Reads (Read.check p message) [] 0 () := by
  intro rest budget
  simp [Read.check, h, Except.toOption]

theorem spend (n : ℕ) (message : String) : Reads (Read.spend n message) [] n () := by
  intro rest budget
  simp only [Read.spend, List.nil_append]
  split <;> rfl

theorem spendEach {price : ℕ} (hprice : 0 < price) (count : ℕ) (message : String) :
    Reads (Read.spendEach count price message) [] (count * price) () := by
  intro rest budget
  simp only [Read.spendEach, List.nil_append, Nat.le_div_iff_mul_le hprice]
  split <;> rfl

theorem many (write : α → ByteString) (charge : α → ℕ) {values : List α}
    (h : ∀ value ∈ values, Reads read (write value) (charge value) value) :
    Reads (Read.many values.length read) (values.flatMap write) (values.map charge).sum values := by
  induction values with
  | nil => exact pure []
  | cons value values ih =>
    rw [List.forall_mem_cons] at h
    have hrest := (ih h.2).map (value :: ·)
    exact h.1.bind (fun first => Read.many values.length read >>= fun rest =>
      Pure.pure (first :: rest)) hrest

/-- A whole input is read exactly when the budget lasts. -/
theorem finish (h : Reads read bytes charge value) (budget : ℕ) (message : String) :
    ((read >>= fun value => Read.finish message >>= fun _ => Pure.pure value)
      ⟨bytes, budget⟩).toOption =
        if charge ≤ budget then some (value, ⟨[], budget - charge⟩) else none := by
  have hrun : (read >>= fun value => Read.finish message >>= fun _ => Pure.pure value)
      ⟨bytes, budget⟩ = read ⟨bytes, budget⟩ >>= fun result =>
        (Read.finish message >>= fun _ => Pure.pure result.1) result.2 := rfl
  have hread := h [] budget
  rw [List.append_nil] at hread
  rw [hrun, toOption_bind, hread]
  by_cases hcost : charge ≤ budget
  · simp only [if_pos hcost]
    rfl
  · simp only [if_neg hcost, Option.bind_none]

end Reads

abbrev Write := ByteString → Checked ByteString

/-- The writer appends the bytes, given what it accepts. -/
structure Writes (limit : ℕ) (write : Write) (bytes : ByteString) (accepted : Prop) : Prop where
  sound : ∀ {dst dst'}, write dst = .ok dst' → dst' = dst ++ bytes ∧ accepted
  complete : ∀ {dst}, accepted → (dst ++ bytes).length ≤ limit → write dst = .ok (dst ++ bytes)

namespace Writes

variable {limit : ℕ} {write write' : Write} {bytes bytes' : ByteString} {p q : Prop}

theorem append (limit : ℕ) (bytes : ByteString) :
    Writes limit (fun dst => .ok (dst ++ bytes)) bytes True where
  sound h := ⟨(Except.ok.inj h).symm, trivial⟩
  complete _ _ := rfl

/-- A writer that checks the length of the buffer afterwards. -/
theorem limited (limit : ℕ) (bytes : ByteString) (message : String) :
    Writes limit (fun dst => do
      require ((dst ++ bytes).length ≤ limit) message
      .ok (dst ++ bytes)) bytes True where
  sound {dst dst'} h := by
    simp only [seq_eq_ok] at h
    exact ⟨(Except.ok.inj h.2).symm, trivial⟩
  complete {dst} _ h := by
    simp only [seq_eq_ok, require_eq_ok]
    exact ⟨h, trivial⟩

theorem congr (h : Writes limit write bytes p) (hbytes : bytes = bytes') (hyes : p ↔ q) :
    Writes limit write bytes' q := by
  rwa [← hbytes, ← propext hyes]

theorem seq (h : Writes limit write bytes p) (h' : Writes limit write' bytes' q) :
    Writes limit (fun dst => write dst >>= write') (bytes ++ bytes') (p ∧ q) where
  sound {dst dst'} hrun := by
    obtain ⟨mid, hmid, hrest⟩ := bind_eq_ok.mp hrun
    obtain ⟨rfl, hp⟩ := h.sound hmid
    obtain ⟨rfl, hq⟩ := h'.sound hrest
    exact ⟨List.append_assoc dst bytes bytes', hp, hq⟩
  complete {dst} hyes hlen := by
    have hfirst : write dst = .ok (dst ++ bytes) := by
      refine h.complete hyes.1 (Nat.le_trans ?_ hlen)
      simp only [List.length_append]
      omega
    rw [hfirst, ok_bind, ← List.append_assoc]
    refine h'.complete hyes.2 ?_
    rwa [List.append_assoc]

/-- A check before anything is written. -/
theorem check [Decidable q] (message : String) (h : Writes limit write bytes p) :
    Writes limit (fun dst => do require q message; write dst) bytes (q ∧ p) where
  sound hrun := by
    simp only [seq_eq_ok, require_eq_ok] at hrun
    obtain ⟨hbytes, hp⟩ := h.sound hrun.2
    exact ⟨hbytes, hrun.1, hp⟩
  complete {dst} hyes hlen := by
    simp only [seq_eq_ok, require_eq_ok]
    exact ⟨hyes.1, h.complete hyes.2 hlen⟩

theorem fold {α : Type} {write : α → Write} {bytes : α → ByteString} {accepted : α → Prop}
    (h : ∀ element, Writes limit (write element) (bytes element) (accepted element))
    (elements : List α) :
    Writes limit (fun dst => elements.foldlM (fun dst element => write element dst) dst)
      (elements.flatMap bytes) (∀ element ∈ elements, accepted element) := by
  induction elements with
  | nil =>
    have hnil := append limit []
    simpa [pure, Except.pure] using hnil
  | cons element elements ih =>
    have hseq := (h element).seq ih
    simp only [List.foldlM_cons, List.flatMap_cons, List.forall_mem_cons]
    exact hseq

end Writes

end Rhiza.Foundations
