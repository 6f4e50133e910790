import Mathlib.Data.List.Induction
import Rhiza.Foundations.BudgetReader

/-! # Fixed layouts

A record of fixed-width fields is the concatenation of its fields; `fields` cuts them out again
at the widths of the layout. Numbers are written most significant byte first.
-/

namespace Rhiza.Foundations

/-- The fields of the given widths at the front. -/
def fields : List ℕ → ByteString → List ByteString
  | [], _ => []
  | width :: widths, s => s.take width :: fields widths (s.drop width)

theorem fields_flatten_append (parts : List ByteString) (rest : ByteString) :
    fields (parts.map List.length) (parts.flatten ++ rest) = parts := by
  induction parts with
  | nil => rfl
  | cons part parts ih =>
    rw [List.map_cons, List.flatten_cons, List.append_assoc, fields, List.take_left,
      List.drop_left, ih]

theorem flatten_fields (widths : List ℕ) (s : ByteString) :
    (fields widths s).flatten = s.take widths.sum := by
  induction widths generalizing s with
  | nil => rfl
  | cons width widths ih =>
    rw [fields, List.flatten_cons, ih, List.sum_cons, List.take_add]

theorem length_fields {widths : List ℕ} {s : ByteString} (h : widths.sum ≤ s.length) :
    (fields widths s).map List.length = widths := by
  induction widths generalizing s with
  | nil => rfl
  | cons width widths ih =>
    rw [List.sum_cons] at h
    rw [fields, List.map_cons, ih (by rw [List.length_drop]; omega), List.length_take,
      Nat.min_eq_left (by omega)]

/-- Fields inside a cut are those of the whole. -/
theorem fields_take {widths : List ℕ} {cut : ℕ} (s : ByteString) (h : widths.sum ≤ cut) :
    fields widths (s.take cut) = fields widths s := by
  induction widths generalizing cut s with
  | nil => rfl
  | cons width widths ih =>
    rw [List.sum_cons] at h
    rw [fields, fields, List.take_take, Nat.min_eq_left (by omega), List.drop_take, ih _ (by omega)]

namespace BigEndian

theorem value_lt (s : ByteString) : value s < 256 ^ s.length := by
  induction s using List.reverseRecOn with
  | nil => exact Nat.one_pos
  | append_singleton s b ih =>
    have hb : b.toNat < 256 := b.toNat_lt
    rw [value_append, List.length_append, List.length_singleton, Nat.pow_succ]
    omega

theorem bytes_value (s : ByteString) : bytes s.length (value s) = s := by
  induction s using List.reverseRecOn with
  | nil => rfl
  | append_singleton s b ih =>
    have hb : b.toNat < 256 := b.toNat_lt
    have hhigh : (value s * 256 + b.toNat) / 256 = value s := by omega
    have hlow : UInt8.ofNat (value s * 256 + b.toNat) = b := by
      apply UInt8.toNat_inj.mp
      rw [UInt8.toNat_ofNat']
      omega
    rw [value_append, List.length_append, List.length_singleton, bytes, hhigh, ih, hlow]

def uint64 (n : UInt64) : ByteString := bytes 8 n.toNat

def toUInt64 (s : ByteString) : UInt64 := UInt64.ofNat (value s)

@[simp] theorem length_uint64 (n : UInt64) : (uint64 n).length = 8 := length_bytes 8 _

@[simp] theorem toUInt64_uint64 (n : UInt64) : toUInt64 (uint64 n) = n := by
  rw [toUInt64, uint64, value_bytes (by simpa using n.toNat_lt), UInt64.ofNat_toNat]

theorem uint64_toUInt64 {s : ByteString} (h : s.length = 8) : uint64 (toUInt64 s) = s := by
  have hlt : value s < 2 ^ 64 := by simpa [h] using value_lt s
  rw [uint64, toUInt64, UInt64.toNat_ofNat_of_lt' hlt, ← h, bytes_value]

def uint32 (n : UInt32) : ByteString := bytes 4 n.toNat

def toUInt32 (s : ByteString) : UInt32 := UInt32.ofNat (value s)

@[simp] theorem length_uint32 (n : UInt32) : (uint32 n).length = 4 := length_bytes 4 _

@[simp] theorem toUInt32_uint32 (n : UInt32) : toUInt32 (uint32 n) = n := by
  rw [toUInt32, uint32, value_bytes (by simpa using n.toNat_lt), UInt32.ofNat_toNat]

theorem uint32_toUInt32 {s : ByteString} (h : s.length = 4) : uint32 (toUInt32 s) = s := by
  have hlt : value s < 2 ^ 32 := by simpa [h] using value_lt s
  rw [uint32, toUInt32, UInt32.toNat_ofNat_of_lt' hlt, ← h, bytes_value]

end BigEndian

/-! Least significant byte first. -/

namespace LittleEndian

def uint32 (n : UInt32) : ByteString := (BigEndian.uint32 n).reverse
def uint64 (n : UInt64) : ByteString := (BigEndian.uint64 n).reverse
def toUInt32 (s : ByteString) : UInt32 := BigEndian.toUInt32 s.reverse
def toUInt64 (s : ByteString) : UInt64 := BigEndian.toUInt64 s.reverse

@[simp] theorem length_uint32 (n : UInt32) : (uint32 n).length = 4 := by simp [uint32]

@[simp] theorem length_uint64 (n : UInt64) : (uint64 n).length = 8 := by simp [uint64]

@[simp] theorem toUInt32_uint32 (n : UInt32) : toUInt32 (uint32 n) = n := by
  simp [toUInt32, uint32]

@[simp] theorem toUInt64_uint64 (n : UInt64) : toUInt64 (uint64 n) = n := by
  simp [toUInt64, uint64]

theorem uint32_toUInt32 {s : ByteString} (h : s.length = 4) : uint32 (toUInt32 s) = s := by
  rw [uint32, toUInt32, BigEndian.uint32_toUInt32 (by simpa using h), List.reverse_reverse]

theorem uint64_toUInt64 {s : ByteString} (h : s.length = 8) : uint64 (toUInt64 s) = s := by
  rw [uint64, toUInt64, BigEndian.uint64_toUInt64 (by simpa using h), List.reverse_reverse]

end LittleEndian

end Rhiza.Foundations
