import Mathlib.Data.Nat.Bitwise
import Mathlib.Tactic.Ring

/-! Little-endian numbers in byte strings, and byte strings seen as files: a byte past
the end reads as zero, and a write may leave a gap of zeros in front of it. -/
namespace SqlEngine.Library

variable {bytes data : List UInt8} {offset i width n : Nat}

/-- The number a byte string denotes, its first byte the least significant. -/
def leNat : List UInt8 → Nat
  | [] => 0
  | b :: bytes => b.toNat + 256 * leNat bytes

/-- The lowest `width` bytes of a number. -/
def leBytes : (width n : Nat) → List UInt8
  | 0, _ => []
  | width + 1, n => n.toUInt8 :: leBytes width (n / 256)

/-- A number is read back from its bytes, as far as they are enough. -/
theorem leNat_leBytes (width n : Nat) : leNat (leBytes width n) = n % 256 ^ width := by
  induction width generalizing n with
  | zero => simp [leBytes, leNat, Nat.mod_one]
  | succ width ih =>
    have low : (n.toUInt8).toNat = n % 256 := rfl
    rw [leBytes, leNat, low, ih, Nat.pow_succ, Nat.mul_comm (256 ^ width) 256, Nat.mod_mul]

/-- Bytes are the digits of the number they stand for. -/
theorem leBytes_leNat (bytes : List UInt8) : leBytes bytes.length (leNat bytes) = bytes := by
  induction bytes with
  | nil => rfl
  | cons b bytes ih =>
    have low := b.toNat_lt
    have quotient : (b.toNat + 256 * leNat bytes) / 256 = leNat bytes := by omega
    have remainder : (b.toNat + 256 * leNat bytes).toUInt8 = b := by
      apply UInt8.toNat_inj.mp
      change (b.toNat + 256 * leNat bytes) % 256 = b.toNat
      omega
    rw [List.length_cons, leNat, leBytes, quotient, remainder, ih]

/-! ## Parts of a byte string -/

/-- Up to `count` bytes from an offset on. -/
def slice (bytes : List UInt8) (offset count : Nat) : List UInt8 := (bytes.drop offset).take count

theorem length_slice (bytes : List UInt8) (offset count : Nat) :
    (slice bytes offset count).length = min count (bytes.length - offset) := by
  simp [slice]

/-- The part at the front is the first of two strings. -/
theorem slice_front {count : Nat} (length : bytes.length = count) (more : List UInt8) :
    slice (bytes ++ more) 0 count = bytes := by
  rw [slice, List.drop_zero, List.take_left' length]

/-- A part behind the first of two strings is a part of the second. -/
theorem slice_behind {length : Nat} (exact_length : bytes.length = length) (more : List UInt8)
    (offset count : Nat) :
    slice (bytes ++ more) (length + offset) count = slice more offset count := by
  rw [slice, slice, ← List.drop_drop, List.drop_left' exact_length]

/-- The content of a file after writing at an offset. -/
def patch (bytes : List UInt8) (offset : Nat) (data : List UInt8) : List UInt8 :=
  if data = [] then bytes
  else (bytes ++ List.replicate (offset - bytes.length) 0).take offset ++ data ++
    bytes.drop (offset + data.length)

@[simp] theorem patch_nil (bytes : List UInt8) (offset : Nat) : patch bytes offset [] = bytes := by
  simp [patch]

/-- A patch never makes the bytes shorter. -/
theorem length_patch (nonempty : data ≠ []) :
    (patch bytes offset data).length = max bytes.length (offset + data.length) := by
  simp [patch, nonempty]
  omega

private theorem getD_zeros (bytes : List UInt8) (count i : Nat) :
    (bytes ++ List.replicate count 0).getD i 0 = bytes.getD i 0 := by
  simp only [List.getD_eq_getElem?_getD, List.getElem?_append]
  split
  · rfl
  · rename_i past
    have outside : bytes[i]? = none := List.getElem?_eq_none (by omega)
    rw [outside]
    by_cases inside : i - bytes.length < count
    · simp [inside]
    · simp [inside]

/-- A write changes the bytes it covers, and no other byte. -/
theorem getD_patch (bytes : List UInt8) (offset : Nat) (data : List UInt8) (i : Nat) :
    (patch bytes offset data).getD i 0 =
      if offset ≤ i ∧ i < offset + data.length then data.getD (i - offset) 0
        else bytes.getD i 0 := by
  by_cases empty : data = []
  · subst empty
    simp
  · have front : ((bytes ++ List.replicate (offset - bytes.length) 0).take offset).length =
        offset := by
      simp
      omega
    rw [patch, if_neg empty, List.append_assoc]
    by_cases before : i < offset
    · rw [if_neg (by omega), List.getD_append _ _ _ _ (by omega)]
      rw [List.getD_eq_getElem?_getD, List.getElem?_take_of_lt before, ← List.getD_eq_getElem?_getD,
        getD_zeros]
    · rw [List.getD_append_right _ _ _ _ (by omega), front]
      by_cases inside : i < offset + data.length
      · rw [if_pos ⟨by omega, inside⟩, List.getD_append _ _ _ _ (by omega)]
      · rw [if_neg (by omega), List.getD_append_right _ _ _ _ (by omega)]
        simp only [List.getD_eq_getElem?_getD, List.getElem?_drop]
        congr 2
        omega

/-- The content of a file cut or zero-extended to a length. -/
def resize (bytes : List UInt8) (length : Nat) : List UInt8 :=
  bytes.take length ++ List.replicate (length - bytes.length) 0

@[simp] theorem length_resize (bytes : List UInt8) (length : Nat) :
    (resize bytes length).length = length := by
  simp [resize]
  omega

theorem getD_resize (bytes : List UInt8) (length i : Nat) (inside : i < length) :
    (resize bytes length).getD i 0 = bytes.getD i 0 := by
  unfold resize
  by_cases short : bytes.length ≤ length
  · rw [List.take_of_length_le short, getD_zeros]
  · rw [List.getD_append _ _ _ _ (by simp; omega), List.getD_eq_getElem?_getD,
      List.getElem?_take_of_lt inside, ← List.getD_eq_getElem?_getD]

/-- Two strings with the same bytes in a range have the same part there. -/
theorem slice_congr {other : List UInt8} {count : Nat} (enough : offset + count ≤ bytes.length)
    (enough' : offset + count ≤ other.length)
    (same : ∀ i < count, bytes.getD (offset + i) 0 = other.getD (offset + i) 0) :
    slice bytes offset count = slice other offset count := by
  apply List.ext_getElem
  · rw [length_slice, length_slice]
    omega
  · intro i left right
    rw [length_slice] at left
    have byte := same i (by omega)
    rw [List.getD_eq_getElem _ _ (by omega), List.getD_eq_getElem _ _ (by omega)] at byte
    simpa [slice] using byte

end SqlEngine.Library
