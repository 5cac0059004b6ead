import Mathlib.Data.List.Basic
import Mathlib.Data.List.TakeWhile
import Mathlib.Algebra.Group.Int.Defs
import Mathlib.Algebra.Group.Nat.Defs

/-! The utility layer of the engine: C strings, the C-locale character classes,
checked arithmetic and the decimal text of an `int32`. Pointers are taken to be
valid; a C string is the list of its bytes in front of the terminating NUL. -/
namespace SqlEngine

/-- A run of bytes: file contents, a character array, or the text of a C string. -/
abbrev Bytes := List UInt8

/-- The bytes of an ASCII literal of the source. -/
def str (text : String) : Bytes := text.toList.map fun c => c.toNat.toUInt8

/-- A NUL-terminated C string, as the bytes in front of its NUL. -/
structure CString where
  bytes : Bytes
  nulFree : 0 ∉ bytes

/-- The C string that a character array holds: everything in front of its first
NUL byte. -/
def cstr (array : Bytes) : Bytes := array.takeWhile (· != 0)

/-! ## Character classes of the C locale -/

def isSpace (c : UInt8) : Bool := c == 32 || (9 ≤ c && c ≤ 13)

def isDigit (c : UInt8) : Bool := 48 ≤ c && c ≤ 57

def isUpper (c : UInt8) : Bool := 65 ≤ c && c ≤ 90

def isLower (c : UInt8) : Bool := 97 ≤ c && c ≤ 122

def isAlpha (c : UInt8) : Bool := isUpper c || isLower c

def isAlnum (c : UInt8) : Bool := isAlpha c || isDigit c

/-- `isprint` of the C locale. -/
def isPrint (c : UInt8) : Bool := 32 ≤ c && c ≤ 126

def toLower (c : UInt8) : UInt8 := if isUpper c then c + 32 else c

/-- A fact about every byte is a fact about the 256 byte values. -/
theorem forall_byte {P : UInt8 → Prop} (holds : ∀ n : Fin 256, P (UInt8.ofFin n)) (c : UInt8) :
    P c := by
  simpa using holds c.toFin

/-! ## Checked arithmetic -/

def SIZE_MAX : Nat := 2 ^ 64 - 1

def UINT32_MAX : Nat := 2 ^ 32 - 1

def LONG_MAX : Nat := 2 ^ 63 - 1

def INT32_MIN : Int := -2147483648

def INT32_MAX : Int := 2147483647

/-- `util_mul_size`, on the values of the 64-bit `size_t` operands. -/
def utilMulSize (a b : Nat) : Option Nat :=
  if a ≠ 0 ∧ b > SIZE_MAX / a then none else some (a * b)

/-- `util_mul_u64`. -/
def utilMulU64 (a b : UInt64) : Option UInt64 :=
  if a ≠ 0 ∧ b > 0xFFFFFFFFFFFFFFFF / a then none else some (a * b)

/-- `util_add_u64`. -/
def utilAddU64 (a b : UInt64) : Option UInt64 :=
  if b > 0xFFFFFFFFFFFFFFFF - a then none else some (a + b)

/-- `util_copy_checked`: the whole string is copied, or nothing is. -/
def utilCopyChecked (destinationSize : Nat) (source : Bytes) : Option Bytes :=
  if destinationSize = 0 ∨ source.length ≥ destinationSize then none else some source

/-! ## Integers in text -/

/-- The value of a digit string, read from the left. -/
def digitsValue (digits : Bytes) : Nat :=
  digits.foldl (fun value c => 10 * value + (c.toNat - 48)) 0

/-- What `strtoimax` reports: the converted value, the text from `*end` on, and
whether `errno` became `ERANGE`. -/
structure Conversion where
  value : Int
  rest : Bytes
  erange : Bool
  deriving DecidableEq

/-- `strtoimax(text, &end, 10)` for the 64-bit `intmax_t` and the C locale. When
there is no digit, `*end` is the start of the text. -/
def strtoimax (text : Bytes) : Conversion :=
  let unsigned := text.dropWhile isSpace
  let negative := unsigned.head? == some 45
  let body := if negative || unsigned.head? == some 43 then unsigned.tail else unsigned
  let digits := body.takeWhile isDigit
  let rest := body.dropWhile isDigit
  if digits = [] then { value := 0, rest := text, erange := false }
  else
    let magnitude : Int := digitsValue digits
    let exact := if negative then -magnitude else magnitude
    if exact < -2 ^ 63 then { value := -2 ^ 63, rest, erange := true }
    else if exact ≥ 2 ^ 63 then { value := 2 ^ 63 - 1, rest, erange := true }
    else { value := exact, rest, erange := false }

/-- `util_parse_int32`. -/
def utilParseInt32 (text : Bytes) : Option Int32 :=
  if text = [] then none
  else
    let v := strtoimax text
    if v.erange || v.rest.length == text.length || v.rest != [] then none
    else if v.value < INT32_MIN ∨ v.value > INT32_MAX then none
    else some (Int32.ofInt v.value)

/-- The text `printf("%d")` gives for an `int32`. -/
def decimal (value : Int32) : Bytes :=
  let digits := (Nat.toDigits 10 value.toInt.natAbs).map fun c => c.toNat.toUInt8
  if value.toInt < 0 then 45 :: digits else digits

/-! ## Words -/

/-- `util_strncasecmp`: a byte past the end of either string is its NUL. -/
def utilStrncasecmp : Bytes → Bytes → Nat → Int
  | _, _, 0 => 0
  | a, b, n + 1 =>
    let ca := a.headD 0
    let cb := b.headD 0
    if ca = 0 ∨ cb = 0 then (ca.toNat : Int) - cb.toNat
    else if toLower ca ≠ toLower cb then ((toLower ca).toNat : Int) - (toLower cb).toNat
    else utilStrncasecmp a.tail b.tail n

/-- Two texts are equal when ASCII case is ignored. -/
def SameIgnoringCase (a b : Bytes) : Prop := a.map toLower = b.map toLower

instance (a b : Bytes) : Decidable (SameIgnoringCase a b) :=
  inferInstanceAs (Decidable (a.map toLower = b.map toLower))

private theorem toLower_eq_zero {c : UInt8} : toLower c = 0 ↔ c = 0 := by
  unfold toLower isUpper
  split
  · rename_i upper
    simp only [Bool.and_eq_true, decide_eq_true_eq] at upper
    have low := UInt8.le_iff_toNat_le.mp upper.1
    have high := UInt8.le_iff_toNat_le.mp upper.2
    simp only [← UInt8.toNat_inj, UInt8.toNat_add, UInt8.toNat_ofNat] at *
    omega
  · exact Iff.rfl

/-- Comparing the first `n` bytes against a keyword of exactly `n` bytes succeeds
when the text starts with that keyword in some letter case. -/
theorem strncasecmp_leading (a kw : Bytes) (nulFree : 0 ∉ kw) :
    utilStrncasecmp a kw kw.length = 0 ↔
      kw.length ≤ a.length ∧ SameIgnoringCase (a.take kw.length) kw := by
  induction kw generalizing a with
  | nil => simp [utilStrncasecmp, SameIgnoringCase]
  | cons k kw ih =>
    have kNonzero : k ≠ 0 := fun eq => nulFree (by simp [eq])
    have restFree : 0 ∉ kw := fun mem => nulFree (List.mem_cons_of_mem _ mem)
    cases a with
    | nil =>
      have positive : 0 < k.toNat := Nat.pos_of_ne_zero (fun h => kNonzero (UInt8.toNat_inj.mp h))
      simp [utilStrncasecmp]
      omega
    | cons c a =>
      by_cases cZero : c = 0
      · subst c
        have positive : 0 < k.toNat := Nat.pos_of_ne_zero (fun h => kNonzero (UInt8.toNat_inj.mp h))
        have different : ¬ toLower k = 0 := fun h => kNonzero (toLower_eq_zero.mp h)
        have lowered : toLower 0 = 0 := by decide
        simp [utilStrncasecmp, SameIgnoringCase, lowered, Ne.symm different]
        omega
      · by_cases same : toLower c = toLower k
        · simp only [utilStrncasecmp, List.headD_cons, cZero, kNonzero, or_self, ↓reduceIte,
            same, ne_eq, not_true_eq_false, List.tail_cons, List.length_cons]
          rw [ih a restFree]
          simp [SameIgnoringCase, same]
        · have unequal : ((toLower c).toNat : Int) - (toLower k).toNat ≠ 0 := by
            intro zero
            exact same (UInt8.toNat_inj.mp (by omega))
          simp [utilStrncasecmp, SameIgnoringCase, cZero, kNonzero, same, unequal]

/-- `util_is_word_boundary`. -/
def utilIsWordBoundary (c : UInt8) : Bool :=
  if c = 0 then true else !(isAlnum c || c == 95)

end SqlEngine
