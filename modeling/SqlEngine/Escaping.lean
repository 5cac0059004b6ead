import Mathlib.Data.List.DropRight
import SqlEngine.Executor

/-! Printed fields: the text of a stored field is printable, and the field can be read
back from it up to the NUL bytes at its end. -/
namespace SqlEngine

/-- The value of a digit that `hexDigit` printed. -/
def hexValue (digit : UInt8) : UInt8 := if isDigit digit then digit - 48 else digit - 55

/-- What a character behind a backslash stands for, `\x` aside. -/
def escapeMeaning (c : UInt8) : UInt8 :=
  if c == 110 then 10 else if c == 114 then 13 else if c == 116 then 9 else c

/-- The reader of an escaped field: a backslash starts an escape of two characters, or of
four when an `x` follows. -/
def unescapedField : Bytes → Bytes
  | [] => []
  | 92 :: 120 :: high :: low :: text =>
    (hexValue high <<< 4 ||| hexValue low) :: unescapedField text
  | 92 :: kind :: text => escapeMeaning kind :: unescapedField text
  | c :: text => c :: unescapedField text

private theorem unescaped_plain (plain : c ≠ 92) :
    unescapedField (c :: text) = c :: unescapedField text := by
  cases text with
  | nil => simp [unescapedField]
  | cons _ _ => simp [unescapedField, plain]

private theorem unescaped_short (named : kind ≠ 120) :
    unescapedField (92 :: kind :: text) = escapeMeaning kind :: unescapedField text := by
  simp [unescapedField, named]

private theorem hex_round_trip (c : UInt8) :
    hexValue (hexDigit (c >>> 4)) <<< 4 ||| hexValue (hexDigit (c &&& 0x0F)) = c := by
  revert c
  apply forall_byte
  decide +kernel

private theorem unescaped_escapedChar (c : UInt8) (text : Bytes) :
    unescapedField (escapedChar c ++ text) = c :: unescapedField text := by
  unfold escapedChar
  split
  · rename_i lineFeed
    rw [eq_of_beq lineFeed]
    exact unescaped_short (by decide)
  split
  · rename_i carriageReturn
    rw [eq_of_beq carriageReturn]
    exact unescaped_short (by decide)
  split
  · rename_i tab
    rw [eq_of_beq tab]
    exact unescaped_short (by decide)
  split
  · rename_i backslash
    rw [eq_of_beq backslash]
    exact unescaped_short (by decide)
  split
  · rename_i quote
    rw [eq_of_beq quote]
    exact unescaped_short (by decide)
  split
  · simp only [List.cons_append, List.nil_append, unescapedField, hex_round_trip]
  · rename_i plain _ _
    exact unescaped_plain (by simpa using plain)

private theorem unescaped_flatMap (bytes : Bytes) :
    unescapedField (bytes.flatMap escapedChar) = bytes := by
  induction bytes with
  | nil => rfl
  | cons c bytes ih => rw [List.flatMap_cons, unescaped_escapedChar, ih]

private theorem escapedChar_printable (c : UInt8) : (escapedChar c).all isPrint = true := by
  revert c
  apply forall_byte
  decide +kernel

private theorem trimmed_zeros (bytes : Bytes) :
    ∃ n, bytes = bytes.rdropWhile (· == 0) ++ List.replicate n 0 := by
  refine ⟨(bytes.rtakeWhile (· == 0)).length, ?_⟩
  have zeros : bytes.rtakeWhile (· == 0) = List.replicate (bytes.rtakeWhile (· == 0)).length 0 := by
    refine List.eq_replicate_of_mem fun c member => ?_
    have zero := List.mem_rtakeWhile_imp (p := (· == 0)) member
    exact eq_of_beq zero
  rw [← zeros, List.rdropWhile_append_rtakeWhile]

private theorem trimmed_append_zeros (bytes : Bytes) (n : Nat) :
    (bytes ++ List.replicate n 0).rdropWhile (· == 0) = bytes.rdropWhile (· == 0) := by
  induction n with
  | zero => simp
  | succ n ih =>
    rw [List.replicate_succ', ← List.append_assoc, List.rdropWhile_concat_pos _ _ _ rfl, ih]

/-- Escaping prints only printable characters and can be undone: the reader finds the
field without the NUL bytes at its end. Two fields print equal exactly when they are equal
up to NUL bytes at their ends. -/
theorem escaped_field_reversible (bytes : Bytes) :
    (∀ c ∈ escapedField bytes, 0x20 ≤ c ∧ c ≤ 0x7E) ∧
    unescapedField (escapedField bytes) = bytes.rdropWhile (· == 0) ∧
    ∀ other, escapedField bytes = escapedField other ↔
      ∃ m n, bytes ++ List.replicate m 0 = other ++ List.replicate n 0 := by
  have reads : ∀ field, unescapedField (escapedField field) = field.rdropWhile (· == 0) :=
    fun field => unescaped_flatMap _
  refine ⟨fun c member => ?_, reads bytes, fun other => ⟨fun same => ?_, ?_⟩⟩
  · obtain ⟨source, _, printed⟩ := List.mem_flatMap.mp member
    have printable := List.all_eq_true.mp (escapedChar_printable source) c printed
    simpa [isPrint] using printable
  · have stripped : bytes.rdropWhile (· == 0) = other.rdropWhile (· == 0) := by
      rw [← reads, ← reads, same]
    obtain ⟨m, full⟩ := trimmed_zeros bytes
    obtain ⟨n, whole⟩ := trimmed_zeros other
    refine ⟨n, m, ?_⟩
    rw [full, whole, stripped, List.append_assoc, List.append_assoc,
      List.replicate_append_replicate,
      List.replicate_append_replicate, Nat.add_comm]
  · rintro ⟨m, n, equal⟩
    have stripped := congrArg (List.rdropWhile (· == 0)) equal
    rw [trimmed_append_zeros, trimmed_append_zeros] at stripped
    exact congrArg (List.flatMap escapedChar) stripped

end SqlEngine
