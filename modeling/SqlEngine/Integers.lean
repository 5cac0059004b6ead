import SqlEngine.Util

/-! Integers in text: what `strtoimax` and `util_parse_int32` make of a sign and digits. -/
namespace SqlEngine

/-- A number as the tokenizer spells it: digits behind at most a minus sign. -/
structure NumberText (text : Bytes) (sign digits : Bytes) : Prop where
  whole : text = sign ++ digits
  signed : sign = [] ∨ sign = [45]
  nonempty : digits ≠ []
  decimal : ∀ c ∈ digits, isDigit c = true

/-- The integer that a sign and digits denote. -/
def denoted (sign digits : Bytes) : Int :=
  if sign = [] then digitsValue digits else -digitsValue digits

/-- The integer that the text of a number denotes. -/
def literalValue (text : Bytes) : Int :=
  if text.head? = some 45 then -digitsValue text.tail else digitsValue text

def InInt32 (value : Int) : Prop := INT32_MIN ≤ value ∧ value ≤ INT32_MAX

instance (value : Int) : Decidable (InInt32 value) := inferInstanceAs (Decidable (_ ∧ _))

variable {text sign digits : Bytes}

private theorem digit_plain {c : UInt8} (digit : isDigit c = true) :
    isSpace c = false ∧ c ≠ 45 ∧ c ≠ 43 :=
  forall_byte (P := fun c => isDigit c = true → isSpace c = false ∧ c ≠ 45 ∧ c ≠ 43)
    (by decide +kernel) c digit

/-- The value of a literal is what its sign and digits denote. -/
theorem literalValue_eq (number : NumberText text sign digits) :
    literalValue text = denoted sign digits := by
  obtain ⟨rfl, signed, nonempty, decimal⟩ := number
  rcases signed with rfl | rfl
  · obtain ⟨first, rest, rfl⟩ := List.exists_cons_of_ne_nil nonempty
    have notMinus := (digit_plain (decimal first (List.mem_cons_self ..))).2.1
    simp [literalValue, denoted, notMinus]
  · rfl

/-- `strtoimax` reads the whole text of a number, to the value it denotes or to the bound it
passes. -/
theorem strtoimax_number (number : NumberText text sign digits) :
    strtoimax text =
      if denoted sign digits < -2 ^ 63 then { value := -2 ^ 63, rest := [], erange := true }
      else if denoted sign digits ≥ 2 ^ 63 then { value := 2 ^ 63 - 1, rest := [], erange := true }
      else { value := denoted sign digits, rest := [], erange := false } := by
  obtain ⟨rfl, signed, nonempty, decimal⟩ := number
  have taken : digits.takeWhile isDigit = digits := List.takeWhile_eq_self_iff.mpr decimal
  have dropped : digits.dropWhile isDigit = [] := List.dropWhile_eq_nil_iff.mpr decimal
  have minusPlain : isSpace 45 = false := by decide
  rcases signed with rfl | rfl
  · obtain ⟨first, rest, rfl⟩ := List.exists_cons_of_ne_nil nonempty
    obtain ⟨plain, notMinus, notPlus⟩ := digit_plain (decimal first (List.mem_cons_self ..))
    simp only [strtoimax, denoted, List.nil_append, List.dropWhile_cons, plain,
      Bool.false_eq_true, ↓reduceIte,
      List.head?_cons, Option.some_beq_some, beq_eq_false_iff_ne.mpr notMinus,
        beq_eq_false_iff_ne.mpr notPlus,
      Bool.or_self, taken, reduceCtorEq, dropped]
  · simp only [strtoimax, denoted, List.cons_append, List.nil_append,
      List.dropWhile_cons, minusPlain,
      Bool.false_eq_true, ↓reduceIte, List.head?_cons, beq_self_eq_true, Bool.true_or,
        List.tail_cons,
        taken, nonempty,
      dropped, List.cons_ne_nil]

/-- A number is accepted exactly if the integer it denotes is an `int32`, whatever its length. -/
theorem parseInt32_number (number : NumberText text sign digits) :
    utilParseInt32 text = if InInt32 (denoted sign digits) then
      some (Int32.ofInt (denoted sign digits)) else none := by
  have positive : text ≠ [] := by simp [number.whole, number.nonempty]
  have length : ¬ 0 = text.length := fun zero => positive (List.length_eq_zero_iff.mp zero.symm)
  have clamped := strtoimax_number number
  have bounds : InInt32 (denoted sign digits) ↔ -2147483648 ≤ denoted sign digits ∧
      denoted sign digits ≤ 2147483647 :=
    Iff.rfl
  unfold utilParseInt32 INT32_MIN INT32_MAX
  rw [if_neg positive, clamped]
  by_cases fits : InInt32 (denoted sign digits)
  · rw [bounds] at fits
    rw [if_pos (bounds.mpr fits), if_neg (show ¬ denoted sign digits < -2 ^ 63 by omega),
      if_neg (show ¬ denoted sign digits ≥ 2 ^ 63 by omega)]
    simp only [List.length_nil, Bool.false_or, bne_self_eq_false, Bool.or_false, beq_iff_eq,
      length, ↓reduceIte]
    rw [if_neg (by omega)]
  · rw [if_neg fits]
    rw [bounds] at fits
    split
    · rfl
    · split
      · rfl
      · simp only [List.length_nil, Bool.false_or, bne_self_eq_false, Bool.or_false, beq_iff_eq,
          length, ↓reduceIte]
        rw [if_pos (by omega)]

end SqlEngine
