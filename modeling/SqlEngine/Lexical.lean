import SqlEngine.Tokenizer

/-! The lexical grammar, stated without the tokenizer, and the proof that the
tokenizer accepts exactly the texts of that grammar, splits them greedily, and
never stores outside its two arrays. -/
namespace SqlEngine

/-- The one-character tokens. -/
def punctuationTable : List (UInt8 × TokenType) :=
  [(44, .comma), (42, .star), (61, .equal), (40, .lparen), (41, .rparen), (59, .semicolon)]

def isWordChar (c : UInt8) : Bool := isAlnum c || c == 95

/-- A word is a keyword when it equals one ignoring ASCII case, otherwise it is an
identifier. -/
def WordType (word : Bytes) (type : TokenType) : Prop :=
  (∃ keyword, (keyword, type) ∈ keywords ∧ SameIgnoringCase word keyword) ∨
    (type = .identifier ∧ ∀ entry ∈ keywords, ¬ SameIgnoringCase word entry.1)

/-- The texts of each token, with its value. -/
inductive Lexeme : Bytes → Token → Prop where
  | punctuation (member : (c, type) ∈ punctuationTable) : Lexeme [c] { type, value := [c] }
  | string (content : Bytes) (unquoted : 34 ∉ content) (fits : content.length ≤ 63) :
      Lexeme (34 :: content ++ [34]) { type := .string, value := content }
  | number (sign digits : Bytes) (signed : sign = [] ∨ sign = [45]) (nonempty : digits ≠ [])
      (decimal : ∀ c ∈ digits, isDigit c = true) (fits : (sign ++ digits).length ≤ 63) :
      Lexeme (sign ++ digits) { type := .number, value := sign ++ digits }
  | word (first : UInt8) (rest : Bytes) (initial : (isAlpha first || first == 95) = true)
      (following : ∀ c ∈ rest, isWordChar c = true) (fits : (first :: rest).length ≤ 63)
      (classified : WordType (first :: rest) type) :
      Lexeme (first :: rest) { type, value := first :: rest }

/-- What may follow a token whose text was read as far as possible. -/
def Maximal (type : TokenType) (rest : Bytes) : Prop :=
  match type with
  | .number => isDigit (rest.headD 0) = false
  | .selectKw | .insertKw | .fromKw | .whereKw | .intoKw | .valuesKw | .identifier =>
    isWordChar (rest.headD 0) = false
  | _ => True

/-- The greedy split of a text into tokens, white space between them ignored. -/
inductive Lexes : Bytes → List Token → Prop where
  | done (blank : ∀ c ∈ gap, isSpace c = true) : Lexes gap []
  | token (blank : ∀ c ∈ gap, isSpace c = true) (lexeme : Lexeme text token)
      (maximal : Maximal token.type rest) (following : Lexes rest tokens) :
      Lexes (gap ++ (text ++ rest)) (token :: tokens)

variable {accept : UInt8 → Bool} {p text rest content word keyword : Bytes} {c : UInt8}
  {type : TokenType}

theorem Lexes.here {token : Token} {tokens : List Token} (lexeme : Lexeme text token)
    (maximal : Maximal token.type rest) (following : Lexes rest tokens) :
    Lexes (text ++ rest) (token :: tokens) :=
  .token (List.forall_mem_nil _) lexeme maximal following

/-! ## The value array -/

/-- A value array holding `content`, zeroed behind it. -/
def filled (content : Bytes) : Bytes := content ++ List.replicate (64 - content.length) 0

private theorem writeChar_filled (content : Bytes) (c : UInt8) (fits : content.length ≤ 63) :
    writeChar (filled content) content.length c = .done (filled (content ++ [c])) := by
  have split : List.replicate (64 - content.length) (0 : UInt8) =
      0 :: List.replicate (63 - content.length) 0 := by
    rw [show 64 - content.length = (63 - content.length) + 1 by omega, List.replicate_succ]
  simp [writeChar, filled, split, show 64 - (content.length + 1) = 63 - content.length by omega]

private theorem cstr_filled (content : Bytes) (nulFree : 0 ∉ content) :
    cstr (filled (content ++ [0])) = content := by
  have nonzero : ∀ c ∈ content, (c != 0) = true := by
    intro c member
    simp only [bne_iff_ne, ne_eq]
    rintro rfl
    exact nulFree member
  simp [cstr, filled, List.takeWhile_append_of_pos nonzero]

private theorem copyWhile_filled (accept : UInt8 → Bool) (content p : Bytes)
    (fits : content.length ≤ 63) :
    copyWhile accept p (filled content) content.length =
      if content.length + (p.takeWhile accept).length ≤ 63 then
        .done (filled (content ++ p.takeWhile accept),
          content.length + (p.takeWhile accept).length, p.dropWhile accept)
      else .fail .tokenTooLong := by
  induction p generalizing content with
  | nil => simp [copyWhile, fits]
  | cons c p ih =>
    by_cases accepted : accept c = true
    · by_cases room : content.length ≥ TOKEN_VALUE_MAX
      · simp [copyWhile, accepted, room]
        simp only [TOKEN_VALUE_MAX] at room
        omega
      · have inside : (content ++ [c]).length ≤ 63 := by
          simp only [TOKEN_VALUE_MAX] at room
          simp
          omega
        have next := ih _ inside
        simp only [List.length_append, List.length_cons, List.length_nil, Nat.zero_add] at next
        simp only [copyWhile, accepted, ↓reduceIte, room, writeChar_filled _ _ fits,
          Scan.done_bind, next,
          List.takeWhile_cons_of_pos, List.dropWhile_cons_of_pos, List.length_cons]
        simp [Nat.add_assoc, Nat.add_comm 1]
    · simp [copyWhile, accepted, fits]

private theorem emptyValue_filled : emptyValue = filled [] := rfl

private theorem copyWhile_empty (accept : UInt8 → Bool) (p : Bytes) :
    copyWhile accept p emptyValue 0 =
      if (p.takeWhile accept).length ≤ 63 then
        .done (filled (p.takeWhile accept), (p.takeWhile accept).length, p.dropWhile accept)
      else .fail .tokenTooLong := by
  rw [emptyValue_filled]
  simpa using copyWhile_filled accept [] p (by simp)

/-! ## Keywords -/

private theorem isKeyword_iff (nulFree : 0 ∉ word) (keywordFree : 0 ∉ keyword) :
    isKeyword word keyword = true ↔ SameIgnoringCase word keyword := by
  have ends : word.getD keyword.length 0 = 0 ↔ word.length ≤ keyword.length := by
    by_cases short : word.length ≤ keyword.length
    · simp [short]
    · have inside : keyword.length < word.length := by omega
      simp only [List.getD_eq_getElem?_getD, List.getElem?_eq_getElem inside, Option.getD_some,
        short, iff_false]
      intro zero
      exact nulFree (zero ▸ List.getElem_mem inside)
  simp only [isKeyword, Bool.and_eq_true, beq_iff_eq,
    strncasecmp_leading word keyword keywordFree, ends]
  constructor
  · rintro ⟨⟨long, same⟩, short⟩
    rwa [List.take_of_length_le (by omega)] at same
  · intro same
    have lengths : word.length = keyword.length := by
      simpa using congrArg List.length same
    refine ⟨⟨by omega, ?_⟩, by omega⟩
    rwa [List.take_of_length_le (by omega)]

private theorem keywords_nulFree : ∀ entry ∈ keywords, (0 : UInt8) ∉ entry.1 := by decide

private theorem keywords_distinct : ∀ first ∈ keywords, ∀ second ∈ keywords,
    first.1.map toLower = second.1.map toLower → first = second := by decide

/-- `keyword_lookup` finds the keyword a word equals ignoring case, if there is one. -/
theorem keywordLookup_iff (nulFree : 0 ∉ word) :
    keywordLookup word = type ↔ WordType word type := by
  have tested : ∀ entry ∈ keywords,
      (isKeyword word entry.1 = true ↔ SameIgnoringCase word entry.1) :=
    fun entry member => isKeyword_iff nulFree (keywords_nulFree entry member)
  unfold keywordLookup
  cases found : keywords.find? fun entry => isKeyword word entry.1 with
  | none =>
    have absent : ∀ entry ∈ keywords, ¬ SameIgnoringCase word entry.1 := by
      intro entry member same
      have rejected := List.find?_eq_none.mp found entry member
      exact rejected ((tested entry member).mpr same)
    constructor
    · rintro rfl
      exact Or.inr ⟨rfl, absent⟩
    · rintro (⟨keyword, member, same⟩ | ⟨rfl, _⟩)
      · exact absurd same (absent _ member)
      · rfl
  | some entry =>
    have member := List.mem_of_find?_eq_some found
    have matched : isKeyword word entry.1 = true := by simpa using List.find?_some found
    have same := (tested entry member).mp matched
    constructor
    · rintro rfl
      exact Or.inl ⟨entry.1, member, same⟩
    · rintro (⟨keyword, other, otherSame⟩ | ⟨_, absent⟩)
      · have equal :=
          keywords_distinct entry member (keyword, type) other (same.symm.trans otherSame)
        simp [equal]
      · exact absurd same (absent entry member)

/-! ## One token -/

private theorem takeWhile_nulFree (accept : UInt8 → Bool) (nulFree : (0 : UInt8) ∉ p) :
    0 ∉ p.takeWhile accept :=
  fun member => nulFree ((List.takeWhile_prefix accept).subset member)

theorem takeWhile_of_stop (rest : Bytes) (accepted : ∀ c ∈ text, accept c = true)
    (stops : accept (rest.headD 0) = false) :
    (text ++ rest).takeWhile accept = text ∧ (text ++ rest).dropWhile accept = rest := by
  cases rest with
  | nil => simpa using accepted
  | cons c rest =>
    have stop : accept c = false := stops
    rw [List.takeWhile_append_of_pos accepted, List.dropWhile_append_of_pos accepted]
    simp [stop]

private theorem dropWhile_stops (closed : accept 0 = false) :
    accept ((p.dropWhile accept).headD 0) = false := by
  induction p with
  | nil => simpa using closed
  | cons c p ih =>
    by_cases accepted : accept c = true
    · simpa [List.dropWhile_cons, accepted] using ih
    · simp [accepted]

private theorem punctuation_eq (nonzero : c ≠ 0) :
    punctuation type c p = .done ({ type, value := [c] }, p) := by
  have first : writeChar emptyValue 0 c = .done (filled [c]) :=
    writeChar_filled [] _ (by simp)
  have second : writeChar (filled [c]) 1 0 = .done (filled ([c] ++ [0])) :=
    writeChar_filled [c] 0 (by simp)
  simp only [punctuation, first, second, Scan.done_bind, Scan.pure_eq,
    cstr_filled [c] (by simpa using nonzero.symm)]

/-- A string literal ends at its closing quote, within 63 characters. -/
theorem scanString_eq (nulFree : (0 : UInt8) ∉ p) :
    scanString p =
      if (p.takeWhile (· != 34)).length ≤ 63 then
        if (p.dropWhile (· != 34)).headD 0 = 34 then
          .done ({ type := .string, value := p.takeWhile (· != 34) }, (p.dropWhile (· != 34)).tail)
        else .fail .unterminatedString
      else .fail .tokenTooLong := by
  have same : ∀ q : Bytes, (0 : UInt8) ∉ q →
      q.takeWhile (fun c => c != 34 && c != 0) = q.takeWhile (· != 34) ∧
        q.dropWhile (fun c => c != 34 && c != 0) = q.dropWhile (· != 34) := by
    intro q free
    induction q with
    | nil => exact ⟨rfl, rfl⟩
    | cons c q ih =>
      have nonzero : c ≠ 0 := fun eq => free (by simp [eq])
      have rest := ih (fun member => free (List.mem_cons_of_mem _ member))
      by_cases quote : c = 34 <;> simp [quote, nonzero, rest]
  simp only [scanString, copyWhile_empty, (same p nulFree).1, (same p nulFree).2]
  split
  · rename_i fits
    simp only [Scan.done_bind, writeChar_filled _ _ fits,
      cstr_filled _ (takeWhile_nulFree _ nulFree)]
    by_cases quoted : (p.dropWhile (· != 34)).headD 0 = 34 <;>
      simp only [quoted, bne_self_eq_false, bne_iff_ne, ne_eq, not_false_eq_true,
        Bool.false_eq_true,
        ↓reduceIte, Scan.pure_eq]
  · rfl

/-- A number takes its sign and every digit that follows. -/
theorem scanNumber_eq (sign : Bytes) (signed : sign = [] ∨ sign = [45])
    (unsigned : p.headD 0 ≠ 45) (nulFree : (0 : UInt8) ∉ p) :
    scanNumber (sign ++ p) =
      if (sign ++ p.takeWhile isDigit).length ≤ 63 then
        .done ({ type := .number, value := sign ++ p.takeWhile isDigit }, p.dropWhile isDigit)
      else .fail .tokenTooLong := by
  have digitsFree := takeWhile_nulFree isDigit nulFree
  rcases signed with rfl | rfl
  · simp only [scanNumber, List.nil_append, beq_iff_eq, unsigned, ↓reduceIte, Scan.pure_eq,
      Scan.done_bind, copyWhile_empty]
    split
    · rename_i fits
      simp only [Scan.done_bind, writeChar_filled _ _ fits, cstr_filled _ digitsFree]
    · rfl
  · have first : writeChar emptyValue 0 45 = .done (filled [45]) :=
      writeChar_filled [] _ (by simp)
    have copied := copyWhile_filled isDigit [45] p (by simp)
    simp only [List.length_cons, List.length_nil, Nat.zero_add] at copied
    simp only [scanNumber, List.cons_append, List.nil_append, List.headD_cons, beq_self_eq_true,
      ↓reduceIte, first, Scan.done_bind, Scan.pure_eq, List.tail_cons, copied, List.length_cons,
      Nat.add_comm 1]
    split
    · rename_i fits
      have written := writeChar_filled (45 :: p.takeWhile isDigit) 0 fits
      have free : (0 : UInt8) ∉ 45 :: p.takeWhile isDigit := by simpa using digitsFree
      simp only [List.length_cons] at written
      simp only [Scan.done_bind, written, cstr_filled _ free]
    · rfl

/-- A word takes every letter, digit and underscore that follows. -/
theorem scanWord_eq (nulFree : (0 : UInt8) ∉ p) :
    scanWord p =
      if (p.takeWhile isWordChar).length ≤ 63 then
        .done ({ type := keywordLookup (p.takeWhile isWordChar), value := p.takeWhile isWordChar },
          p.dropWhile isWordChar)
      else .fail .tokenTooLong := by
  have copied := copyWhile_empty isWordChar p
  simp only [scanWord, show (fun c => isAlnum c || c == 95) = isWordChar from rfl, copied]
  split
  · rename_i fits
    simp only [Scan.done_bind, writeChar_filled _ _ fits,
      cstr_filled _ (takeWhile_nulFree _ nulFree)]
    rfl
  · rfl

theorem scanToken_punctuation (member : (c, type) ∈ punctuationTable) :
    scanToken (c :: p) = .done ({ type, value := [c] }, p) := by
  simp only [punctuationTable, List.mem_cons, Prod.mk.injEq, List.not_mem_nil, or_false] at member
  rcases member with ⟨rfl, rfl⟩ | ⟨rfl, rfl⟩ | ⟨rfl, rfl⟩ | ⟨rfl, rfl⟩ | ⟨rfl, rfl⟩ | ⟨rfl, rfl⟩ <;>
    simp [scanToken, punctuation_eq]

/-- A digit, or a minus in front of one, starts a number. -/
theorem scanToken_number (signed : isDigit c = true ∨ (c = 45 ∧ isDigit (p.headD 0) = true)) :
    scanToken (c :: p) = scanNumber (c :: p) := by
  have member : c ∉ punctuationTable.map Prod.fst ∧ c ≠ 34 := by
    rcases signed with digit | ⟨rfl, _⟩
    · constructor
      · intro member
        simp only [punctuationTable, List.map_cons, List.map_nil, List.mem_cons, List.not_mem_nil,
          or_false] at member
        rcases member with rfl | rfl | rfl | rfl | rfl | rfl <;> exact absurd digit (by decide)
      · rintro rfl
        exact absurd digit (by decide)
    · decide
  have test : (isDigit c || (c == 45 && isDigit ((c :: p).getD 1 0))) = true := by
    rcases signed with digit | ⟨rfl, digit⟩
    · simp [digit]
    · cases p with
      | nil => exact absurd digit (by decide)
      | cons d p => simpa using Or.inr digit
  simp only [punctuationTable, List.map_cons, List.map_nil, List.mem_cons, List.not_mem_nil,
    or_false, not_or] at member
  obtain ⟨⟨h44, h42, h61, h40, h41, h59⟩, h34⟩ := member
  simp only [scanToken, List.headD_cons, beq_iff_eq, h44, h42, h61, h40, h41, h59, h34,
    ↓reduceIte, test]

/-- A letter or an underscore starts a word. -/
theorem scanToken_word (initial : (isAlpha c || c == 95) = true) :
    scanToken (c :: p) = scanWord (c :: p) := by
  have skipped : ∀ d ∈ punctuationTable.map Prod.fst ++ [34, 45], c ≠ d := by
    intro d member
    simp only [punctuationTable, List.map_cons, List.map_nil, List.cons_append, List.nil_append,
      List.mem_cons, List.not_mem_nil, or_false] at member
    rintro rfl
    rcases member with rfl | rfl | rfl | rfl | rfl | rfl | rfl | rfl <;>
      exact absurd initial (by decide)
  have notDigit : isDigit c = false := by
    exact forall_byte (P := fun d => (isAlpha d || d == 95) = true → isDigit d = false)
      (by decide +kernel) c initial
  simp only [punctuationTable, List.map_cons, List.map_nil, List.cons_append, List.nil_append,
    List.mem_cons, List.not_mem_nil, or_false, forall_eq_or_imp, forall_eq] at skipped
  obtain ⟨h44, h42, h61, h40, h41, h59, h34, h45⟩ := skipped
  simp only [scanToken, List.headD_cons, beq_iff_eq, h44, h42, h61, h40, h41, h59, h34,
    ↓reduceIte, notDigit, Bool.false_or, beq_eq_false_iff_ne.mpr h45, Bool.false_and,
    Bool.false_eq_true, initial]

/-- The text of a token starts with a character that is no white space. -/
theorem lexeme_head (lexeme : Lexeme text token) :
    ∃ c tail, text = c :: tail ∧ isSpace c = false ∧ c ≠ 0 := by
  cases lexeme with
  | @punctuation c type member =>
    simp only [punctuationTable, List.mem_cons, Prod.mk.injEq, List.not_mem_nil, or_false] at member
    refine ⟨c, [], rfl, ?_⟩
    rcases member with ⟨rfl, _⟩ | ⟨rfl, _⟩ | ⟨rfl, _⟩ | ⟨rfl, _⟩ | ⟨rfl, _⟩ | ⟨rfl, _⟩ <;> decide
  | string content unquoted fits => exact ⟨34, content ++ [34], rfl, by decide, by decide⟩
  | number sign digits signed nonempty decimal fits =>
    rcases signed with rfl | rfl
    · cases digits with
      | nil => exact absurd rfl nonempty
      | cons d digits =>
        refine ⟨d, digits, rfl, ?_⟩
        exact forall_byte (P := fun d => isDigit d = true → isSpace d = false ∧ d ≠ 0)
          (by decide +kernel) d (decimal d (by simp))
    · exact ⟨45, digits, rfl, by decide, by decide⟩
  | word first rest initial following fits classified =>
    refine ⟨first, rest, rfl, ?_⟩
    exact forall_byte (P := fun d => (isAlpha d || d == 95) = true → isSpace d = false ∧ d ≠ 0)
      (by decide +kernel) first initial

/-- The scanner reads a text of the grammar that nothing behind it continues. -/
theorem scanToken_complete (lexeme : Lexeme text token) (maximal : Maximal token.type rest)
    (nulFree : 0 ∉ text ++ rest) : scanToken (text ++ rest) = .done (token, rest) := by
  cases lexeme with
  | punctuation member => exact scanToken_punctuation member
  | string content unquoted fits =>
    have inside : ∀ c ∈ content, (c != 34) = true := by
      intro c member
      simp only [bne_iff_ne, ne_eq]
      rintro rfl
      exact unquoted member
    have free : (0 : UInt8) ∉ content ++ 34 :: rest := by simpa using nulFree
    have parts := takeWhile_of_stop (34 :: rest) inside (by simp)
    have text : (34 :: content ++ [34]) ++ rest = 34 :: (content ++ 34 :: rest) := by simp
    rw [text, show scanToken (34 :: (content ++ 34 :: rest)) =
      scanString (content ++ 34 :: rest) from rfl,
      scanString_eq free, parts.1, parts.2]
    simp [fits]
  | number sign digits signed nonempty decimal fits =>
    have parts := takeWhile_of_stop _ decimal maximal
    cases digits with
    | nil => exact absurd rfl nonempty
    | cons d digits =>
      have digit : isDigit d = true := decimal d (by simp)
      have unsigned : ((d :: digits) ++ rest).headD 0 ≠ 45 := by
        rintro eq
        rw [List.cons_append, List.headD_cons] at eq
        subst eq
        exact absurd digit (by decide)
      have free : (0 : UInt8) ∉ (d :: digits) ++ rest := by
        intro member
        exact nulFree (by rw [List.append_assoc]; exact List.mem_append_right _ member)
      have scanned := scanNumber_eq sign signed unsigned free
      rw [parts.1, parts.2, if_pos fits] at scanned
      rw [List.append_assoc, ← scanned]
      rcases signed with rfl | rfl
      · exact scanToken_number (.inl digit)
      · exact scanToken_number (.inr ⟨rfl, by simpa using digit⟩)
  | @word type first tail initial following fits classified =>
    have inside : ∀ c ∈ first :: tail, isWordChar c = true := by
      intro c member
      rcases List.mem_cons.mp member with rfl | member
      · exact forall_byte (P := fun d => (isAlpha d || d == 95) = true → isWordChar d = true)
          (by decide +kernel) c initial
      · exact following c member
    have stops : isWordChar (rest.headD 0) = false := by
      rcases classified with ⟨keyword, member, _⟩ | ⟨rfl, _⟩
      · simp only [keywords, List.mem_cons, Prod.mk.injEq, List.not_mem_nil, or_false] at member
        rcases member with ⟨_, rfl⟩ | ⟨_, rfl⟩ | ⟨_, rfl⟩ | ⟨_, rfl⟩ | ⟨_, rfl⟩ |
            ⟨_, rfl⟩ <;> exact maximal
      · exact maximal
    have parts := takeWhile_of_stop _ inside stops
    have wordFree : (0 : UInt8) ∉ first :: tail :=
      fun member => nulFree (List.mem_append_left _ member)
    rw [List.cons_append, scanToken_word initial, ← List.cons_append, scanWord_eq nulFree, parts.1,
      parts.2, if_pos fits, (keywordLookup_iff wordFree).mpr classified]

private theorem scanString_sound (nulFree : 0 ∉ p) (scanned : scanString p = .done (token, rest)) :
    ∃ content, p = content ++ 34 :: rest ∧ 34 ∉ content ∧ content.length ≤ 63 ∧
      token = { type := .string, value := content } := by
  rw [scanString_eq nulFree] at scanned
  split at scanned
  · rename_i fits
    split at scanned
    · rename_i quoted
      simp only [Scan.done.injEq, Prod.mk.injEq] at scanned
      obtain ⟨rfl, rfl⟩ := scanned
      refine ⟨p.takeWhile (· != 34), ?_, ?_, fits, rfl⟩
      · have behind : p.dropWhile (· != 34) = 34 :: (p.dropWhile (· != 34)).tail := by
          cases held : p.dropWhile (· != 34) with
          | nil => simp [held] at quoted
          | cons c q =>
            rw [held] at quoted
            simpa using quoted
        rw [← behind, List.takeWhile_append_dropWhile]
      · intro member
        have accepted := List.mem_takeWhile_imp member
        simp at accepted
    · cases scanned
  · cases scanned

private theorem scanNumber_sound (sign : Bytes) (signed : sign = [] ∨ sign = [45])
    (digit : isDigit (p.headD 0) = true) (nulFree : 0 ∉ p)
    (scanned : scanNumber (sign ++ p) = .done (token, rest)) :
    ∃ text, sign ++ p = text ++ rest ∧ Lexeme text token ∧ Maximal token.type rest := by
  have unsigned : p.headD 0 ≠ 45 := by
    intro eq
    rw [eq] at digit
    exact absurd digit (by decide)
  rw [scanNumber_eq sign signed unsigned nulFree] at scanned
  split at scanned
  · rename_i fits
    simp only [Scan.done.injEq, Prod.mk.injEq] at scanned
    obtain ⟨rfl, rfl⟩ := scanned
    refine ⟨sign ++ p.takeWhile isDigit, ?_, ?_, dropWhile_stops rfl⟩
    · rw [List.append_assoc, List.takeWhile_append_dropWhile]
    · refine .number sign _ signed ?_ (fun c member => List.mem_takeWhile_imp member) fits
      cases p with
      | nil => exact absurd digit (by decide)
      | cons c p => simp [show isDigit c = true from digit]
  · cases scanned

private theorem wordType_maximal (classified : WordType word type)
    (stops : isWordChar (rest.headD 0) = false) : Maximal type rest := by
  rcases classified with ⟨keyword, member, _⟩ | ⟨rfl, _⟩
  · simp only [keywords, List.mem_cons, Prod.mk.injEq, List.not_mem_nil, or_false] at member
    rcases member with ⟨_, rfl⟩ | ⟨_, rfl⟩ | ⟨_, rfl⟩ | ⟨_, rfl⟩ | ⟨_, rfl⟩ |
        ⟨_, rfl⟩ <;> exact stops
  · exact stops

private theorem scanWord_sound (initial : (isAlpha c || c == 95) = true) (nulFree : 0 ∉ c :: p)
    (scanned : scanWord (c :: p) = .done (token, rest)) :
    ∃ text, c :: p = text ++ rest ∧ Lexeme text token ∧ Maximal token.type rest := by
  have accepted : isWordChar c = true :=
    forall_byte (P := fun d => (isAlpha d || d == 95) = true → isWordChar d = true)
      (by decide +kernel) c initial
  rw [scanWord_eq nulFree] at scanned
  split at scanned
  · rename_i fits
    simp only [Scan.done.injEq, Prod.mk.injEq] at scanned
    obtain ⟨rfl, rfl⟩ := scanned
    have classified := (keywordLookup_iff (takeWhile_nulFree isWordChar nulFree)).mp rfl
    refine ⟨_, (List.takeWhile_append_dropWhile (p := isWordChar)).symm, ?_,
      wordType_maximal classified (dropWhile_stops rfl)⟩
    rw [List.takeWhile_cons_of_pos accepted] at fits classified ⊢
    exact .word c _ initial (fun d member => List.mem_takeWhile_imp member) fits classified
  · cases scanned

/-- The five ways of the scanner: a punctuation character, a string, a number with
or without its sign, a word, or a character that starts no token. -/
theorem scanToken_cases (c : UInt8) (p : Bytes) :
    (∃ type, (c, type) ∈ punctuationTable ∧
      scanToken (c :: p) = .done ({ type, value := [c] }, p)) ∨
    (c = 34 ∧ scanToken (c :: p) = scanString p) ∨
    (∃ sign q, c :: p = sign ++ q ∧ (sign = [] ∨ sign = [45]) ∧ isDigit (q.headD 0) = true ∧
      scanToken (c :: p) = scanNumber (sign ++ q)) ∨
    ((isAlpha c || c == 95) = true ∧ scanToken (c :: p) = scanWord (c :: p)) ∨
    scanToken (c :: p) = .fail .invalidCharacter := by
  by_cases punctuated : c ∈ punctuationTable.map Prod.fst
  · obtain ⟨⟨d, type⟩, member, rfl⟩ := List.mem_map.mp punctuated
    exact .inl ⟨type, member, scanToken_punctuation member⟩
  · by_cases quote : c = 34
    · exact .inr (.inl ⟨quote, by subst quote; rfl⟩)
    · by_cases digit : isDigit c = true
      · exact .inr (.inr (.inl ⟨[], c :: p, rfl, .inl rfl, digit, scanToken_number (.inl digit)⟩))
      · by_cases minus : c = 45 ∧ isDigit (p.headD 0) = true
        · obtain ⟨rfl, following⟩ := minus
          exact .inr (.inr (.inl ⟨[45], p, rfl, .inr rfl, following,
            scanToken_number (.inr ⟨rfl, following⟩)⟩))
        · by_cases initial : (isAlpha c || c == 95) = true
          · exact .inr (.inr (.inr (.inl ⟨initial, scanToken_word initial⟩)))
          · have next : (c :: p).getD 1 0 = p.headD 0 := by cases p <;> rfl
            have number : (isDigit c || (c == 45 && isDigit ((c :: p).getD 1 0))) = false := by
              rw [next]
              simpa [digit] using minus
            simp only [punctuationTable, List.map_cons, List.map_nil, List.mem_cons,
              List.not_mem_nil, or_false, not_or] at punctuated
            obtain ⟨h44, h42, h61, h40, h41, h59⟩ := punctuated
            refine .inr (.inr (.inr (.inr ?_)))
            simp only [scanToken, List.headD_cons, beq_iff_eq, h44, h42, h61, h40, h41, h59, quote,
              number, initial, Bool.false_eq_true, ↓reduceIte]

/-- What the scanner reads is a text of the grammar, taken as far as possible. -/
theorem scanToken_sound (nulFree : 0 ∉ p) (scanned : scanToken p = .done (token, rest)) :
    ∃ text, p = text ++ rest ∧ Lexeme text token ∧ Maximal token.type rest := by
  cases p with
  | nil => cases scanned
  | cons c p =>
    have tailFree : 0 ∉ p := fun member => nulFree (List.mem_cons_of_mem _ member)
    rcases scanToken_cases c p with ⟨type, member, read⟩ | ⟨rfl, read⟩ |
      ⟨sign, q, split, signed, digit, read⟩ | ⟨initial, read⟩ | read <;> rw [read] at scanned
    · simp only [Scan.done.injEq, Prod.mk.injEq] at scanned
      obtain ⟨rfl, rfl⟩ := scanned
      refine ⟨[c], rfl, .punctuation member, ?_⟩
      simp only [punctuationTable, List.mem_cons, Prod.mk.injEq, List.not_mem_nil,
        or_false] at member
      rcases member with ⟨_, rfl⟩ | ⟨_, rfl⟩ | ⟨_, rfl⟩ | ⟨_, rfl⟩ | ⟨_, rfl⟩ | ⟨_, rfl⟩ <;> trivial
    · obtain ⟨content, rfl, unquoted, fits, rfl⟩ := scanString_sound tailFree scanned
      exact ⟨34 :: content ++ [34], by simp, .string content unquoted fits, trivial⟩
    · rw [split] at nulFree ⊢
      exact scanNumber_sound sign signed digit
        (fun member => nulFree (List.mem_append_right _ member)) scanned
    · exact scanWord_sound initial nulFree scanned
    · cases scanned

/-- A scan that stays inside its arrays, and fails only with a failure status. -/
def Scan.Proper : Scan α → Prop
  | .done _ => True
  | .fail status => status ≠ .ok
  | .overrun => False

private theorem scanToken_proper (nulFree : 0 ∉ p) : (scanToken p).Proper := by
  -- No token is written past the end of its value array.
  cases p with
  | nil => exact TokenizeStatus.noConfusion
  | cons c p =>
    rcases scanToken_cases c p with ⟨type, member, read⟩ | ⟨rfl, read⟩ |
      ⟨sign, q, text, signed, digit, read⟩ | ⟨initial, read⟩ | read <;> rw [read]
    · trivial
    · rw [scanString_eq (fun member => nulFree (List.mem_cons_of_mem _ member))]
      split
      · split <;> simp [Scan.Proper]
      · simp [Scan.Proper]
    · have unsigned : q.headD 0 ≠ 45 := by
        intro eq
        rw [eq] at digit
        exact absurd digit (by decide)
      rw [scanNumber_eq sign signed unsigned
        (fun member => nulFree (text ▸ List.mem_append_right _ member))]
      split <;> simp [Scan.Proper]
    · rw [scanWord_eq nulFree]
      split <;> simp [Scan.Proper]
    · simp [Scan.Proper]

/-! ## The whole text -/

private theorem lexes_blank (blank : ∀ c ∈ p, isSpace c = true) (lexes : Lexes p tokens) :
    tokens = [] := by
  cases lexes with
  | done _ => rfl
  | token _ lexeme maximal following =>
    obtain ⟨c, tail, rfl, solid, _⟩ := lexeme_head lexeme
    have space := blank c (by simp)
    rw [solid] at space
    cases space

private theorem maximal_append (maximal : Maximal type p) (ended : p = [] → Maximal type rest) :
    Maximal type (p ++ rest) := by
  cases p with
  | nil => exact ended rfl
  | cons c p => cases type <;> exact maximal

/-- Two texts are split one after the other, when the second does not continue the last
token of the first. -/
theorem Lexes.append (front : Lexes p left) (behind : Lexes rest right)
    (stops : ∀ token ∈ left.getLast?, Maximal token.type rest) :
    Lexes (p ++ rest) (left ++ right) := by
  induction front with
  | @done gap blank =>
    cases behind with
    | done spaces => exact .done fun c member =>
      (List.mem_append.mp member).elim (blank c) (spaces c)
    | token spaces lexeme maximal following =>
      rw [← List.append_assoc]
      exact .token (fun c member =>
        (List.mem_append.mp member).elim (blank c) (spaces c)) lexeme maximal following
  | @token gap text token middle tokens blank lexeme maximal following ih =>
    rw [List.append_assoc, List.append_assoc]
    refine .token blank lexeme (maximal_append maximal fun ended => ?_) (ih fun found last => ?_)
    · obtain rfl := lexes_blank (p := middle) (by simp [ended]) following
      exact stops token (by simp)
    · refine stops found ?_
      cases tokens with
      | nil => cases last
      | cons next tokens => exact last

/-- The white space in front of a token is skipped in one run. -/
theorem lexeme_after_gap (rest : Bytes) (blank : ∀ c ∈ gap, isSpace c = true)
    (lexeme : Lexeme text token) :
    (gap ++ (text ++ rest)).dropWhile isSpace = text ++ rest := by
  obtain ⟨c, tail, rfl, solid, _⟩ := lexeme_head lexeme
  rw [List.dropWhile_append_of_pos blank]
  simp [solid]

/-- Past its white space a text has no token exactly when it is at its end. -/
theorem lexes_of_dropped (lexes : Lexes (p.dropWhile isSpace) tokens) : Lexes p tokens := by
  have blank : ∀ c ∈ p.takeWhile isSpace, isSpace c = true :=
    fun c member => List.mem_takeWhile_imp member
  have parts := List.takeWhile_append_dropWhile (p := isSpace) (l := p)
  generalize p.dropWhile isSpace = q at lexes parts
  cases lexes with
  | @done gap spaces =>
    rw [← parts]
    exact .done fun c member => (List.mem_append.mp member).elim (blank c) (spaces c)
  | @token gap text token rest tokens spaces lexeme maximal following =>
    rw [← parts, ← List.append_assoc]
    exact .token (fun c member => (List.mem_append.mp member).elim (blank c) (spaces c))
      lexeme maximal following

theorem dropSpaces_behind (nulFree : 0 ∉ p) :
    (p.dropWhile isSpace).length ≤ p.length ∧ 0 ∉ p.dropWhile isSpace :=
  ⟨(List.dropWhile_suffix isSpace).length_le,
    fun member => nulFree ((List.dropWhile_suffix isSpace).subset member)⟩

/-- One pass of the loop: the end of the text, a text whose tokens do not fit, or
one token more. -/
theorem tokenizeLoop_step (nulFree : 0 ∉ p) :
    tokenizeLoop (room + 1) (fuel + 1) p storage =
      if p.dropWhile isSpace = [] then .done storage
      else if storage.length ≥ room then .fail .tooManyTokens
      else scanToken (p.dropWhile isSpace) >>= fun read =>
        tokenizeLoop (room + 1) fuel read.2 (storage ++ [read.1]) := by
  have ends : ∀ q : Bytes, 0 ∉ q → (q.headD 0 = 0 ↔ q = []) := by
    intro q free
    cases q with
    | nil => simp
    | cons c q =>
      have nonzero : c ≠ 0 := fun eq => free (by simp [eq])
      simpa using nonzero
  have droppedFree := (dropSpaces_behind nulFree).2
  by_cases empty : p = []
  · subst empty
    simp [tokenizeLoop]
  · have started : ¬ p.headD 0 = 0 := fun zero => empty ((ends p nulFree).mp zero)
    simp only [tokenizeLoop, beq_iff_eq, started, ↓reduceIte, ends _ droppedFree,
      Nat.add_sub_cancel]
    split
    · rfl
    · split
      · rfl
      · rename_i notFull
        simp only [show storage.length < room + 1 by omega, ↓reduceIte]

/-- Each token takes at least one character. -/
theorem scanToken_shorter (nulFree : 0 ∉ p) (scanned : scanToken p = .done (token, rest)) :
    rest.length < p.length ∧ 0 ∉ rest := by
  obtain ⟨text, rfl, lexeme, _⟩ := scanToken_sound nulFree scanned
  obtain ⟨c, tail, rfl, _⟩ := lexeme_head lexeme
  refine ⟨?_, fun member => nulFree (List.mem_append_right _ member)⟩
  rw [List.length_append, List.length_cons]
  omega

/-- The loop adds exactly the tokens of the greedy split, when they all leave room
for the final token. -/
theorem tokenizeLoop_iff (room fuel : Nat) (storage result : List Token)
    (enough : p.length < fuel) (nulFree : 0 ∉ p)
    (within : storage.length ≤ room) :
    tokenizeLoop (room + 1) fuel p storage = .done result ↔
      ∃ tokens, result = storage ++ tokens ∧ Lexes p tokens ∧ result.length ≤ room := by
  induction fuel generalizing p storage with
  | zero => omega
  | succ fuel ih =>
    obtain ⟨shorter, droppedFree⟩ := dropSpaces_behind nulFree
    rw [tokenizeLoop_step nulFree]
    split
    · rename_i ended
      have blank : ∀ c ∈ p, isSpace c = true := List.dropWhile_eq_nil_iff.mp ended
      constructor
      · rintro ⟨rfl⟩
        exact ⟨[], by simp, .done blank, within⟩
      · rintro ⟨tokens, rfl, lexes, _⟩
        rw [lexes_blank blank lexes, List.append_nil]
    · rename_i more
      split
      · rename_i full
        constructor
        · intro failed
          cases failed
        · rintro ⟨tokens, rfl, lexes, fits⟩
          cases lexes with
          | done blank => exact absurd (List.dropWhile_eq_nil_iff.mpr blank) more
          | token _ _ _ _ =>
            simp only [List.length_append, List.length_cons] at fits
            omega
      · rename_i notFull
        constructor
        · intro looped
          cases scanned : scanToken (p.dropWhile isSpace) with
          | fail status => simp [scanned] at looped
          | overrun => simp [scanned] at looped
          | done read =>
            obtain ⟨token, rest⟩ := read
            obtain ⟨less, restFree⟩ := scanToken_shorter droppedFree scanned
            simp only [scanned, Scan.done_bind] at looped
            obtain ⟨tokens, rfl, lexes, fits⟩ :=
              (ih _ (by omega) restFree (by simp; omega)).mp looped
            obtain ⟨text, split, lexeme, maximal⟩ := scanToken_sound droppedFree scanned
            refine ⟨token :: tokens, by simp, lexes_of_dropped ?_, fits⟩
            rw [split]
            exact .here lexeme maximal lexes
        · rintro ⟨tokens, rfl, lexes, fits⟩
          cases lexes with
          | done blank => exact absurd (List.dropWhile_eq_nil_iff.mpr blank) more
          | @token gap text token rest tokens blank lexeme maximal following =>
            have gapless := lexeme_after_gap rest blank lexeme
            rw [gapless] at droppedFree shorter ⊢
            have scanned := scanToken_complete lexeme maximal droppedFree
            obtain ⟨less, restFree⟩ := scanToken_shorter droppedFree scanned
            simp only [scanned, Scan.done_bind]
            exact (ih _ (by omega) restFree (by simp; omega)).mpr
              ⟨tokens, by simp, following, fits⟩

private theorem tokenizeLoop_proper (room fuel : Nat) (storage : List Token)
    (enough : p.length < fuel) (nulFree : 0 ∉ p) :
    (tokenizeLoop (room + 1) fuel p storage).Proper := by
  induction fuel generalizing p storage with
  | zero => omega
  | succ fuel ih =>
    obtain ⟨shorter, droppedFree⟩ := dropSpaces_behind nulFree
    rw [tokenizeLoop_step nulFree]
    split
    · trivial
    · split
      · simp [Scan.Proper]
      · have proper := scanToken_proper droppedFree
        cases scanned : scanToken (p.dropWhile isSpace) with
        | fail status => rwa [scanned] at proper
        | overrun => rwa [scanned] at proper
        | done read =>
          obtain ⟨less, restFree⟩ := scanToken_shorter droppedFree scanned
          exact ih _ (by omega) restFree

private theorem tokenizeInto_proper (input : CString) (room : Nat) :
    (tokenizeInto input.bytes (room + 1)).Proper := by
  have loop := tokenizeLoop_proper room (input.bytes.length + 1) []
    (Nat.lt_succ_self _) input.nulFree
  simp only [tokenizeInto, show ¬ room + 1 < 1 by omega, ↓reduceIte]
  cases looped : tokenizeLoop (room + 1) (input.bytes.length + 1) input.bytes [] with
  | done storage =>
    simp only [Scan.done_bind]
    split <;> simp [Scan.Proper]
  | fail status => rwa [looped] at loop
  | overrun => rwa [looped] at loop

private theorem tokenizeInto_iff (input : CString) (room : Nat) (result : List Token) :
    tokenizeInto input.bytes (room + 1) = .done result ↔
      ∃ tokens, result = tokens ++ [eofToken] ∧ Lexes input.bytes tokens ∧
        tokens.length ≤ room := by
  have loop := fun found => tokenizeLoop_iff room (input.bytes.length + 1) [] found
    (Nat.lt_succ_self _) input.nulFree (Nat.zero_le _)
  simp only [tokenizeInto, show ¬ room + 1 < 1 by omega, ↓reduceIte]
  cases looped : tokenizeLoop (room + 1) (input.bytes.length + 1) input.bytes [] with
  | done storage =>
    obtain ⟨tokens, same, lexes, fits⟩ := (loop storage).mp looped
    simp only [List.nil_append] at same
    subst same
    simp only [Scan.done_bind, ge_iff_le, show ¬ room + 1 ≤ storage.length by omega, ↓reduceIte,
      Scan.pure_eq, Scan.done.injEq]
    constructor
    · rintro rfl
      exact ⟨storage, rfl, lexes, fits⟩
    · rintro ⟨others, rfl, otherLexes, otherFits⟩
      have again := (loop others).mpr ⟨others, rfl, otherLexes, otherFits⟩
      rw [looped] at again
      cases again
      rfl
  | fail status =>
    simp only [Scan.fail_bind, reduceCtorEq, false_iff]
    rintro ⟨tokens, _, lexes, fits⟩
    have again := (loop tokens).mpr ⟨tokens, rfl, lexes, fits⟩
    rw [looped] at again
    cases again
  | overrun =>
    have proper := tokenizeLoop_proper room (input.bytes.length + 1) []
      (Nat.lt_succ_self _) input.nulFree
    rw [looped] at proper
    exact proper.elim

/-- The greedy split of a text is unique. -/
theorem lexes_unique (nulFree : 0 ∉ p) (first : Lexes p left) (second : Lexes p right) :
    left = right := by
  have run := fun tokens lexes => (tokenizeLoop_iff (max left.length right.length)
    (p.length + 1) [] tokens (Nat.lt_succ_self _) nulFree
    (Nat.zero_le _)).mpr lexes
  have leftRun := run left ⟨left, rfl, first, le_max_left _ _⟩
  have rightRun := run right ⟨right, rfl, second, le_max_right _ _⟩
  rw [leftRun] at rightRun
  cases rightRun
  rfl

/-- The tokenizer succeeds with exactly the tokens of the greedy split and the final one. -/
theorem tokenize_ok_iff (input : CString) (room : Nat) (buffer : TokenBuffer) :
    tokenize input (room + 1) = some (.ok, buffer) ↔
      ∃ tokens, Lexes input.bytes tokens ∧ tokens.length ≤ room ∧
        buffer = { data := some (tokens ++ [eofToken]), count := tokens.length + 1 } := by
  have found := tokenizeInto_iff input room
  have proper := tokenizeInto_proper input room
  unfold tokenize
  cases ran : tokenizeInto input.bytes (room + 1) with
  | done result =>
    obtain ⟨tokens, rfl, lexes, fits⟩ := (found result).mp ran
    constructor
    · rintro ⟨⟩
      exact ⟨tokens, lexes, fits, by simp⟩
    · rintro ⟨others, otherLexes, _, rfl⟩
      rw [lexes_unique input.nulFree otherLexes lexes]
      simp
  | fail status =>
    rw [ran] at proper
    constructor
    · rintro ⟨⟩
      exact absurd rfl proper
    · rintro ⟨tokens, lexes, fits, _⟩
      have accepted := (found _).mpr ⟨tokens, rfl, lexes, fits⟩
      rw [ran] at accepted
      cases accepted
  | overrun =>
    rw [ran] at proper
    exact proper.elim

/-- The tokenizer always ends without a write outside its arrays, and a failure
leaves the empty buffer. -/
theorem tokenize_ends (input : CString) (room : Nat) :
    ∃ status result, tokenize input (room + 1) = some (status, result) ∧
      (status ≠ .ok → result = .null) := by
  have proper := tokenizeInto_proper input room
  unfold tokenize
  cases ran : tokenizeInto input.bytes (room + 1) with
  | done result => exact ⟨.ok, _, rfl, fun different => absurd rfl different⟩
  | fail status => exact ⟨status, .null, rfl, fun _ => rfl⟩
  | overrun =>
    rw [ran] at proper
    exact proper.elim

/-- The tokenizer succeeds exactly on the texts of the lexical grammar whose tokens
leave room for the final one, and then returns those tokens. Otherwise its result is
the empty buffer. It never stores outside the token array or a value array. -/
theorem tokenize_maximal_munch (input : CString) (room : Nat) :
    ∃ status result, tokenize input (room + 1) = some (status, result) ∧
      (status = .ok ↔ ∃ tokens, Lexes input.bytes tokens ∧ tokens.length ≤ room) ∧
      (∀ tokens, Lexes input.bytes tokens → tokens.length ≤ room →
        result = { data := some (tokens ++ [eofToken]), count := tokens.length + 1 }) ∧
      (status ≠ .ok → result = .null) := by
  obtain ⟨status, result, ran, failed⟩ := tokenize_ends input room
  have succeeds : ∀ tokens, Lexes input.bytes tokens → tokens.length ≤ room →
      status = .ok ∧
        result = { data := some (tokens ++ [eofToken]), count := tokens.length + 1 } := by
    intro tokens lexes fits
    have again := (tokenize_ok_iff input room _).mpr ⟨tokens, lexes, fits, rfl⟩
    rw [ran] at again
    simpa using again
  refine ⟨status, result, ran, ⟨?_, ?_⟩,
    fun tokens lexes fits => (succeeds tokens lexes fits).2, failed⟩
  · rintro rfl
    obtain ⟨tokens, lexes, fits, _⟩ := (tokenize_ok_iff input room result).mp ran
    exact ⟨tokens, lexes, fits⟩
  · rintro ⟨tokens, lexes, fits⟩
    exact (succeeds tokens lexes fits).1

end SqlEngine
