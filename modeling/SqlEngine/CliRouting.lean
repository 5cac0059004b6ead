import Mathlib.Data.List.DropRight
import SqlEngine.Cli
import SqlEngine.RoundTrip

/-! Routing: the test for a statement at the front of a line agrees with the first token
that the tokenizer reads there. -/
namespace SqlEngine

variable {p text rest gap word keyword : Bytes} {token : Token} {tokens : List Token}
    {input : CString}

/-! ## The test for a keyword -/

private theorem wordBoundary_eq (c : UInt8) : utilIsWordBoundary c = !isWordChar c := by
  unfold utilIsWordBoundary isWordChar
  split
  · rename_i zero
    rw [zero]
    decide
  · rfl

private theorem front_iff_word (keyword : Bytes) (letters : ∀ c ∈ keyword, isAlpha c = true) :
    (keyword.length ≤ p.length ∧ SameIgnoringCase (p.take keyword.length) keyword) ∧
        isWordChar (p.getD keyword.length 0) = false ↔
      SameIgnoringCase (p.takeWhile isWordChar) keyword := by
  induction keyword generalizing p with
  | nil =>
    cases p with
    | nil => simp [SameIgnoringCase, isWordChar, isAlnum, isAlpha, isUpper, isLower, isDigit]
    | cons c p => cases found : isWordChar c <;> simp [SameIgnoringCase, found]
  | cons k keyword ih =>
    have rest := fun q => ih (p := q) fun c member => letters c (List.mem_cons_of_mem _ member)
    cases p with
    | nil => simp [SameIgnoringCase]
    | cons c p =>
      by_cases same : toLower c = toLower k
      · have letter := (alpha_of_toLower same (letters k (List.mem_cons_self ..))).1
        have inWord : isWordChar c = true := by simp [isWordChar, isAlnum, letter]
        simpa [SameIgnoringCase, same, inWord] using rest p
      · cases inWord : isWordChar c <;> simp [SameIgnoringCase, same, inWord]

/-- A text starts with a keyword and a word boundary if its first word is that keyword in
some letter case. -/
theorem keyword_boundary_iff (keyword : Bytes) (letters : ∀ c ∈ keyword, isAlpha c = true) :
    utilStrncasecmp p keyword keyword.length = 0 ∧
      utilIsWordBoundary (p.getD keyword.length 0) = true ↔
      SameIgnoringCase (p.takeWhile isWordChar) keyword := by
  have nulFree : 0 ∉ keyword := fun zero => absurd (letters 0 zero) (by decide)
  rw [strncasecmp_leading p keyword nulFree, wordBoundary_eq, Bool.not_eq_true']
  exact front_iff_word keyword letters

/-- The first word of a text, behind its white space. -/
def firstWord (text : Bytes) : Bytes := (text.dropWhile isSpace).takeWhile isWordChar

/-- A line is routed to SQL exactly for the first words SELECT and INSERT, in any letter case. -/
theorem isSqlStatement_iff (text : Bytes) :
    isSqlStatement text = true ↔
      SameIgnoringCase (firstWord text) (str "SELECT") ∨
        SameIgnoringCase (firstWord text) (str "INSERT") := by
  have letters : ∀ keyword ∈ [str "SELECT", str "INSERT"], ∀ c ∈ keyword, isAlpha c = true :=
    by decide +kernel
  have selects :=
    keyword_boundary_iff (p := text.dropWhile isSpace) (str "SELECT") (letters _ (by simp))
  have inserts :=
    keyword_boundary_iff (p := text.dropWhile isSpace) (str "INSERT") (letters _ (by simp))
  have six : (str "SELECT").length = 6 ∧ (str "INSERT").length = 6 := by decide
  rw [six.1] at selects
  rw [six.2] at inserts
  unfold firstWord
  rw [← selects, ← inserts]
  simp only [isSqlStatement, Bool.if_true_left, Bool.if_false_right, Bool.and_true, Bool.or_eq_true,
    Bool.and_eq_true, beq_iff_eq, decide_eq_true_eq]

/-! ## The first token -/

private theorem keyword_type (keyword : Bytes) (classified : WordType word type)
    (nulFree : 0 ∉ word) (member : (keyword, kw) ∈ keywords) :
    type = kw ↔ SameIgnoringCase word keyword := by
  have looked := (keywordLookup_iff nulFree).mpr classified
  constructor
  · rintro rfl
    rcases classified with ⟨other, found, same⟩ | ⟨rfl, _⟩
    · have unique : ∀ first ∈ keywords, ∀ second ∈ keywords, first.2 = second.2 →
          first = second := by decide
      have equal := unique _ found _ member rfl
      rw [Prod.mk.injEq] at equal
      exact equal.1 ▸ same
    · have proper : ∀ entry ∈ keywords, entry.2 ≠ .identifier := by decide
      exact absurd rfl (proper _ member)
  · intro same
    exact looked.symm.trans ((keywordLookup_iff nulFree).mpr (.inl ⟨keyword, member, same⟩))

private theorem not_keyword (other : isAlpha c = false) (letter : isAlpha k = true) :
    ¬ SameIgnoringCase ((c :: text).takeWhile isWordChar) (k :: keyword) := by
  intro same
  cases inWord : isWordChar c with
  | false => simp [SameIgnoringCase, inWord] at same
  | true =>
    rw [List.takeWhile_cons_of_pos inWord] at same
    have lowered : toLower c = toLower k := (List.cons.inj same).1
    rw [(alpha_of_toLower lowered letter).1] at other
    cases other

private theorem lexeme_other (lexeme : Lexeme text token) :
    (∃ c rest, text = c :: rest ∧ isAlpha c = false ∧ token.type ≠ .selectKw ∧
      token.type ≠ .insertKw) ∨
      (WordType text token.type ∧ (∀ c ∈ text, isWordChar c = true) ∧
        ∀ rest, Maximal token.type rest → isWordChar (rest.headD 0) = false) := by
  cases lexeme with
  | @punctuation c type member =>
    have others : ∀ entry ∈ punctuationTable,
        isAlpha entry.1 = false ∧ entry.2 ≠ .selectKw ∧ entry.2 ≠ .insertKw := by decide
    exact .inl ⟨c, [], rfl, others _ member⟩
  | string content unquoted fits =>
    exact .inl ⟨34, content ++ [34], rfl, by decide, by simp, by simp⟩
  | number sign digits signed nonempty decimal fits =>
    rcases signed with rfl | rfl
    · obtain ⟨d, digits, rfl⟩ := List.exists_cons_of_ne_nil nonempty
      have digit := decimal d (List.mem_cons_self ..)
      have letterless := forall_byte (P := fun d => isDigit d = true → isAlpha d = false)
        (by decide +kernel) d digit
      exact .inl ⟨d, digits, rfl, letterless, by simp, by simp⟩
    · exact .inl ⟨45, digits, rfl, by decide, by simp, by simp⟩
  | @word type first rest initial following fits classified =>
    refine .inr ⟨classified, ?_, fun behind maximal => ?_⟩
    · intro c member
      rcases List.mem_cons.mp member with rfl | later
      · exact forall_byte (P := fun d => (isAlpha d || d == 95) = true → isWordChar d = true)
          (by decide +kernel) c initial
      · exact following c later
    · rcases classified with ⟨keyword, member, _⟩ | ⟨rfl, _⟩
      · simp only [keywords, List.mem_cons, Prod.mk.injEq, List.not_mem_nil, or_false] at member
        rcases member with ⟨_, rfl⟩ | ⟨_, rfl⟩ | ⟨_, rfl⟩ | ⟨_, rfl⟩ | ⟨_, rfl⟩ |
            ⟨_, rfl⟩ <;> exact maximal
      · exact maximal

/-- A text is routed as a statement exactly when its first token is one of the two keywords. -/
theorem isSqlStatement_lexes (lexes : Lexes text tokens) (nulFree : 0 ∉ text) :
    isSqlStatement text = true ↔ ∃ token rest, tokens = token :: rest ∧
      (token.type = .selectKw ∨ token.type = .insertKw) := by
  rw [isSqlStatement_iff]
  cases lexes with
  | done blank =>
    have none : firstWord text = [] := by
      rw [firstWord, List.dropWhile_eq_nil_iff.mpr blank]
      rfl
    rw [none]
    constructor
    · intro same
      exact absurd same (by decide)
    · rintro ⟨_, _, found, _⟩
      cases found
  | @token gap text token rest tokens blank lexeme maximal following =>
    have first : firstWord (gap ++ (text ++ rest)) = (text ++ rest).takeWhile isWordChar := by
      rw [firstWord, lexeme_after_gap rest blank lexeme]
    have front : (∃ found behind, token :: tokens = found :: behind ∧
      (found.type = .selectKw ∨ found.type = .insertKw)) ↔
        token.type = .selectKw ∨ token.type = .insertKw :=
      ⟨fun ⟨_, _, same, kind⟩ => (List.cons.inj same).1 ▸ kind, fun kind =>
        ⟨token, tokens, rfl, kind⟩⟩
    rw [first, front]
    rcases lexeme_other lexeme with
        ⟨c, tail, rfl, other, notSelect, notInsert⟩ | ⟨classified, characters, stops⟩
    · refine iff_of_false ?_ (not_or.mpr ⟨notSelect, notInsert⟩)
      rintro (same | same)
      · exact not_keyword other (by decide) same
      · exact not_keyword other (by decide) same
    · have clean : 0 ∉ text := fun zero => absurd (characters 0 zero) (by decide)
      rw [(takeWhile_of_stop rest characters (stops rest maximal)).1,
        keyword_type (str "SELECT") classified clean (by decide),
        keyword_type (str "INSERT") classified clean (by decide)]

/-! ## Lines -/

/-- The white space at the front of a text does not change its tokens. -/
theorem lexes_skipSpaces (lexes : Lexes text tokens) : Lexes (text.dropWhile isSpace) tokens := by
  cases lexes with
  | done blank =>
    rw [List.dropWhile_eq_nil_iff.mpr blank]
    exact .done (by simp)
  | @token gap text token rest tokens blank lexeme maximal following =>
    rw [lexeme_after_gap rest blank lexeme]
    exact .here lexeme maximal following

private theorem SelectList.length_le (listed : SelectList tokens list) : tokens.length ≤ 19 := by
  cases listed with
  | all token star => simp
  | columns column named fits following within =>
    have pairs := moreColumns_length following
    simp only [List.length_cons] at within ⊢
    omega

private theorem WhereClause.length_le (restricted : WhereClause tokens restriction) :
    tokens.length ≤ 4 := by
  cases restricted with
  | absent => exact Nat.zero_le 4
  | equality => exact Nat.le_refl 4

/-- A statement is shorter than the token array of the command line. -/
theorem statement_fits (statement : Statement tokens ast) : tokens.length + 1 ≤ MAX_TOKENS := by
  have room : 27 + 1 ≤ MAX_TOKENS := by decide
  refine Nat.le_trans (Nat.succ_le_succ ?_) room
  cases statement with
  | select kw fromToken table semicolon selectKw listed fromKw named fits restricted ended =>
    have items := listed.length_le
    have clause := restricted.length_le
    simp only [List.length_append, List.length_cons, List.length_nil]
    omega
  | insert => simp

/-- The test does not depend on the white space in front, which `cli_handle_line` has skipped. -/
theorem isSqlStatement_skipSpaces (input : CString) :
    isSqlStatement input.skipSpaces.bytes = isSqlStatement input.bytes := by
  simp only [isSqlStatement, CString.skipSpaces, List.dropWhile_idempotent]

/-- A line that the tokenizer and the parser accept is executed as a statement. -/
theorem cliHandleLine_statement {buffer : TokenBuffer}
    (tokenized : tokenize input MAX_TOKENS = some (.ok, buffer))
    (parsed : parseTokens buffer = .ok ast) :
    cliHandleLine input = (do
      let _ ← execute ast
      return .next) := by
  obtain ⟨tokens, lexes, few, rfl⟩ := (tokenize_ok_iff input 63 buffer).mp tokenized
  have statement := (parseTokens_lexed lexes).mp parsed
  obtain ⟨kw, rest, rfl, kind⟩ := statement_head statement
  have keyword : kw.type = .selectKw ∨ kw.type = .insertKw := kind.imp And.left And.left
  have routed : isSqlStatement input.skipSpaces.bytes = true := by
    rw [isSqlStatement_skipSpaces]
    exact (isSqlStatement_lexes lexes input.nulFree).mpr ⟨kw, rest, rfl, keyword⟩
  have something : input.skipSpaces.bytes ≠ [] := by
    intro blank
    rw [blank] at routed
    cases routed
  have again : tokenize input.skipSpaces MAX_TOKENS =
      some (.ok, { data := some (kw :: rest ++ [eofToken]), count := (kw :: rest).length + 1 }) :=
    (tokenize_ok_iff input.skipSpaces 63 _).mpr ⟨_, lexes_skipSpaces lexes, few, rfl⟩
  have started : ¬ ((kw :: rest).length + 1 = 0 ∨
      (parserPeek (parserInit
        { data := some (kw :: rest ++ [eofToken]), count := (kw :: rest).length + 1 })).type = .eof) := by
    rintro (none | ended)
    · cases none
    · have same : kw.type = .eof := by simpa [parserPeek, parserInit] using ended
      rw [same] at keyword
      rcases keyword with select | insert
      · cases select
      · cases insert
  unfold cliHandleLine
  simp only [something, routed, ↓reduceIte, Bool.not_true, Bool.false_eq_true]
  unfold handleSqlInput
  rw [again]
  dsimp only
  rw [if_neg started, parsed]
  exact Library.Program.bind_assoc _ _ _

/-- A line whose tokens fit in the array of the command line is routed as a statement exactly
when its first token is SELECT or INSERT. So every line that the tokenizer and the parser
accept is executed, and the parser never refuses a routed line for its first token. Every
statement of the grammar fits in the array. -/
theorem cli_routing :
    (∀ (input : CString) (buffer : TokenBuffer), tokenize input MAX_TOKENS = some (.ok, buffer) →
      (isSqlStatement input.bytes = true ↔
        ∃ token rest, buffer.data = some (token :: rest) ∧
          (token.type = .selectKw ∨ token.type = .insertKw))) ∧
    (∀ (input : CString) (buffer : TokenBuffer) (ast : AST),
      tokenize input MAX_TOKENS = some (.ok, buffer) → parseTokens buffer = .ok ast →
      cliHandleLine input = (do
        let _ ← execute ast
        return .next)) ∧
    (∀ (input : CString) (buffer : TokenBuffer), isSqlStatement input.bytes = true →
      tokenize input.skipSpaces MAX_TOKENS = some (.ok, buffer) →
      parserCheck (parserInit buffer) .selectKw = true ∨
        parserCheck (parserInit buffer) .insertKw = true) ∧
    ∀ tokens ast, Statement tokens ast → tokens.length + 1 ≤ MAX_TOKENS := by
  have first : ∀ (input : CString) (buffer : TokenBuffer),
      tokenize input MAX_TOKENS = some (.ok, buffer) →
      (isSqlStatement input.bytes = true ↔
        ∃ token rest, buffer.data = some (token :: rest) ∧
          (token.type = .selectKw ∨ token.type = .insertKw)) := by
    intro input buffer tokenized
    obtain ⟨tokens, lexes, _, rfl⟩ := (tokenize_ok_iff input 63 buffer).mp tokenized
    rw [isSqlStatement_lexes lexes input.nulFree]
    cases tokens with
    | nil =>
      have eof : eofToken.type = .eof := rfl
      constructor
      · rintro ⟨_, _, found, _⟩
        cases found
      · rintro ⟨token, rest, found, kind⟩
        obtain ⟨rfl, _⟩ := List.cons.inj (Option.some.inj found)
        rw [eof] at kind
        rcases kind with select | insert
        · cases select
        · cases insert
    | cons token tokens =>
      constructor
      · rintro ⟨_, _, found, kind⟩
        exact ⟨token, tokens ++ [eofToken], rfl, (List.cons.inj found).1 ▸ kind⟩
      · rintro ⟨other, rest, found, kind⟩
        exact ⟨token, tokens, rfl, (List.cons.inj (Option.some.inj found)).1 ▸ kind⟩
  refine ⟨first, fun input buffer ast tokenized parsed => cliHandleLine_statement tokenized parsed,
    ?_,
    fun tokens ast => statement_fits⟩
  intro input buffer routed tokenized
  rw [← isSqlStatement_skipSpaces] at routed
  obtain ⟨token, rest, data, kind⟩ := (first input.skipSpaces buffer tokenized).mp routed
  obtain ⟨tokens, _, _, rfl⟩ := (tokenize_ok_iff input.skipSpaces 63 buffer).mp tokenized
  have peeked : parserPeek
      (parserInit { data := some (tokens ++ [eofToken]), count := tokens.length + 1 }) = token := by
    rw [Option.some.inj data]
    rfl
  unfold parserCheck
  rw [peeked]
  exact kind.imp (fun select => by rw [select]; rfl) fun insert => by rw [insert]; rfl

end SqlEngine
