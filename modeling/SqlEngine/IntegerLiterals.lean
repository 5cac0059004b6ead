import SqlEngine.RoundTrip
import SqlEngine.Executor

/-! Integer literals: the id that an INSERT reads directly from its token, against the id
that a WHERE clause keeps as text and converts when it is checked and executed. -/
namespace SqlEngine

variable {literal sign digits : Bytes}

/-- A NUMBER token that the tokenizer produces. -/
def TokenizedNumber (literal : Bytes) : Prop :=
  ∃ (input : CString) (capacity : Nat) (buffer : TokenBuffer) (data : List Token),
    tokenize input capacity = some (.ok, buffer) ∧ buffer.data = some data ∧
      { type := .number, value := literal } ∈ data

/-- `INSERT INTO t VALUES (literal, "a");`. -/
def insertLiteral (literal : Bytes) : Bytes :=
  str "INSERT INTO t VALUES (" ++ (literal ++ str ", \"a\");")

/-- `SELECT * FROM t WHERE id = literal;`. -/
def searchLiteral (literal : Bytes) : Bytes :=
  str "SELECT * FROM t WHERE id = " ++ (literal ++ str ";")

/-- The tokenizer and the parser accept the INSERT of a literal. -/
def Inserts (literal : Bytes) (query : InsertQuery) : Prop :=
  ∃ (nulFree : 0 ∉ insertLiteral literal) (buffer : TokenBuffer),
    tokenize ⟨insertLiteral literal, nulFree⟩ 64 = some (.ok, buffer) ∧
      parseTokens buffer = .ok (.insert query)

/-- The tokenizer, the parser and the semantic checks accept the SELECT for a literal. -/
def Searches (literal : Bytes) (query : SelectQuery) : Prop :=
  ∃ (nulFree : 0 ∉ searchLiteral literal) (buffer : TokenBuffer),
    tokenize ⟨searchLiteral literal, nulFree⟩ 64 = some (.ok, buffer) ∧
      parseTokens buffer = .ok (.select query) ∧
      semanticValidate (.select query) = .ok

/-- The two statements agree on a literal: both are accepted exactly if the integer it denotes
is an `int32`, and then that integer is the inserted id and the id of the rows that match. -/
structure LiteralsAgree (literal : Bytes) (value : Int) : Prop where
  both : (∃ query, Inserts literal query) ↔ ∃ query, Searches literal query
  inserted : (∃ query, Inserts literal query) ↔ InInt32 value
  searched : (∃ query, Searches literal query) ↔ InInt32 value
  id : ∀ query, Inserts literal query → query.id.toInt = value
  matched : ∀ query, Searches literal query →
    (utilParseInt32 query.whereValue).map Int32.toInt = some value ∧
      ∀ row, rowMatchesWhere row query = true ↔ row.id.toInt = value

/-! ## Tokens -/

private theorem number_of_tokenized (tokenized : TokenizedNumber literal) :
    ∃ sign digits, NumberText literal sign digits ∧
      Lexeme literal { type := .number, value := literal } := by
  obtain ⟨input, capacity, buffer, data, ran, found, member⟩ := tokenized
  obtain ⟨room, rfl⟩ : ∃ room, capacity = room + 1 := by
    cases capacity with
    | zero => cases ran
    | succ room => exact ⟨room, rfl⟩
  obtain ⟨tokens, lexes, _, rfl⟩ := (tokenize_ok_iff input room buffer).mp ran
  obtain rfl := Option.some.inj found
  rcases List.mem_append.mp member with among | eof
  · obtain ⟨_, text, lexeme⟩ := lexes_lexed lexes input.nulFree _ among
    generalize typed : (⟨.number, literal⟩ : Token) = token at lexeme
    cases lexeme with
    | @punctuation c type member =>
      obtain ⟨rfl, _⟩ := Token.mk.inj typed
      exact absurd member (by simp [punctuationTable])
    | string content unquoted fits => cases typed
    | number sign digits signed nonempty decimal fits =>
      cases typed
      exact ⟨sign, digits, ⟨rfl, signed, nonempty, decimal⟩,
        .number sign digits signed nonempty decimal fits⟩
    | @word type first rest initial following fits classified =>
      obtain ⟨rfl, _⟩ := Token.mk.inj typed
      rcases classified with ⟨keyword, found, _⟩ | ⟨other, _⟩
      · exact absurd found (by simp [keywords])
      · cases other
  · exact absurd (List.mem_singleton.mp eof) (by simp [eofToken])

private def insertTokens (literal : Bytes) : List Token :=
  [⟨.insertKw, str "INSERT"⟩, ⟨.intoKw, str "INTO"⟩, ⟨.identifier, str "t"⟩,
    ⟨.valuesKw, str "VALUES"⟩,
    ⟨.lparen, str "("⟩, ⟨.number, literal⟩, ⟨.comma, str ","⟩, ⟨.string, str "a"⟩,
      ⟨.rparen, str ")"⟩,
    ⟨.semicolon, str ";"⟩]

private def searchTokens (literal : Bytes) : List Token :=
  [⟨.selectKw, str "SELECT"⟩, ⟨.star, str "*"⟩, ⟨.fromKw, str "FROM"⟩, ⟨.identifier, str "t"⟩,
    ⟨.whereKw, str "WHERE"⟩, ⟨.identifier, str "id"⟩, ⟨.equal, str "="⟩, ⟨.number, literal⟩,
      ⟨.semicolon, str ";"⟩]

private theorem insertLiteral_lexes
    (lexeme : Lexeme literal { type := .number, value := literal }) :
    Lexes (insertLiteral literal) (insertTokens literal) := by
  have front : Lexes (str "INSERT INTO t VALUES (") ((insertTokens literal).take 5) :=
    lexes_of_tokenize (by decide) rfl
  have tail : Lexes (str ", \"a\");") ((insertTokens literal).drop 6) :=
    lexes_of_tokenize (by decide) rfl
  have number : Lexes (literal ++ str ", \"a\");") ((insertTokens literal).drop 5) :=
    .here lexeme rfl tail
  exact front.append number (by simp [insertTokens, Maximal])

private theorem searchLiteral_lexes
    (lexeme : Lexeme literal { type := .number, value := literal }) :
    Lexes (searchLiteral literal) (searchTokens literal) := by
  have front : Lexes (str "SELECT * FROM t WHERE id = ") ((searchTokens literal).take 7) :=
    lexes_of_tokenize (by decide) rfl
  have tail : Lexes (str ";") ((searchTokens literal).drop 8) := lexes_of_tokenize (by decide) rfl
  have number : Lexes (literal ++ str ";") ((searchTokens literal).drop 7) :=
    .here lexeme rfl tail
  exact front.append number (by simp [searchTokens, Maximal])

/-! ## Statements -/

private theorem insert_statement_iff {query : InsertQuery} :
    Statement (insertTokens literal) (.insert query) ↔
      utilParseInt32 literal = some query.id ∧
        query = { tableName := str "t", id := query.id, name := str "a" } := by
  constructor
  · intro statement
    generalize split : insertTokens literal = tokens at statement
    generalize kind : AST.insert query = ast at statement
    cases statement with
    | select => cases kind
    | insert kw into table values lparen number comma name rparen semicolon _ _ _ _ _ _ _ denotes =>
      simp only [insertTokens, List.cons.injEq, and_true] at split
      obtain ⟨rfl, rfl, rfl, rfl, rfl, rfl, rfl, rfl, rfl, rfl⟩ := split
      cases kind
      exact ⟨denotes, rfl⟩
  · rintro ⟨denotes, same⟩
    rw [same]
    exact .insert _ _ _ _ _ _ _ _ _ _ rfl rfl rfl (by decide) rfl rfl rfl denotes rfl rfl
      (by decide) rfl rfl

/-- The query of the SELECT for a literal. -/
private def searchQuery (literal : Bytes) : SelectQuery :=
  { tableName := str "t"
    selectAll := true
    columns := []
    hasWhere := true
    whereColumn := str "id"
    whereValue := literal
    whereValueType := .number }

private theorem search_statement_iff {query : SelectQuery} :
    Statement (searchTokens literal) (.select query) ↔
      literal.length ≤ 31 ∧ query = searchQuery literal := by
  constructor
  · intro statement
    generalize split : searchTokens literal = tokens at statement
    cases statement with
    | select kw fromToken table semicolon selectKw listed fromKw named fits restricted ended =>
      cases listed with
      | columns column named _ following within =>
        obtain ⟨_, rest⟩ := List.cons.inj split
        have star : (⟨.star, str "*"⟩ : Token) = column := (List.cons.inj rest).1
        rw [← star] at named
        cases named
      | all token star =>
        cases restricted with
        | absent => simp [searchTokens] at split
        | equality whereToken column eq number whereKw columnNamed columnFits equal typed literalFits =>
          simp only [searchTokens, List.cons_append, List.nil_append, List.cons.injEq,
            and_true] at split
          obtain ⟨rfl, rfl, rfl, rfl, rfl, rfl, rfl, rfl, rfl⟩ := split
          cases typed with
          | number => exact ⟨literalFits, rfl⟩
          | string quoted => cases quoted
  · rintro ⟨fits, rfl⟩
    exact .select ⟨.selectKw, str "SELECT"⟩ ⟨.fromKw, str "FROM"⟩ ⟨.identifier, str "t"⟩
      ⟨.semicolon, str ";"⟩ rfl
      (.all ⟨.star, str "*"⟩ rfl) rfl rfl (by decide)
      (.equality ⟨.whereKw, str "WHERE"⟩ ⟨.identifier, str "id"⟩ ⟨.equal, str "="⟩ ⟨.number,
        literal⟩ rfl rfl (by decide)
        rfl (.number rfl) fits) rfl

/-! ## Acceptance -/

variable {query : SelectQuery}

private theorem number_nulFree (number : NumberText literal sign digits) : 0 ∉ literal := by
  rw [number.whole, List.mem_append, not_or]
  refine ⟨?_, fun zero => absurd (number.decimal 0 zero) (by decide)⟩
  rcases number.signed with rfl | rfl <;> decide

private theorem inserts_iff {query : InsertQuery} (nulFree : 0 ∉ literal)
    (lexeme : Lexeme literal { type := .number, value := literal }) :
    Inserts literal query ↔
      utilParseInt32 literal = some query.id ∧
        query = { tableName := str "t", id := query.id, name := str "a" } := by
  have lexes := insertLiteral_lexes lexeme
  have clean : 0 ∉ insertLiteral literal := by
    simp only [insertLiteral, List.mem_append, nulFree, false_or, not_or]
    exact ⟨by decide, by decide⟩
  rw [← insert_statement_iff, ← parseTokens_lexed lexes]
  constructor
  · rintro ⟨_, buffer, tokenized, parsed⟩
    obtain ⟨tokens, others, _, rfl⟩ :=
      (tokenize_ok_iff ⟨insertLiteral literal, clean⟩ 63 buffer).mp tokenized
    rwa [lexes_unique clean lexes others]
  · intro parsed
    exact ⟨clean, _, (tokenize_ok_iff ⟨insertLiteral literal, clean⟩ 63 _).mpr
      ⟨_, lexes, by simp [insertTokens], rfl⟩, parsed⟩

private theorem semantic_search (literal : Bytes) :
    semanticValidate (.select (searchQuery literal)) = .ok ↔
      (utilParseInt32 literal).isSome = true := by
  have id : columnFromName (str "id") = .id := rfl
  cases converted : utilParseInt32 literal with
  | none => simp [semanticValidate, validateColumns, validateWhere, searchQuery, id, converted]
  | some value =>
    simp [semanticValidate, validateColumns, validateWhere, searchQuery, id, converted]

private theorem searches_iff (nulFree : 0 ∉ literal)
    (lexeme : Lexeme literal { type := .number, value := literal }) :
    Searches literal query ↔
      literal.length ≤ 31 ∧ (utilParseInt32 literal).isSome = true ∧
        query = searchQuery literal := by
  have lexes := searchLiteral_lexes lexeme
  have clean : 0 ∉ searchLiteral literal := by
    simp only [searchLiteral, List.mem_append, nulFree, false_or, not_or]
    exact ⟨by decide, by decide⟩
  have accepted : (∃ (nulFree : 0 ∉ searchLiteral literal) (buffer : TokenBuffer),
      tokenize ⟨searchLiteral literal, nulFree⟩ 64 = some (.ok, buffer) ∧
        parseTokens buffer = .ok (.select query)) ↔
      literal.length ≤ 31 ∧ query = searchQuery literal := by
    rw [← search_statement_iff, ← parseTokens_lexed lexes]
    constructor
    · rintro ⟨_, buffer, tokenized, parsed⟩
      obtain ⟨tokens, others, _, rfl⟩ :=
        (tokenize_ok_iff ⟨searchLiteral literal, clean⟩ 63 buffer).mp tokenized
      rwa [lexes_unique clean lexes others]
    · intro parsed
      exact ⟨clean, _, (tokenize_ok_iff ⟨searchLiteral literal, clean⟩ 63 _).mpr
        ⟨_, lexes, by simp [searchTokens], rfl⟩, parsed⟩
  constructor
  · rintro ⟨free, buffer, tokenized, parsed, valid⟩
    obtain ⟨fits, rfl⟩ := accepted.mp ⟨free, buffer, tokenized, parsed⟩
    exact ⟨fits, (semantic_search literal).mp valid, rfl⟩
  · rintro ⟨fits, converted, rfl⟩
    obtain ⟨free, buffer, tokenized, parsed⟩ := accepted.mpr ⟨fits, rfl⟩
    exact ⟨free, buffer, tokenized, parsed, (semantic_search literal).mpr converted⟩

private theorem toInt_ofInt32 {value : Int} (fits : InInt32 value) :
    (Int32.ofInt value).toInt = value := by
  unfold InInt32 INT32_MIN INT32_MAX at fits
  exact Int32.toInt_ofInt_of_le (by omega) (by omega)

/-- The two statements agree on a NUMBER token if and only if it has at most 31 characters or
denotes no `int32`: a WHERE clause has no room for longer ones. -/
theorem integer_literals_agree_iff (literal : Bytes) (tokenized : TokenizedNumber literal) :
    LiteralsAgree literal (literalValue literal) ↔
      literal.length ≤ 31 ∨ ¬ InInt32 (literalValue literal) := by
  obtain ⟨sign, digits, spelled, lexeme⟩ := number_of_tokenized tokenized
  rw [literalValue_eq spelled]
  have nulFree := number_nulFree spelled
  have converted := parseInt32_number spelled
  have insertable : (∃ query, Inserts literal query) ↔ InInt32 (denoted sign digits) := by
    constructor
    · rintro ⟨query, inserts⟩
      by_contra outside
      rw [inserts_iff nulFree lexeme, converted, if_neg outside] at inserts
      cases inserts.1
    · intro inside
      rw [if_pos inside] at converted
      exact ⟨{ tableName := str "t", id := Int32.ofInt (denoted sign digits), name := str "a" },
        (inserts_iff nulFree lexeme).mpr ⟨converted, rfl⟩⟩
  have convertible : (utilParseInt32 literal).isSome = true ↔ InInt32 (denoted sign digits) := by
    rw [converted]
    by_cases inside : InInt32 (denoted sign digits) <;> simp [inside]
  have searchable : (∃ query, Searches literal query) ↔
      literal.length ≤ 31 ∧ InInt32 (denoted sign digits) := by
    constructor
    · rintro ⟨query, searches⟩
      obtain ⟨fits, valid, _⟩ := (searches_iff nulFree lexeme).mp searches
      exact ⟨fits, convertible.mp valid⟩
    · rintro ⟨fits, inside⟩
      exact ⟨searchQuery literal,
        (searches_iff nulFree lexeme).mpr ⟨fits, convertible.mpr inside, rfl⟩⟩
  constructor
  · intro agree
    by_contra long
    obtain ⟨long, inside⟩ := not_or.mp long
    exact long (searchable.mp (agree.searched.mpr (not_not.mp inside))).1
  · intro condition
    have both : literal.length ≤ 31 ∧ InInt32 (denoted sign digits) ↔
        InInt32 (denoted sign digits) :=
      ⟨And.right, fun inside => ⟨condition.resolve_right (not_not.mpr inside), inside⟩⟩
    refine ⟨insertable.trans (searchable.trans both).symm, insertable,
      searchable.trans both, ?_, ?_⟩
    · intro query inserts
      have inside := insertable.mp ⟨query, inserts⟩
      obtain ⟨found, _⟩ := (inserts_iff nulFree lexeme).mp inserts
      rw [converted, if_pos inside] at found
      rw [← Option.some.inj found, toInt_ofInt32 inside]
    · intro query searches
      have inside := (searchable.mp ⟨query, searches⟩).2
      obtain ⟨_, _, rfl⟩ := (searches_iff nulFree lexeme).mp searches
      have value : utilParseInt32 (searchQuery literal).whereValue =
          some (Int32.ofInt (denoted sign digits)) := by
        change utilParseInt32 literal = _
        rw [converted, if_pos inside]
      refine ⟨by rw [value, Option.map_some, toInt_ofInt32 inside], fun row => ?_⟩
      have searched : (searchQuery literal).hasWhere = true := rfl
      have column : columnFromName (searchQuery literal).whereColumn = .id := rfl
      simp only [rowMatchesWhere, searched, column, value, Bool.not_true, Bool.false_eq_true,
        ↓reduceIte, beq_iff_eq]
      constructor
      · rintro same
        rw [same, toInt_ofInt32 inside]
      · intro same
        exact Int32.toInt_inj.mp (same.trans (toInt_ofInt32 inside).symm)

private theorem tokenized_of_text {literal : Bytes} (clean : 0 ∉ literal)
    (ran : tokenize ⟨literal, clean⟩ 64 =
      some (.ok, { data := some [⟨.number, literal⟩, eofToken], count := 2 })) :
        TokenizedNumber literal :=
  ⟨⟨literal, clean⟩, 64, _, _, ran, rfl, List.mem_cons_self ..⟩

/-- A negative id with leading zeros. -/
theorem integer_literals_agree_zeros : LiteralsAgree (str "-007") (-7) :=
  (integer_literals_agree_iff (str "-007") (tokenized_of_text (by decide) rfl)).mpr
    (.inl (by decide))

/-- Seven behind 31 zeros is inserted and cannot be searched for. -/
theorem integer_literals_disagree :
    ¬ ∀ literal, TokenizedNumber literal → LiteralsAgree literal (literalValue literal) := by
  intro claim
  let literal : Bytes := List.replicate 31 48 ++ [55]
  have spelled : NumberText literal [] literal :=
    ⟨rfl, .inl rfl, by decide +kernel, by decide +kernel⟩
  have tokenized : TokenizedNumber literal := tokenized_of_text (by decide) rfl
  have agree := claim literal tokenized
  obtain ⟨_, _, _, lexeme⟩ := number_of_tokenized tokenized
  obtain ⟨query, searches⟩ := agree.searched.mpr (by decide)
  exact absurd ((searches_iff (number_nulFree spelled) lexeme).mp searches).1 (by decide)

end SqlEngine
