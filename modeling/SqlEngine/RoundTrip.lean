import Mathlib.Data.List.Forall2
import SqlEngine.Lexical
import SqlEngine.Grammar
import SqlEngine.Integers
import SqlEngine.Layout

/-! Rendering a syntax tree as SQL text, and the proof that the tokenizer and the
parser read every rendering back as that tree. A rendering chooses the letter case of
its keywords and the white space around its tokens. Then the names that a table may have
in a statement, against those it may have as a file. -/
namespace SqlEngine

/-- The parts a statement is written from. -/
inductive Piece where
  | keyword (word : Bytes)
  | verbatim (text : Bytes)
  | quoted (content : Bytes)

/-- The texts of a part: a keyword in any letter case, a string in double quotes. -/
inductive Piece.Spelled : Piece → Bytes → Prop where
  | keyword (same : SameIgnoringCase text word) : Spelled (.keyword word) text
  | verbatim : Spelled (.verbatim text) text
  | quoted : Spelled (.quoted content) (34 :: content ++ [34])

/-- Column names with commas between them. -/
def columnPieces : List Bytes → List Piece
  | [] => []
  | [column] => [.verbatim column]
  | column :: columns => .verbatim column :: .verbatim (str ",") :: columnPieces columns

def literalPiece (type : LiteralType) (value : Bytes) : Piece :=
  match type with
  | .number => .verbatim value
  | .string => .quoted value

/-- The README statement of a syntax tree. -/
def pieces : AST → List Piece
  | .select query =>
    [.keyword (str "SELECT")] ++
    (if query.selectAll then [.verbatim (str "*")] else columnPieces query.columns) ++
    [.keyword (str "FROM"), .verbatim query.tableName] ++
    (if query.hasWhere then
      [.keyword (str "WHERE"), .verbatim query.whereColumn, .verbatim (str "="),
        literalPiece query.whereValueType query.whereValue]
    else []) ++
    [.verbatim (str ";")]
  | .insert query =>
    [.keyword (str "INSERT"), .keyword (str "INTO"), .verbatim query.tableName,
      .keyword (str "VALUES"), .verbatim (str "("), .verbatim (decimal query.id),
        .verbatim (str ","),
      .quoted query.name, .verbatim (str ")"), .verbatim (str ";")]

/-- A text that consists of the given words, with at least one white space character
between adjacent words and any white space around them. -/
inductive Spaced : List Bytes → Bytes → Prop where
  | none (blank : ∀ c ∈ gap, isSpace c = true) : Spaced [] gap
  | last (blank : ∀ c ∈ gap, isSpace c = true) (following : Spaced [] rest) :
      Spaced [word] (gap ++ (word ++ rest))
  | more (blank : ∀ c ∈ gap, isSpace c = true) (space : isSpace c = true)
      (following : Spaced (next :: words) rest) :
      Spaced (word :: next :: words) (gap ++ (word ++ c :: rest))

/-- The renderings of a syntax tree. -/
def Renders (ast : AST) (text : Bytes) : Prop :=
  ∃ words, List.Forall₂ Piece.Spelled (pieces ast) words ∧ Spaced words text

/-- The syntax trees that come out of the tokenizer and the parser. -/
def Producible (ast : AST) : Prop :=
  ∃ input capacity buffer,
    tokenize input capacity = some (.ok, buffer) ∧ parseTokens buffer = .ok ast

variable {text rest word : Bytes} {token : Token} {tokens : List Token} {c : UInt8}

/-! ## The decimal text of an int32 -/

theorem digit_byte (character : Char) (digit : character.isDigit = true) :
    character.toNat.toUInt8.toNat = character.toNat ∧ isDigit character.toNat.toUInt8 = true := by
  simp only [Char.isDigit, Bool.and_eq_true, decide_eq_true_eq] at digit
  have low := UInt32.le_iff_toNat_le.mp digit.1
  have high := UInt32.le_iff_toNat_le.mp digit.2
  have same : character.toNat.toUInt8.toNat = character.toNat := by
    change character.toNat % 256 = character.toNat
    apply Nat.mod_eq_of_lt
    exact Nat.lt_of_le_of_lt high (by decide)
  refine ⟨same, ?_⟩
  simp only [isDigit, Bool.and_eq_true, decide_eq_true_eq, UInt8.le_iff_toNat_le, same]
  exact ⟨low, high⟩

private theorem digitsValue_bytes (characters : List Char)
    (digits : ∀ c ∈ characters, c.isDigit = true) :
    digitsValue (characters.map fun c => c.toNat.toUInt8) = Nat.ofDigitChars 10 characters 0 := by
  unfold digitsValue Nat.ofDigitChars
  rw [List.foldl_map]
  apply List.foldl_ext
  intro value character member
  simp only [(digit_byte character (digits character member)).1]
  rfl

/-- The digits of a number, as the bytes `printf` writes. -/
private def digitBytes (n : Nat) : Bytes := (Nat.toDigits 10 n).map fun c => c.toNat.toUInt8

private theorem digitBytes_spec (n : Nat) :
    digitsValue (digitBytes n) = n ∧ (∀ c ∈ digitBytes n, isDigit c = true) ∧ digitBytes n ≠ [] ∧
      (n < 10 ^ 10 → (digitBytes n).length ≤ 10) := by
  have digits : ∀ c ∈ Nat.toDigits 10 n, c.isDigit = true :=
    fun c member => Nat.isDigit_of_mem_toDigits (by decide) (by decide) member
  refine ⟨?_, ?_, ?_, ?_⟩
  · rw [digitBytes, digitsValue_bytes _ digits]
    exact Nat.ofDigitChars_ten_toDigits
  · intro c member
    obtain ⟨character, found, rfl⟩ := List.mem_map.mp member
    exact (digit_byte character (digits character found)).2
  · simp [digitBytes, Nat.toDigits_ne_nil]
  · intro small
    rw [digitBytes, List.length_map]
    exact (Nat.length_toDigits_le_iff (by decide) (by decide)).mpr small

private theorem decimal_eq (value : Int32) :
    decimal value = (if value.toInt < 0 then [45] else []) ++ digitBytes value.toInt.natAbs := by
  unfold decimal digitBytes
  split <;> rfl

private theorem decimal_number (value : Int32) : ∃ sign digits,
    NumberText (decimal value) sign digits ∧ denoted sign digits = value.toInt := by
  obtain ⟨denotes, digits, nonempty, _⟩ := digitBytes_spec value.toInt.natAbs
  rw [decimal_eq]
  by_cases negative : value.toInt < 0
  · refine ⟨[45], digitBytes value.toInt.natAbs,
      ⟨by rw [if_pos negative], .inr rfl, nonempty, digits⟩, ?_⟩
    rw [denoted, if_neg (List.cons_ne_nil _ _), denotes]
    omega
  · refine ⟨[], digitBytes value.toInt.natAbs,
      ⟨by rw [if_neg negative], .inl rfl, nonempty, digits⟩, ?_⟩
    rw [denoted, if_pos rfl, denotes]
    omega

/-- Parsing the decimal text of an `int32` gives it back. -/
theorem parseInt32_decimal (value : Int32) : utilParseInt32 (decimal value) = some value := by
  obtain ⟨sign, digits, number, denotes⟩ := decimal_number value
  have low := value.le_toInt
  have high := value.toInt_lt
  have fits : InInt32 value.toInt := by
    unfold InInt32 INT32_MIN INT32_MAX
    omega
  rw [parseInt32_number number, denotes, if_pos fits, Int32.ofInt_toInt]

private theorem decimal_lexeme (value : Int32) :
    Lexeme (decimal value) { type := .number, value := decimal value } := by
  obtain ⟨_, digits, nonempty, short⟩ := digitBytes_spec value.toInt.natAbs
  have low := value.le_toInt
  have high := value.toInt_lt
  have fits := short (by omega)
  rw [decimal_eq]
  apply Lexeme.number _ _ _ nonempty digits
  · split <;> simp <;> omega
  · split <;> simp

private theorem decimal_nulFree (value : Int32) : 0 ∉ decimal value := by
  obtain ⟨_, digits, _, _⟩ := digitBytes_spec value.toInt.natAbs
  rw [decimal_eq]
  intro member
  rcases List.mem_append.mp member with sign | digit
  · split at sign <;> simp at sign
  · cases digits 0 digit

/-! ## Words that are kept apart -/

private theorem space_stops (space : isSpace c = true) (type : TokenType) :
    Maximal type (c :: rest) := by
  have stops : isDigit c = false ∧ isWordChar c = false := by
    revert space
    exact forall_byte (P := fun c => isSpace c = true → isDigit c = false ∧ isWordChar c = false)
      (by decide +kernel) c
  cases type <;> first | exact stops.1 | exact stops.2 | trivial

private theorem blank_stops (blank : ∀ c ∈ rest, isSpace c = true) (type : TokenType) :
    Maximal type rest := by
  cases rest with
  | nil => cases type <;> first | rfl | trivial
  | cons c rest => exact space_stops (blank c List.mem_cons_self) type

private theorem lexes_after_space (space : isSpace c = true) (lexes : Lexes text tokens) :
    Lexes (c :: text) tokens := by
  cases lexes with
  | done blank => exact .done (by simpa using ⟨space, blank⟩)
  | @token gap _ _ _ _ blank lexeme maximal following =>
    change Lexes ((c :: gap) ++ _) _
    exact .token (by simpa using ⟨space, blank⟩) lexeme maximal following

private theorem spaced_lexes (spaced : Spaced words text)
    (lexemes : List.Forall₂ Lexeme words tokens) :
    Lexes text tokens := by
  induction spaced generalizing tokens with
  | none blank =>
    cases lexemes
    exact .done blank
  | last blank following ih =>
    obtain _ | ⟨lexeme, others⟩ := lexemes
    refine .token blank lexeme ?_ (ih others)
    cases following with
    | none trailing => exact blank_stops trailing _
  | more blank space following ih =>
    obtain _ | ⟨lexeme, others⟩ := lexemes
    exact .token blank lexeme (space_stops space _) (lexes_after_space space (ih others))

private theorem blank_nulFree (blank : ∀ c ∈ text, isSpace c = true) : 0 ∉ text := by
  intro member
  cases blank 0 member

private theorem spaced_nulFree (spaced : Spaced words text) (free : ∀ word ∈ words, 0 ∉ word) :
    0 ∉ text := by
  induction spaced with
  | none blank => exact blank_nulFree blank
  | last blank following ih =>
    simp only [List.mem_append, not_or]
    exact ⟨blank_nulFree blank, free _ (by simp), ih (by simp)⟩
  | @more gap c next words rest word blank space following ih =>
    have nonzero : 0 ≠ c := by
      rintro rfl
      cases space
    simp only [List.mem_append, List.mem_cons, not_or]
    exact ⟨blank_nulFree blank, free _ (by simp), nonzero, ih fun word member =>
      free word (by simp [member])⟩

/-! ## Parts that are read back -/

/-- However the parts are spelled, their words are lexemes of tokens with the given
property. -/
private def Rereads (parts : List Piece) (grammar : List Token → Prop) : Prop :=
  ∀ words, List.Forall₂ Piece.Spelled parts words →
    ∃ tokens, List.Forall₂ Lexeme words tokens ∧ (∀ word ∈ words, 0 ∉ word) ∧ grammar tokens

private theorem Rereads.nil : Rereads [] (· = []) := by
  intro words spelled
  cases spelled
  exact ⟨[], .nil, by simp, rfl⟩

private theorem Rereads.append (first : Rereads front left) (second : Rereads behind right) :
    Rereads (front ++ behind) fun tokens =>
      ∃ head tail, tokens = head ++ tail ∧ left head ∧ right tail := by
  intro words spelled
  obtain ⟨head, tail, rfl, spelledHead, spelledTail⟩ :
      ∃ head tail, words = head ++ tail ∧ List.Forall₂ Piece.Spelled front head ∧
        List.Forall₂ Piece.Spelled behind tail := by
    clear first second
    induction front generalizing words with
    | nil => exact ⟨[], words, rfl, .nil, spelled⟩
    | cons part front ih =>
      cases spelled with
      | cons one others =>
        obtain ⟨head, tail, rfl, spelledHead, spelledTail⟩ := ih _ others
        exact ⟨_ :: head, tail, rfl, .cons one spelledHead, spelledTail⟩
  obtain ⟨headTokens, headLexed, headFree, inLeft⟩ := first head spelledHead
  obtain ⟨tailTokens, tailLexed, tailFree, inRight⟩ := second tail spelledTail
  refine ⟨headTokens ++ tailTokens, List.rel_append headLexed tailLexed, ?_,
    headTokens, tailTokens, rfl, inLeft, inRight⟩
  intro word member
  rcases List.mem_append.mp member with inHead | inTail
  · exact headFree word inHead
  · exact tailFree word inTail

private theorem Rereads.mono (rereads : Rereads parts narrow)
    (wider : ∀ tokens, narrow tokens → wide tokens) :
    Rereads parts wide := by
  intro words spelled
  obtain ⟨tokens, lexed, free, member⟩ := rereads words spelled
  exact ⟨tokens, lexed, free, wider tokens member⟩

private theorem Rereads.one {property : Token → Prop}
    (reads : ∀ word, part.Spelled word → 0 ∉ word ∧ ∃ token, Lexeme word token ∧ property token) :
    Rereads [part] fun tokens => ∃ token, tokens = [token] ∧ property token := by
  intro words spelled
  obtain _ | ⟨one, others⟩ := spelled
  cases others
  obtain ⟨free, token, lexeme, holds⟩ := reads _ one
  exact ⟨[token], .cons lexeme .nil, by simpa using free, token, rfl, holds⟩

private theorem Rereads.exactly (reads : ∀ word, part.Spelled word → 0 ∉ word ∧ Lexeme word token) :
    Rereads [part] (· = [token]) := by
  have one : Rereads [part] fun tokens => ∃ found, tokens = [found] ∧ found = token := by
    apply Rereads.one
    intro word spelled
    exact ⟨(reads word spelled).1, token, (reads word spelled).2, rfl⟩
  apply one.mono
  rintro tokens ⟨_, rfl, rfl⟩
  rfl

private theorem Rereads.verbatim (lexeme : Lexeme text token) (free : 0 ∉ text) :
    Rereads [.verbatim text] (· = [token]) := by
  apply Rereads.exactly
  rintro word ⟨⟩
  exact ⟨free, lexeme⟩

private theorem Rereads.punctuation (member : (c, type) ∈ punctuationTable) :
    Rereads [.verbatim [c]] (· = [{ type, value := [c] }]) := by
  apply Rereads.verbatim (.punctuation member)
  revert member
  simp only [punctuationTable]
  rintro member free
  simp only [List.mem_singleton] at free
  subst free
  simp at member

private theorem keywords_words : ∀ entry ∈ keywords,
    entry.1 ≠ [] ∧ entry.1.length ≤ 63 ∧ (∀ c ∈ entry.1, isAlpha c = true) := by
  simp only [← List.all_eq_true (p := isAlpha)]
  decide

theorem alpha_of_toLower {k : UInt8} (same : toLower c = toLower k) (alpha : isAlpha k = true) :
    isAlpha c = true ∧ c ≠ 0 := by
  have lower : ∀ b : UInt8, isAlpha b = isLower (toLower b) :=
    forall_byte (by decide +kernel)
  have found : isAlpha c = true := by rw [lower, same, ← lower, alpha]
  refine ⟨found, ?_⟩
  rintro rfl
  cases found

/-- A keyword is one token in any letter case. -/
theorem keyword_lexeme (member : (word, type) ∈ keywords) (same : SameIgnoringCase text word) :
    0 ∉ text ∧ Lexeme text { type, value := text } := by
  obtain ⟨nonempty, short, alphas⟩ := keywords_words _ member
  have sameLength : text.length = word.length := by simpa using congrArg List.length same
  have letters : ∀ c ∈ text, isAlpha c = true ∧ c ≠ 0 := by
    intro c found
    have lowered : toLower c ∈ word.map toLower := same ▸ List.mem_map_of_mem found
    obtain ⟨k, inWord, eq⟩ := List.mem_map.mp lowered
    exact alpha_of_toLower eq.symm (alphas k inWord)
  refine ⟨fun zero => (letters 0 zero).2 rfl, ?_⟩
  cases text with
  | nil => exact absurd (List.length_eq_zero_iff.mp sameLength.symm) nonempty
  | cons first rest =>
    apply Lexeme.word
    · simp [(letters first List.mem_cons_self).1]
    · intro c found
      simp [isWordChar, isAlnum, (letters c (List.mem_cons_of_mem _ found)).1]
    · exact sameLength ▸ short
    · exact .inl ⟨word, member, same⟩

private theorem Rereads.keyword (word : Bytes) (type : TokenType)
    (member : (word, type) ∈ keywords) :
    Rereads [.keyword word] fun tokens => ∃ token, tokens = [token] ∧ token.type = type := by
  apply Rereads.one
  rintro text ⟨same⟩
  obtain ⟨free, lexeme⟩ := keyword_lexeme member same
  exact ⟨free, _, lexeme, rfl⟩

/-- A token that was lexed from some text without a NUL byte. -/
def Lexed (token : Token) : Prop := 0 ∉ token.value ∧ ∃ text, Lexeme text token

theorem lexes_lexed (lexes : Lexes text tokens) (free : 0 ∉ text) :
    ∀ token ∈ tokens, Lexed token := by
  induction lexes with
  | done blank => simp
  | @token gap text token rest tokens blank lexeme maximal following ih =>
    simp only [List.mem_append, not_or] at free
    intro found member
    rcases List.mem_cons.mp member with rfl | later
    · refine ⟨?_, text, lexeme⟩
      cases lexeme with
      | string content unquoted fits => simpa using free.2.1
      | _ => exact free.2.1
    · exact ih free.2.2 found later

private theorem wordType_proper (classified : WordType word type) :
    type ≠ .string ∧ type ≠ .eof := by
  rcases classified with ⟨keyword, member, _⟩ | ⟨rfl, _⟩
  · revert member
    simp only [keywords]
    rintro member
    simp only [List.mem_cons, Prod.mk.injEq, List.not_mem_nil, or_false] at member
    rcases member with ⟨_, rfl⟩ | ⟨_, rfl⟩ | ⟨_, rfl⟩ | ⟨_, rfl⟩ | ⟨_, rfl⟩ | ⟨_, rfl⟩ <;> decide
  · decide

private theorem punctuation_proper (member : (c, type) ∈ punctuationTable) :
    type ≠ .string ∧ type ≠ .eof := by
  simp only [punctuationTable, List.mem_cons, Prod.mk.injEq, List.not_mem_nil, or_false] at member
  rcases member with ⟨_, rfl⟩ | ⟨_, rfl⟩ | ⟨_, rfl⟩ | ⟨_, rfl⟩ | ⟨_, rfl⟩ | ⟨_, rfl⟩ <;> decide

private theorem lexeme_not_eof (lexeme : Lexeme text token) : token.type ≠ .eof := by
  cases lexeme with
  | punctuation member => exact (punctuation_proper member).2
  | string | number => nofun
  | word _ _ _ _ _ classified => exact (wordType_proper classified).2

private theorem Rereads.plain (lexed : Lexed token) (unquoted : token.type ≠ .string) :
    Rereads [.verbatim token.value] (· = [token]) := by
  -- Written out again, a lexed token other than a string is read back.
  obtain ⟨free, text, lexeme⟩ := lexed
  refine Rereads.verbatim ?_ free
  cases lexeme with
  | string => exact absurd rfl unquoted
  | punctuation member => exact .punctuation member
  | number sign digits signed nonempty decimal fits =>
    exact .number sign digits signed nonempty decimal fits
  | word first rest initial following fits classified =>
    exact .word first rest initial following fits classified

private theorem Rereads.quoted (lexed : Lexed token) (quoted : token.type = .string) :
    Rereads [.quoted token.value] (· = [token]) := by
  obtain ⟨free, text, lexeme⟩ := lexed
  apply Rereads.exactly
  rintro word ⟨⟩
  refine ⟨by simpa using free, ?_⟩
  cases lexeme with
  | string content unquoted fits => exact .string content unquoted fits
  | number => cases quoted
  | punctuation member => exact absurd quoted (punctuation_proper member).1
  | word _ _ _ _ _ classified => exact absurd quoted (wordType_proper classified).1

/-! ## Statements that are read back -/

theorem moreColumns_length (columns : MoreColumns tokens names) :
    tokens.length = 2 * names.length := by
  induction columns with
  | none => rfl
  | more _ _ _ _ _ _ ih =>
    simp only [List.length_cons, ih]
    omega

private theorem Rereads.columns (following : MoreColumns tokens names) (column : Token)
    (named : column.type = .identifier) (lexed : ∀ token ∈ column :: tokens, Lexed token) :
    Rereads (columnPieces (column.value :: names)) fun found =>
      ∃ rest, found = column :: rest ∧ MoreColumns rest names := by
  have first := Rereads.plain (lexed column List.mem_cons_self) (by simp [named])
  induction following generalizing column with
  | none =>
    apply first.mono
    rintro found rfl
    exact ⟨[], rfl, .none⟩
  | more comma next separated nextNamed fits following ih =>
    have nextLexed :=
      fun token member => lexed token (List.mem_cons_of_mem _ (List.mem_cons_of_mem _ member))
    have others := ih next nextNamed nextLexed
      (Rereads.plain (nextLexed next List.mem_cons_self) (by simp [nextNamed]))
    have separator : Rereads [.verbatim (str ",")] (· = [{ type := .comma, value := [44] }]) :=
      Rereads.punctuation (by decide)
    apply (first.append (separator.append others)).mono
    rintro found ⟨_, _, rfl, rfl, _, _, rfl, rfl, rest, rfl, more⟩
    exact ⟨_, rfl, .more _ next rfl nextNamed fits more⟩

private theorem Rereads.literal (typed : LiteralToken token type) (lexed : Lexed token) :
    Rereads [literalPiece type token.value] (· = [token]) := by
  cases typed with
  | number numeric => exact Rereads.plain lexed (by simp [numeric])
  | string quoted => exact Rereads.quoted lexed quoted

private theorem Rereads.selectList (listed : SelectList items list)
    (lexed : ∀ token ∈ items, Lexed token) :
    Rereads (if list.1 then [.verbatim (str "*")] else columnPieces list.2) fun found =>
      SelectList found list ∧ found.length ≤ 19 := by
  cases listed with
  | all token star =>
    have read : Rereads [.verbatim (str "*")] (· = [{ type := .star, value := [42] }]) :=
      Rereads.punctuation (by decide)
    apply read.mono
    rintro found rfl
    exact ⟨.all _ rfl, by simp⟩
  | columns column named fits following within =>
    apply (Rereads.columns following column named lexed).mono
    rintro found ⟨rest, rfl, more⟩
    refine ⟨.columns column named fits more within, ?_⟩
    have length := moreColumns_length more
    simp only [List.length_cons] at within ⊢
    omega

private theorem Rereads.whereClause (restricted : WhereClause clause restriction)
    (lexed : ∀ token ∈ clause, Lexed token) :
    Rereads (if restriction.isSome then [.keyword (str "WHERE"),
        .verbatim ((restriction.map (·.1)).getD []), .verbatim (str "="),
        literalPiece ((restriction.map (·.2.1)).getD .number) ((restriction.map (·.2.2)).getD [])]
      else []) fun found => WhereClause found restriction ∧ found.length ≤ 4 := by
  cases restricted with
  | absent =>
    apply Rereads.nil.mono
    rintro found rfl
    exact ⟨.absent, by simp⟩
  | equality kw column eq literal whereKw named columnFits equal typed literalFits =>
    have keyword := Rereads.keyword (str "WHERE") .whereKw (by decide)
    have name := Rereads.plain (lexed column (by simp)) (by simp [named])
    have sign : Rereads [.verbatim (str "=")] (· = [{ type := .equal, value := [61] }]) :=
      Rereads.punctuation (by decide)
    have value := Rereads.literal typed (lexed literal (by simp))
    apply (keyword.append (name.append (sign.append value))).mono
    rintro found ⟨_, _, rfl, ⟨first, rfl, found⟩, _, _, rfl, rfl, _, _, rfl, rfl, rfl⟩
    exact ⟨.equality first column _ literal found named columnFits rfl typed literalFits, by simp⟩

private theorem Rereads.statement (statement : Statement tokens ast)
    (lexed : ∀ token ∈ tokens, Lexed token) :
    Rereads (pieces ast) fun found => Statement found ast ∧ found.length ≤ 63 := by
  have semicolonRead :
      Rereads [.verbatim (str ";")] (· = [{ type := .semicolon, value := [59] }]) :=
    Rereads.punctuation (by decide)
  cases statement with
  | @select items list clause restriction kw fromToken table semicolon selectKw listed
      fromKw named fits
      restricted ended =>
    have selectRead := Rereads.keyword (str "SELECT") .selectKw (by decide)
    have itemsRead := Rereads.selectList listed fun token member => lexed token (by simp [member])
    have fromRead := Rereads.keyword (str "FROM") .fromKw (by decide)
    have tableRead := Rereads.plain (lexed table (by simp)) (by simp [named])
    have whereRead :=
      Rereads.whereClause restricted fun token member => lexed token (by simp [member])
    apply
      ((((selectRead.append itemsRead).append (fromRead.append tableRead)).append whereRead).append
      semicolonRead).mono
    rintro found ⟨_, _, rfl, ⟨_, clauseFound, rfl, ⟨_, _, rfl, ⟨_, itemsFound, rfl,
      ⟨selectFound, rfl, isSelect⟩, listFound, short⟩, _, _, rfl, ⟨fromFound, rfl, isFrom⟩, rfl⟩,
      restrictionFound, small⟩, rfl⟩
    have again := Statement.select selectFound fromFound table { type := .semicolon, value := [59] }
      isSelect listFound isFrom named fits restrictionFound rfl
    refine ⟨by simpa using again, ?_⟩
    simp only [List.length_append, List.length_cons, List.length_nil]
    omega
  | @insert id kw into table values lparen number comma name rparen semicolon insertKw intoKw
      named tableFits valuesKw opened numeric denotes separated quoted nameFits closed ended =>
    have insertRead := Rereads.keyword (str "INSERT") .insertKw (by decide)
    have intoRead := Rereads.keyword (str "INTO") .intoKw (by decide)
    have tableRead := Rereads.plain (lexed table (by simp)) (by simp [named])
    have valuesRead := Rereads.keyword (str "VALUES") .valuesKw (by decide)
    have openRead : Rereads [.verbatim (str "(")] (· = [{ type := .lparen, value := [40] }]) :=
      Rereads.punctuation (by decide)
    have idRead := Rereads.verbatim (decimal_lexeme id) (decimal_nulFree id)
    have commaRead : Rereads [.verbatim (str ",")] (· = [{ type := .comma, value := [44] }]) :=
      Rereads.punctuation (by decide)
    have nameRead := Rereads.quoted (lexed name (by simp)) quoted
    have closeRead : Rereads [.verbatim (str ")")] (· = [{ type := .rparen, value := [41] }]) :=
      Rereads.punctuation (by decide)
    apply (insertRead.append (intoRead.append (tableRead.append (valuesRead.append (openRead.append
      (idRead.append
        (commaRead.append (nameRead.append (closeRead.append semicolonRead))))))))).mono
    rintro found ⟨_, _, rfl, ⟨first, rfl, isInsert⟩, _, _, rfl, ⟨second, rfl, isInto⟩, _, _, rfl, rfl,
      _, _, rfl, ⟨fourth, rfl, isValues⟩, _, _, rfl, rfl, _, _, rfl, rfl, _, _, rfl, rfl,
      _, _, rfl, rfl, _, _, rfl, rfl, rfl⟩
    exact ⟨.insert first second table fourth _ _ _ name _ _ isInsert isInto named tableFits
      isValues rfl rfl (parseInt32_decimal id) rfl quoted nameFits rfl rfl, by simp⟩

/-! ## The round trip -/

/-- The buffer of a text holds its tokens, up to the end token. -/
theorem statement_of_lexes (lexes : Lexes text tokens) :
    TokenBuffer.statement { data := some (tokens ++ [eofToken]), count := tokens.length + 1 } =
      tokens := by
  have proper : ∀ token ∈ tokens, (token.type != .eof) = true := by
    induction lexes with
    | done => simp
    | token blank lexeme maximal following ih =>
      simpa using ⟨lexeme_not_eof lexeme, by simpa using ih⟩
  have whole : (tokens ++ [eofToken]).take (tokens.length + 1) = tokens ++ [eofToken] :=
    List.take_of_length_le (by simp)
  simp only [TokenBuffer.statement, Option.getD_some, whole]
  rw [List.takeWhile_append_of_pos proper]
  simp [eofToken]

/-- Tokens and an end token behind them are a valid buffer. -/
theorem valid_of_tokens (tokens : List Token) :
    TokenBuffer.Valid { data := some (tokens ++ [eofToken]), count := tokens.length + 1 } :=
  ⟨nofun, by rintro data ⟨⟩; simp⟩

/-- The parser accepts the tokens of a text exactly when they are a statement. -/
theorem parseTokens_lexed (lexes : Lexes text tokens) :
    parseTokens { data := some (tokens ++ [eofToken]), count := tokens.length + 1 } = .ok ast ↔
      Statement tokens ast := by
  rw [parseTokens_ok_iff (valid_of_tokens tokens), statement_of_lexes lexes]

/-- The statement that a syntax tree was parsed from. -/
theorem Producible.statement {ast : AST} (producible : Producible ast) :
    ∃ tokens, Statement tokens ast ∧ ∀ token ∈ tokens, Lexed token := by
  obtain ⟨input, capacity, buffer, tokenized, parsed⟩ := producible
  obtain ⟨room, rfl⟩ : ∃ room, capacity = room + 1 := by
    cases capacity with
    | zero => cases tokenized
    | succ room => exact ⟨room, rfl⟩
  obtain ⟨tokens, lexes, _, rfl⟩ := (tokenize_ok_iff input room buffer).mp tokenized
  exact ⟨tokens, (parseTokens_lexed lexes).mp parsed, lexes_lexed lexes input.nulFree⟩

/-- A syntax tree that comes out of the engine's front end is read back from each of
its renderings, within the 64 tokens the command line gives the tokenizer. -/
theorem sql_round_trip (ast : AST) (text : Bytes) (producible : Producible ast)
    (renders : Renders ast text) :
    ∃ (nulFree : 0 ∉ text) (buffer : TokenBuffer),
      tokenize ⟨text, nulFree⟩ 64 = some (.ok, buffer) ∧ parseTokens buffer = .ok ast := by
  obtain ⟨words, spelled, spaced⟩ := renders
  obtain ⟨tokens, statement, lexed⟩ := producible.statement
  have reread := Rereads.statement statement lexed
  obtain ⟨found, lexemes, free, again, short⟩ := reread words spelled
  have textLexes := spaced_lexes spaced lexemes
  have textFree := spaced_nulFree spaced free
  refine ⟨textFree, { data := some (found ++ [eofToken]), count := found.length + 1 }, ?_, ?_⟩
  · exact (tokenize_ok_iff ⟨text, textFree⟩ 63 _).mpr ⟨found, textLexes, short, rfl⟩
  · exact (parseTokens_lexed textLexes).mpr again

/-- An INSERT of a negative id whose name looks like SQL, respelled. -/
theorem sql_round_trip_insert : ∃ ast : AST, ∃ text : Bytes,
    text = str "insert\tInTo t values ( -7 , \"x; SELECT\" ) ;" ∧
    ∃ (nulFree : 0 ∉ text) (buffer : TokenBuffer),
      tokenize ⟨text, nulFree⟩ 64 = some (.ok, buffer) ∧ parseTokens buffer = .ok ast := by
  refine ⟨.insert { tableName := str "t", id := -7, name := str "x; SELECT" }, _, rfl,
    sql_round_trip _ _ ⟨⟨str "INSERT INTO t VALUES(-07,\"x; SELECT\");", by decide⟩, 64, _,
      rfl, rfl⟩ ?_⟩
  refine ⟨[str "insert", str "InTo", str "t", str "values", str "(", str "-7", str ",",
    34 :: str "x; SELECT" ++ [34], str ")", str ";"], ?_, ?_⟩
  · exact .cons (.keyword (by decide))
      (.cons (.keyword (by decide)) (.cons .verbatim (.cons (.keyword (by decide))
      (.cons .verbatim (.cons .verbatim (.cons .verbatim (.cons .quoted (.cons .verbatim
      (.cons .verbatim .nil)))))))))
  · have blank : ∀ c ∈ ([] : Bytes), isSpace c = true := nofun
    exact .more blank (c := 9) rfl (.more blank (c := 32) rfl (.more blank (c := 32) rfl
      (.more blank (c := 32) rfl (.more blank (c := 32) rfl (.more blank (c := 32) rfl
      (.more blank (c := 32) rfl (.more blank (c := 32) rfl (.more blank (c := 32) rfl
      (.last blank (.none blank))))))))))

/-! ## Table names -/

def AST.tableName : AST → Bytes
  | .select query => query.tableName
  | .insert query => query.tableName

/-- What a statement takes for a table name: a name that a table may be created under,
which does not start with a digit and is no keyword. -/
structure IsSqlName (name : Bytes) : Prop where
  valid : storageValidTableName name = true
  initial : isDigit (name.headD 0) = false
  notKeyword : ∀ entry ∈ keywords, ¬ SameIgnoringCase name entry.1

private theorem nameChar_eq (c : UInt8) :
    (isLower c || isUpper c || isDigit c || c == 95) = isWordChar c :=
  forall_byte (P := fun c => (isLower c || isUpper c || isDigit c || c == 95) = isWordChar c)
    (by decide +kernel) c

private theorem initial_iff (c : UInt8) :
    (isAlpha c || c == 95) = true ↔ isWordChar c = true ∧ isDigit c = false :=
  forall_byte (P := fun c => (isAlpha c || c == 95) = true ↔
    isWordChar c = true ∧ isDigit c = false)
    (by decide +kernel) c

private theorem IsSqlName.lexeme {name : Bytes} (named : IsSqlName name) :
    name.length ≤ 31 ∧ 0 ∉ name ∧ Lexeme name { type := .identifier, value := name } := by
  have valid := named.valid
  simp only [storageValidTableName, Bool.and_eq_true, decide_eq_true_eq, List.all_eq_true,
    nameChar_eq] at valid
  obtain ⟨⟨nonempty, characters⟩, short⟩ := valid
  have short : name.length ≤ 31 := short
  have free : 0 ∉ name := fun zero => absurd (characters 0 zero) (by decide)
  cases name with
  | nil => exact absurd rfl nonempty
  | cons first rest =>
    have starts := (initial_iff first).mpr ⟨characters first List.mem_cons_self, named.initial⟩
    exact ⟨short, free, .word first rest starts
      (fun c among => characters c (List.mem_cons_of_mem _ among))
      (Nat.le_trans short (by decide)) (.inr ⟨rfl, named.notKeyword⟩)⟩

private theorem notKeyword_of_wordType (classified : WordType word .identifier) :
    ∀ entry ∈ keywords, ¬ SameIgnoringCase word entry.1 := by
  rcases classified with ⟨keyword, member, _⟩ | ⟨_, notKeyword⟩
  · have other : ∀ entry ∈ keywords, entry.2 ≠ .identifier := by decide
    exact absurd rfl (other _ member)
  · exact notKeyword

private theorem isSqlName_of_lexeme (lexeme : Lexeme text token)
    (identifier : token.type = .identifier) (short : token.value.length ≤ 31) :
    IsSqlName token.value := by
  cases lexeme with
  | punctuation member =>
    have other : ∀ entry ∈ punctuationTable, entry.2 ≠ .identifier := by decide
    exact absurd identifier (other _ member)
  | string | number => cases identifier
  | word first rest initial following fits classified =>
    obtain rfl : _ = TokenType.identifier := identifier
    obtain ⟨firstChar, notDigit⟩ := (initial_iff first).mp initial
    refine ⟨?_, notDigit, notKeyword_of_wordType classified⟩
    have characters : ∀ c ∈ first :: rest, isWordChar c = true :=
      by simpa using ⟨firstChar, following⟩
    simp only [storageValidTableName, Bool.and_eq_true, decide_eq_true_eq, List.all_eq_true,
      nameChar_eq]
    exact ⟨⟨List.cons_ne_nil _ _, characters⟩, short⟩

private theorem statement_named (statement : Statement tokens ast)
    (lexed : ∀ token ∈ tokens, Lexed token) :
    IsSqlName ast.tableName := by
  have named : ∀ token ∈ tokens, token.type = .identifier → token.value.length ≤ 31 →
      IsSqlName token.value := by
    intro token among identifier short
    obtain ⟨_, _, lexeme⟩ := lexed token among
    exact isSqlName_of_lexeme lexeme identifier short
  cases statement with
  | select kw fromToken table semicolon selectKw listed fromKw identifier fits restricted ended =>
    exact named table (by simp) identifier fits
  | insert kw into table values lparen number comma name rparen semicolon insertKw intoKw identifier
      fits valuesKw
      opened numeric denotes separated quoted nameFits closed ended =>
    exact named table (by simp) identifier fits

/-- A tree that the parser produces is about a good name. -/
theorem Producible.named {ast : AST} (producible : Producible ast) : IsSqlName ast.tableName := by
  obtain ⟨_, statement, lexed⟩ := producible.statement
  exact statement_named statement lexed

/-- The name that an INSERT stores fits its slot, and has no NUL byte. -/
theorem Producible.stored {query : InsertQuery} (producible : Producible (.insert query)) :
    query.name.length ≤ 31 ∧ 0 ∉ query.name := by
  obtain ⟨_, statement, lexed⟩ := producible.statement
  cases statement with
  | insert kw into table values lparen number comma name rparen semicolon insertKw into_is named
      tableFits valuesKw
      opened numeric denotes separated quoted nameFits closed ended =>
    exact ⟨nameFits, (lexed name (by simp)).1⟩

/-- A syntax tree that a given text is read as. -/
theorem producible_of_read (input : CString) {ast : AST}
    (read : (tokenize input 64).any
      (fun result => decide (result.1 = .ok ∧ parseTokens result.2 = .ok ast)) = true) :
    Producible ast := by
  obtain ⟨⟨status, buffer⟩, tokenized, both⟩ := (Option.any_eq_true _ _).mp read
  obtain ⟨rfl, parsed⟩ := of_decide_eq_true both
  exact ⟨input, 64, buffer, tokenized, parsed⟩

/-- The statement that inserts a row into a table. -/
def insertText (name : Bytes) : Bytes := str "INSERT INTO " ++ name ++ str " VALUES (1, \"a\");"

/-- The statement that selects every row of a table. -/
def selectText (name : Bytes) : Bytes := str "SELECT * FROM " ++ name ++ str ";"

/-- A text is accepted, by the tokenizer as the command line runs it and by the parser, as
a statement about the table. -/
def ReadAsTable (text name : Bytes) : Prop :=
  ∃ (nulFree : 0 ∉ text) (buffer : TokenBuffer) (ast : AST),
    tokenize ⟨text, nulFree⟩ 64 = some (.ok, buffer) ∧ parseTokens buffer = .ok ast ∧
      ast.tableName = name

private theorem named_of_readAsTable {name : Bytes} (read : ReadAsTable text name) :
    IsSqlName name := by
  obtain ⟨nulFree, buffer, ast, tokenized, parsed, rfl⟩ := read
  obtain ⟨tokens, lexes, _, rfl⟩ := (tokenize_ok_iff ⟨text, nulFree⟩ 63 buffer).mp tokenized
  exact statement_named ((parseTokens_lexed lexes).mp parsed) (lexes_lexed lexes nulFree)

private theorem readAsTable_of_lexes (nulFree : 0 ∉ text) (lexes : Lexes text tokens)
    (few : tokens.length ≤ 63) (statement : Statement tokens ast) :
    ReadAsTable text ast.tableName :=
  ⟨nulFree, _, ast, (tokenize_ok_iff ⟨text, nulFree⟩ 63 _).mpr ⟨tokens, lexes, few, rfl⟩,
    (parseTokens_lexed lexes).mpr statement, rfl⟩

/-- The tokens of a text that the tokenizer accepts. -/
theorem lexes_of_tokenize (nulFree : 0 ∉ text)
    (tokenized : tokenize ⟨text, nulFree⟩ 64 =
      some (.ok, { data := some (tokens ++ [eofToken]), count := tokens.length + 1 })) :
        Lexes text tokens := by
  obtain ⟨found, lexes, _, same⟩ := (tokenize_ok_iff ⟨text, nulFree⟩ 63 _).mp tokenized
  simp only [TokenBuffer.mk.injEq, Option.some.injEq] at same
  rwa [List.append_cancel_right same.1]

private def insertTail : List Token :=
  [⟨.valuesKw, str "VALUES"⟩, ⟨.lparen, str "("⟩, ⟨.number, str "1"⟩, ⟨.comma, str ","⟩,
    ⟨.string, str "a"⟩,
    ⟨.rparen, str ")"⟩, ⟨.semicolon, str ";"⟩]

private theorem blank_space : ∀ c ∈ str " ", isSpace c = true := by
  rintro c among
  rw [List.mem_singleton.mp (show c ∈ [32] from among)]
  rfl

private theorem readAsTable_insert {name : Bytes} (named : IsSqlName name) :
    ReadAsTable (insertText name) name := by
  obtain ⟨short, free, lexeme⟩ := named.lexeme
  have insertWord : Lexeme (str "INSERT") ⟨.insertKw, str "INSERT"⟩ :=
    (keyword_lexeme (by decide) rfl).2
  have intoWord : Lexeme (str "INTO") ⟨.intoKw, str "INTO"⟩ := (keyword_lexeme (by decide) rfl).2
  have tail : Lexes (str " VALUES (1, \"a\");") insertTail := lexes_of_tokenize (by decide) rfl
  have lexes : Lexes (insertText name) (⟨.insertKw, str "INSERT"⟩ :: ⟨.intoKw, str "INTO"⟩ ::
      ⟨.identifier, name⟩ :: insertTail) := by
    have split : insertText name =
        [] ++ (str "INSERT" ++
          (str " " ++ (str "INTO" ++ (str " " ++ (name ++ str " VALUES (1, \"a\");"))))) := rfl
    rw [split]
    exact .token nofun insertWord rfl
      (.token blank_space intoWord rfl (.token blank_space lexeme rfl tail))
  have denotes : utilParseInt32 (str "1") = some 1 := rfl
  refine readAsTable_of_lexes ?_ lexes (by simp [insertTail])
    (.insert ⟨.insertKw, str "INSERT"⟩ ⟨.intoKw, str "INTO"⟩
    ⟨.identifier, name⟩ ⟨.valuesKw, str "VALUES"⟩ ⟨.lparen, str "("⟩ ⟨.number, str "1"⟩
      ⟨.comma, str ","⟩
    ⟨.string, str "a"⟩ ⟨.rparen, str ")"⟩
      ⟨.semicolon, str ";"⟩ rfl rfl rfl short rfl rfl rfl denotes rfl rfl
    (by decide) rfl rfl)
  simp only [insertText, List.mem_append, free, or_false, not_or]
  exact ⟨by decide, by decide⟩

private theorem readAsTable_select {name : Bytes} (named : IsSqlName name) :
    ReadAsTable (selectText name) name := by
  obtain ⟨short, free, lexeme⟩ := named.lexeme
  have selectWord : Lexeme (str "SELECT") ⟨.selectKw, str "SELECT"⟩ :=
    (keyword_lexeme (by decide) rfl).2
  have star : Lexeme (str "*") ⟨.star, str "*"⟩ := .punctuation (by decide)
  have fromWord : Lexeme (str "FROM") ⟨.fromKw, str "FROM"⟩ := (keyword_lexeme (by decide) rfl).2
  have tail : Lexes (str ";") [⟨.semicolon, str ";"⟩] := lexes_of_tokenize (by decide) rfl
  have lexes : Lexes (selectText name)
      [⟨.selectKw, str "SELECT"⟩, ⟨.star, str "*"⟩, ⟨.fromKw, str "FROM"⟩,
      ⟨.identifier, name⟩, ⟨.semicolon, str ";"⟩] := by
    have split : selectText name = [] ++ (str "SELECT" ++ (str " " ++ (str "*" ++ (str " " ++
        (str "FROM" ++ (str " " ++ (name ++ str ";"))))))) := rfl
    rw [split]
    exact .token nofun selectWord rfl
      (.token blank_space star trivial
        (.token blank_space fromWord rfl (.token blank_space lexeme rfl tail)))
  refine readAsTable_of_lexes ?_ lexes (by simp)
    (.select ⟨.selectKw, str "SELECT"⟩ ⟨.fromKw, str "FROM"⟩
    ⟨.identifier, name⟩ ⟨.semicolon, str ";"⟩ rfl
      (.all ⟨.star, str "*"⟩ rfl) rfl rfl short .absent rfl)
  simp only [selectText, List.mem_append, free, or_false, not_or]
  exact ⟨by decide, by decide⟩

/-- A name is accepted in a statement exactly if a table may be created under it, it does
not start with a digit, and it is no keyword. -/
theorem sql_table_names (name : Bytes) :
    (ReadAsTable (insertText name) name ↔ IsSqlName name) ∧
      (ReadAsTable (selectText name) name ↔ IsSqlName name) :=
  ⟨⟨named_of_readAsTable, readAsTable_insert⟩, ⟨named_of_readAsTable, readAsTable_select⟩⟩

/-- A keyword is the name of a table file, and of no table in a statement. -/
theorem sql_table_names_differ :
    ¬ ∀ name, storageValidTableName name = true ↔
      ReadAsTable (insertText name) name ∧ ReadAsTable (selectText name) name := by
  intro claim
  obtain ⟨inserted, _⟩ := (claim (str "values")).mp (by decide)
  exact (named_of_readAsTable inserted).notKeyword (str "VALUES", .valuesKw) (by decide) rfl

end SqlEngine
