import SqlEngine.Grammar

/-! What the parser reports as cut off: the proper front parts of statements, and a select
list that is full and goes on. A step that comes to the end of its tokens could have gone on
to what it recognizes. -/
namespace SqlEngine

variable {p : Parser} {tokens rest : List Token} {token : Token} {type : TokenType} {α β : Type}

/-! ## Steps that could have gone on -/

/-- A step that recognizes something, and that reports the end of its tokens only if more
tokens make them what it recognizes, or if there is no room for more. -/
structure Completes (step : Parse α) (relation : List Token → α → Prop)
    (full : List Token → Prop) : Prop where
  possible : ∃ tokens value, relation tokens value
  goes_on : ∀ p tokens, At p tokens → step p = .error .unexpectedEof →
    (∃ more value, more ≠ [] ∧ relation (tokens ++ more) value) ∨ full tokens

variable {step : Parse α} {first relation wide : List Token → α → Prop}
    {full more_full : List Token → Prop}

private theorem Completes.pure (value : α) :
    Completes (Pure.pure value) (fun tokens found => tokens = [] ∧ found = value)
      fun _ => False where
  possible := ⟨[], value, rfl, rfl⟩
  goes_on _ _ _ ran := by cases ran

private theorem Completes.mono (completes : Completes step relation full)
    (widen : ∀ tokens value, relation tokens value → wide tokens value)
    (fills : ∀ tokens, full tokens → more_full tokens) :
    Completes step wide more_full where
  possible := by
    obtain ⟨tokens, value, recognized⟩ := completes.possible
    exact ⟨tokens, value, widen _ _ recognized⟩
  goes_on p tokens here ran := (completes.goes_on p tokens here ran).imp
    (fun ⟨more, value, some_more, recognized⟩ => ⟨more, value, some_more, widen _ _ recognized⟩)
      (fills tokens)

private theorem Completes.require (type : TokenType) :
    Completes (parserRequire type) (fun tokens _ => ∃ token, tokens = [token] ∧ token.type = type)
      fun _ => False where
  possible := ⟨[⟨type, []⟩], (), _, rfl, rfl⟩
  goes_on p tokens here ran := by
    cases tokens with
    | nil => exact .inl ⟨[⟨type, []⟩], (), List.cons_ne_nil _ _, _, rfl, rfl⟩
    | cons token rest =>
      rw [require_token here] at ran
      split at ran <;> cases ran

private theorem Completes.take (type : TokenType) (convert : Bytes → Option α)
    (refused : ParseStatus) {sample : Bytes} {value : α} (denotes : convert sample = some value)
    (different : refused ≠ .unexpectedEof) :
    Completes (parserTake type convert refused)
      (fun tokens value => ∃ token, tokens = [token] ∧ token.type = type ∧
        convert token.value = some value)
      fun _ => False where
  possible := ⟨[⟨type, sample⟩], value, _, rfl, rfl, denotes⟩
  goes_on p tokens here ran := by
    cases tokens with
    | nil => exact .inl ⟨[⟨type, sample⟩], value, List.cons_ne_nil _ _, _, rfl, rfl, denotes⟩
    | cons token rest =>
      rw [take_token here] at ran
      split at ran
      · split at ran
        · cases ran
          exact absurd rfl different
        · cases ran
      · cases ran

private theorem Completes.bind {next : α → Parse β} {second : α → List Token → β → Prop}
    {later_full : α → List Token → Prop} {follow : List Token → Prop}
    (head : Completes step first full) (recognized : Recognizes step first follow)
    (tail : ∀ value, Completes (next value) (second value) (later_full value)) :
    Completes (step >>= next)
      (fun tokens found => ∃ value front behind, tokens = front ++ behind ∧ first front value ∧
        second value behind found)
      (fun tokens => full tokens ∨
        ∃ value front behind, tokens = front ++ behind ∧ first front value ∧
        later_full value behind) where
  possible := by
    obtain ⟨front, value, inFirst⟩ := head.possible
    obtain ⟨behind, found, inSecond⟩ := (tail value).possible
    exact ⟨front ++ behind, found, value, front, behind, rfl, inFirst, inSecond⟩
  goes_on p tokens here ran := by
    rw [bind_run] at ran
    cases stepped : step p with
    | error status =>
      rw [stepped] at ran
      cases ran
      rcases head.goes_on p tokens here stepped with ⟨more, value, some_more, inFirst⟩ | filled
      · obtain ⟨behind, found, inSecond⟩ := (tail value).possible
        exact .inl ⟨more ++ behind, found, by simp [some_more], value, tokens ++ more, behind,
          by simp, inFirst, inSecond⟩
      · exact .inr (.inl filled)
    | ok read =>
      obtain ⟨value, q⟩ := read
      rw [stepped] at ran
      obtain ⟨front, behind, rfl, inFirst, there⟩ := (recognized p tokens here).1 value q stepped
      rcases (tail value).goes_on q behind there ran with
          ⟨more, found, some_more, inSecond⟩ | filled
      · exact .inl ⟨more, found, some_more, value, front, behind ++ more, List.append_assoc ..,
          inFirst, inSecond⟩
      · exact .inr (.inr ⟨value, front, behind, rfl, inFirst, filled⟩)

/-! ## The statements -/

private def someName : Bytes := str "a"

private theorem someName_copied : utilCopyChecked 32 someName = some someName := by decide

/-- The columns that there is room for, and one more comma. -/
def FullColumns (room : Nat) (tokens : List Token) : Prop :=
  ∃ front columns comma, tokens = front ++ [comma] ∧ MoreColumns front columns ∧
    columns.length = room ∧ comma.type = .comma

private theorem Completes.moreColumns (room : Nat) :
    Completes (parseMoreColumns room)
      (fun tokens columns => MoreColumns tokens columns ∧ columns.length ≤ room)
      (FullColumns room) := by
  have possible : ∀ room, ∃ tokens columns, MoreColumns tokens columns ∧ columns.length ≤ room :=
    fun room => ⟨[], [], .none, Nat.zero_le _⟩
  induction room with
  | zero =>
    refine ⟨possible _, fun p tokens there ran => ?_⟩
    unfold parseMoreColumns at ran
    rw [bind_run] at ran
    cases tokens with
    | nil =>
      rw [match_end there (by decide)] at ran
      cases ran
    | cons comma rest =>
      rw [match_token there] at ran
      by_cases separated : comma.type = .comma
      · simp only [separated, ↓reduceIte, Bool.not_true, Bool.false_eq_true, bind_run,
          get_run] at ran
        cases rest with
        | nil => exact .inr ⟨[], [], comma, rfl, .none, rfl, separated⟩
        | cons token rest =>
          split at ran
          · rw [missing_token (at_advance there)] at ran
            cases ran
          · cases ran
      · simp only [separated, ↓reduceIte] at ran
        cases ran
  | succ room ih =>
    refine ⟨possible _, fun p tokens there ran => ?_⟩
    unfold parseMoreColumns at ran
    rw [bind_run] at ran
    cases tokens with
    | nil =>
      rw [match_end there (by decide)] at ran
      cases ran
    | cons comma rest =>
      rw [match_token there] at ran
      by_cases separated : comma.type = .comma
      · simp only [separated, ↓reduceIte, Bool.not_true, Bool.false_eq_true] at ran
        have column :=
          (Completes.take .identifier
            (utilCopyChecked SQL_IDENTIFIER_CAPACITY) .identifierTooLong someName_copied
          (by decide)).bind
          (Recognizes.take .identifier (fun _ => True) (by decide) _ _)
          fun column => ih.bind (Recognizes.moreColumns room) fun columns =>
            .pure (column :: columns)
        rcases column.goes_on _ rest (at_advance there) ran with
          ⟨more, _, some_more, _, _, behind, split, ⟨token, rfl, named, copied⟩, following, _, _,
            rfl, ⟨listed, within⟩, rfl, rfl⟩ | filled
        · obtain ⟨fits, rfl⟩ := copyChecked_iff.mp copied
          rw [List.append_nil] at split
          refine .inl ⟨more, token.value :: following, some_more, ?_, Nat.succ_le_succ within⟩
          rw [List.cons_append, split]
          exact .more comma token separated named fits listed
        · rcases filled with impossible | ⟨_, _, _, rfl, ⟨token, rfl, named, copied⟩, filled⟩
          · exact impossible.elim
          rcases filled with ⟨front, columns, last, rfl, listed, rfl, ended⟩ |
              ⟨_, _, _, _, _, impossible⟩
          case inr => exact impossible.elim
          obtain ⟨fits, rfl⟩ := copyChecked_iff.mp copied
          exact .inr ⟨comma :: token :: front, token.value :: columns, last, rfl,
            .more comma token separated named fits listed, rfl, ended⟩
      · simp only [separated, ↓reduceIte] at ran
        cases ran

/-- A select list with as many columns as there is room for, and one more comma. -/
def FullList (tokens : List Token) : Prop :=
  ∃ items columns comma, tokens = items ++ [comma] ∧ SelectList items (false, columns) ∧
    columns.length = MAX_COLUMNS ∧
    comma.type = .comma

private theorem Completes.selectList : Completes parseSelectList SelectList FullList where
  possible := ⟨_, _, .all ⟨.star, []⟩ rfl⟩
  goes_on p tokens here ran := by
    unfold parseSelectList at ran
    rw [bind_run] at ran
    cases tokens with
    | nil => exact .inl ⟨[⟨.star, []⟩], _, List.cons_ne_nil _ _, .all _ rfl⟩
    | cons token rest =>
      rw [match_token here] at ran
      by_cases star : token.type = .star
      · simp only [star, ↓reduceIte] at ran
        cases ran
      simp only [star, ↓reduceIte, Bool.false_eq_true, bind_run, get_run] at ran
      rw [check_token here] at ran
      by_cases named : token.type = .identifier
      · simp only [named, decide_true, ↓reduceIte] at ran
        have columns :=
          (Completes.take .identifier
            (utilCopyChecked SQL_IDENTIFIER_CAPACITY) .identifierTooLong someName_copied
          (by decide)).bind (Recognizes.take .identifier (fun _ => True) (by decide) _ _)
          fun column => (Completes.moreColumns (MAX_COLUMNS - 1)).bind (Recognizes.moreColumns _)
            fun columns =>
            .pure (false, column :: columns)
        rcases columns.goes_on p (token :: rest) here ran with
          ⟨more, _, some_more, _, _, behind, split, ⟨token, rfl, named, copied⟩, following, _, _,
            rfl, ⟨listed, within⟩, rfl, rfl⟩ | filled
        · obtain ⟨fits, rfl⟩ := copyChecked_iff.mp copied
          rw [List.append_nil] at split
          refine .inl ⟨more, (false, token.value :: following), some_more, ?_⟩
          rw [split]
          exact .columns token named fits listed (Nat.succ_le_succ within)
        · rcases filled with impossible | ⟨_, _, _, split, ⟨token, rfl, named, copied⟩, filled⟩
          · exact impossible.elim
          rcases filled with ⟨front, columns, last, rfl, listed, count, ended⟩ |
              ⟨_, _, _, _, _, impossible⟩
          case inr => exact impossible.elim
          obtain ⟨fits, rfl⟩ := copyChecked_iff.mp copied
          have room : (token.value :: columns).length = MAX_COLUMNS := congrArg Nat.succ count
          exact .inr ⟨token :: front, token.value :: columns, last, split,
            .columns token named fits listed (Nat.le_of_eq room),
            room, ended⟩
      · simp only [named, decide_false, Bool.false_eq_true, ↓reduceIte] at ran
        rw [missing_token here] at ran
        cases ran

private theorem Completes.whereLiteral :
    Completes parseWhereLiteral (fun tokens value => ∃ token, tokens = [token] ∧
      LiteralToken token value.1 ∧
      token.value.length ≤ 31 ∧ value.2 = token.value) fun _ => False where
  possible := ⟨[⟨.number, []⟩], (.number, []), _, rfl, .number rfl, Nat.zero_le _, rfl⟩
  goes_on p tokens here ran := by
    cases tokens with
    | nil => exact .inl ⟨[⟨.number, []⟩], (.number, []), List.cons_ne_nil _ _, _, rfl, .number rfl,
        Nat.zero_le _, rfl⟩
    | cons token rest =>
      unfold parseWhereLiteral at ran
      simp only [bind_run, get_run, check_token here] at ran
      by_cases number : token.type = .number
      · simp only [number, decide_true, ↓reduceIte, bind_run, take_token here] at ran
        cases copied : utilCopyChecked SQL_STORED_NAME_CAPACITY token.value <;> rw
          [copied] at ran <;> cases ran
      simp only [number, decide_false, Bool.false_eq_true, ↓reduceIte, bind_run, get_run,
        check_token here] at ran
      by_cases quoted : token.type = .string
      · simp only [quoted, decide_true, ↓reduceIte, bind_run, take_token here] at ran
        cases copied : utilCopyChecked SQL_STORED_NAME_CAPACITY token.value <;> rw
          [copied] at ran <;> cases ran
      · simp only [quoted, decide_false, Bool.false_eq_true, ↓reduceIte, missing_token here] at ran
        cases ran

private theorem Completes.whereClause : Completes parseWhere WhereClause fun _ => False where
  possible := ⟨[], none, .absent⟩
  goes_on p tokens here ran := by
    unfold parseWhere at ran
    rw [bind_run] at ran
    cases tokens with
    | nil =>
      rw [match_end here (by decide)] at ran
      cases ran
    | cons kw rest =>
      rw [match_token here] at ran
      by_cases whereKw : kw.type = .whereKw
      · simp only [whereKw, ↓reduceIte] at ran
        have clause :=
          (Completes.take .identifier
            (utilCopyChecked SQL_IDENTIFIER_CAPACITY) .identifierTooLong someName_copied
          (by decide)).bind (Recognizes.take .identifier (fun _ => True) (by decide) _ _)
          fun column => (Completes.require .equal).bind
            (Recognizes.require .equal (fun _ => True) (by decide))
          fun _ => Completes.whereLiteral.bind (Recognizes.whereLiteral fun _ => True)
            fun literal =>
            .pure (some (column, literal))
        rcases clause.goes_on _ rest (at_advance here) ran with
          ⟨more, _, some_more, _, _, _, split, ⟨column, rfl, named, copied⟩, _, _, _, rfl,
            ⟨eq, rfl, equal⟩, ⟨type, text⟩, _, _, rfl,
            ⟨literal, rfl, typed, literalFits, rfl⟩, rfl, rfl⟩ | filled
        · obtain ⟨fits, rfl⟩ := copyChecked_iff.mp copied
          refine .inl ⟨more, some (column.value, type, literal.value), some_more, ?_⟩
          rw [List.cons_append, split]
          exact .equality kw column eq literal whereKw named fits equal typed literalFits
        · rcases filled with impossible | ⟨_, _, _, _, _,
              impossible | ⟨_, _, _, _, _, impossible | ⟨_, _, _, _, _, impossible⟩⟩⟩
          all_goals exact impossible.elim
      · simp only [whereKw, ↓reduceIte] at ran
        cases ran

private theorem Completes.selectBody : Completes parseSelectBody
    (fun tokens ast => ∀ kw : Token, kw.type = .selectKw →
      Statement (kw :: tokens) ast) FullList := by
  have body := Completes.selectList.bind Recognizes.selectList fun list =>
    (Completes.require .fromKw).bind
      (Recognizes.require .fromKw (fun _ => True) (by decide)) fun _ =>
    (Completes.take .identifier
      (utilCopyChecked SQL_TABLE_NAME_CAPACITY) .tableNameTooLong someName_copied (by decide)).bind
      (Recognizes.take .identifier (fun _ => True) (by decide) _ _) fun table =>
    Completes.whereClause.bind Recognizes.whereClause fun clause =>
    (Completes.require .semicolon).bind
      (Recognizes.require .semicolon (fun _ => True) (by decide)) fun _ =>
    Completes.pure (AST.select (selectQuery list table clause))
  refine body.mono ?_ ?_
  · rintro tokens ast ⟨list, items, _, rfl, listed, _, _, _, rfl, ⟨fromToken, rfl, fromKw⟩,
        _, _, _, rfl,
      ⟨table, rfl, named, copied⟩, restriction, clause, _, rfl, restricted, _, _, _, rfl,
        ⟨semicolon, rfl, ended⟩, rfl, rfl⟩
      kw selectKw
    obtain ⟨fits, rfl⟩ := copyChecked_iff.mp copied
    have statement :=
      Statement.select kw fromToken table semicolon selectKw listed fromKw named fits
        restricted ended
    simpa [selectQuery] using statement
  · rintro tokens (filled |
        ⟨_, _, _, _, _, impossible | ⟨_, _, _, _, _, impossible | ⟨_, _, _, _, _, impossible |
      ⟨_, _, _, _, _, impossible | ⟨_, _, _, _, _, impossible⟩⟩⟩⟩⟩)
    · exact filled
    all_goals exact impossible.elim

private theorem Completes.insertBody : Completes parseInsertBody
    (fun tokens ast => ∀ kw : Token, kw.type = .insertKw → Statement (kw :: tokens) ast)
      fun _ => False := by
  have one : utilParseInt32 (str "1") = some 1 := by decide
  have required : ∀ type, type ≠ TokenType.eof → Recognizes (parserRequire type)
      (fun tokens _ => ∃ token, tokens = [token] ∧ token.type = type) (fun _ => True) :=
    fun type proper => Recognizes.require _ _ proper
  have body := (Completes.require .intoKw).bind (required .intoKw (by decide)) fun _ =>
    (Completes.take .identifier
      (utilCopyChecked SQL_TABLE_NAME_CAPACITY) .tableNameTooLong someName_copied (by decide)).bind
      (Recognizes.take .identifier (fun _ => True) (by decide) _ _) fun tableName =>
    (Completes.require .valuesKw).bind (required .valuesKw (by decide)) fun _ =>
    (Completes.require .lparen).bind (required .lparen (by decide)) fun _ =>
    (Completes.take .number utilParseInt32 .integerOutOfRange one (by decide)).bind
      (Recognizes.take .number (fun _ => True) (by decide) _ _) fun id =>
    (Completes.require .comma).bind (required .comma (by decide)) fun _ =>
    (Completes.take .string
      (utilCopyChecked SQL_STORED_NAME_CAPACITY) .stringTooLong someName_copied (by decide)).bind
      (Recognizes.take .string (fun _ => True) (by decide) _ _) fun name =>
    (Completes.require .rparen).bind (required .rparen (by decide)) fun _ =>
    (Completes.require .semicolon).bind (required .semicolon (by decide)) fun _ =>
    Completes.pure (AST.insert { tableName, id, name })
  refine body.mono ?_ ?_
  · rintro tokens ast ⟨_, _, _, rfl, ⟨into, rfl, intoKw⟩, _, _, _, rfl,
        ⟨table, rfl, named, tableCopied⟩, _, _, _, rfl,
      ⟨values, rfl, valuesKw⟩, _, _, _, rfl, ⟨lparen, rfl, opened⟩, id, _, _, rfl,
        ⟨number, rfl, numeric, denotes⟩, _, _, _, rfl,
      ⟨comma, rfl, separated⟩, _, _, _, rfl, ⟨name, rfl, quoted, nameCopied⟩, _, _, _, rfl,
        ⟨rparen, rfl, closed⟩, _, _, _, rfl,
      ⟨semicolon, rfl, ended⟩, rfl, rfl⟩ kw insertKw
    obtain ⟨tableFits, rfl⟩ := copyChecked_iff.mp tableCopied
    obtain ⟨nameFits, rfl⟩ := copyChecked_iff.mp nameCopied
    exact .insert kw into table values lparen number comma name rparen semicolon insertKw intoKw
      named tableFits valuesKw opened
      numeric denotes separated quoted nameFits closed ended
  · rintro tokens (impossible |
        ⟨_, _, _, _, _, impossible | ⟨_, _, _, _, _, impossible | ⟨_, _, _, _, _, impossible |
      ⟨_, _, _, _, _, impossible |
        ⟨_, _, _, _, _, impossible | ⟨_, _, _, _, _, impossible | ⟨_, _, _, _, _, impossible |
      ⟨_, _, _, _, _, impossible | ⟨_, _, _, _, _, impossible⟩⟩⟩⟩⟩⟩⟩⟩⟩)
    all_goals exact impossible.elim

private theorem body_cut {body : Parse AST} {relation : List Token → AST → Prop}
    (completes : Completes body relation full) (here : At p (token :: rest))
    (typed : token.type = type)
    (ran : (headedParse type body p).map Prod.fst = .error .unexpectedEof) :
    (∃ more ast, more ≠ [] ∧ relation (rest ++ more) ast) ∨ full rest := by
  refine completes.goes_on _ rest (at_advance here) ?_
  rw [headedParse_run here typed, bind_run] at ran
  cases read : body (parserAdvance p) with
  | error status =>
    rw [read] at ran
    cases ran
    rfl
  | ok result =>
    rw [read] at ran
    dsimp only at ran
    rw [finish_run] at ran
    split at ran <;> cases ran

private theorem moreColumns_proper (listed : MoreColumns tokens columns) :
    ∀ token ∈ tokens, token.type ≠ .eof := by
  induction listed with
  | none => simp
  | more comma column separated named fits following ih => simpa [separated, named] using ih

private theorem selectList_proper (listed : SelectList tokens list) :
    ∀ token ∈ tokens, token.type ≠ .eof := by
  cases listed with
  | all token star => simp [star]
  | columns column named fits following within => simpa [named] using moreColumns_proper following

private theorem whereClause_proper (restricted : WhereClause tokens restriction) :
    ∀ token ∈ tokens, token.type ≠ .eof := by
  cases restricted with
  | absent => simp
  | equality kw column eq literal whereKw named columnFits equal typed literalFits =>
    cases typed <;> simp [*]

/-- No token of a statement is an EOF token. -/
theorem statement_proper (statement : Statement tokens ast) :
    ∀ token ∈ tokens, token.type ≠ .eof := by
  cases statement with
  | select kw fromToken table semicolon selectKw listed fromKw named fits restricted ended =>
    have items := selectList_proper listed
    have clause := whereClause_proper restricted
    simp only [List.cons_append, List.append_assoc, List.mem_cons, List.mem_append]
    rintro token (rfl | inItems | rfl | rfl | inClause | rfl | last)
    · simp [selectKw]
    · exact items token inItems
    · simp [fromKw]
    · simp [named]
    · exact clause token inClause
    · simp [ended]
    · cases last
  | insert => simp [*]

private theorem full_columns_cut (listed : MoreColumns front columns)
    (here : At p (front ++ [comma])) (separated : comma.type = .comma) :
    parseMoreColumns columns.length p = .error .unexpectedEof := by
  induction listed generalizing p with
  | none =>
    have behind : At (parserAdvance p) [] := at_advance here
    rw [List.length_nil, parseMoreColumns, bind_run, match_token here, if_pos separated]
    simp only [Bool.not_true, Bool.false_eq_true, ↓reduceIte, bind_run, get_run]
    rw [unlike_end (by decide) behind, Bool.not_false, if_pos rfl]
    exact missing_end behind
  | more comma column separated named fits following ih =>
    have behind := at_advance here
    rw [List.length_cons, parseMoreColumns, bind_run, match_token here, if_pos separated]
    simp only [Bool.not_true, Bool.false_eq_true, ↓reduceIte]
    have copied : utilCopyChecked SQL_IDENTIFIER_CAPACITY column.value = some column.value :=
      copyChecked_iff.mpr ⟨fits, rfl⟩
    rw [bind_run, take_token behind, if_pos named, copied]
    dsimp only
    rw [bind_run, ih (at_advance behind)]

private theorem full_list_cut (filled : FullList tokens) (here : At p tokens) :
    parseSelectList p = .error .unexpectedEof := by
  obtain ⟨items, columns, comma, rfl, listed, count, separated⟩ := filled
  cases listed with
  | columns column named fits following within =>
    have copied : utilCopyChecked SQL_IDENTIFIER_CAPACITY column.value = some column.value :=
      copyChecked_iff.mpr ⟨fits, rfl⟩
    have other : column.type ≠ .star := by simp [named]
    rw [parseSelectList, bind_run, match_token here, if_neg other]
    simp only [Bool.false_eq_true, ↓reduceIte, bind_run, get_run]
    rw [check_token here, decide_eq_true named, if_pos rfl, bind_run, take_token here,
      if_pos named, copied]
    dsimp only
    rw [bind_run, show MAX_COLUMNS - 1 = _ from (Nat.succ.inj count).symm,
      full_columns_cut following (at_advance here) separated]

/-- The buffer that holds exactly these tokens. -/
def TokenBuffer.holding (tokens : List Token) : TokenBuffer :=
  { data := some tokens, count := tokens.length }

theorem holding_valid (tokens : List Token) : (TokenBuffer.holding tokens).Valid where
  null absent := by cases absent
  initialized := by
    rintro data ⟨⟩
    exact Nat.le_refl _

theorem holding_tokens (proper : ∀ token ∈ tokens, token.type ≠ .eof) :
    (TokenBuffer.holding tokens).statement = tokens := by
  have read := @statement_cut tokens [] fun token among => bne_iff_ne.mpr (proper token among)
  rwa [List.append_nil] at read

theorem holding_statement (statement : Statement tokens ast) :
    (TokenBuffer.holding tokens).Valid ∧ (TokenBuffer.holding tokens).statement = tokens :=
  ⟨holding_valid tokens, holding_tokens (statement_proper statement)⟩

/-- Tokens that are cut off: the proper front part of a statement, or a SELECT whose list is
full and goes on. -/
def CutOff (tokens : List Token) : Prop :=
  (∃ more ast, more ≠ [] ∧ Statement (tokens ++ more) ast) ∨
    ∃ kw items, tokens = kw :: items ∧ kw.type = .selectKw ∧ FullList items

/-- What the parser reports as cut off. -/
theorem cutOff_of_eof {buffer : TokenBuffer} (valid : buffer.Valid)
    (reported : parseTokens buffer = .error .unexpectedEof) : CutOff buffer.statement := by
  have here := at_init valid
  cases headed : buffer.statement with
  | nil =>
    obtain ⟨tokens, ast, completed⟩ := Completes.selectBody.possible
    exact .inl ⟨⟨.selectKw, []⟩ :: tokens, ast, List.cons_ne_nil _ _, completed _ rfl⟩
  | cons kw items =>
    rw [headed] at here
    rw [parse_headed valid headed] at reported
    split at reported
    · rename_i selectKw
      rcases body_cut Completes.selectBody here selectKw reported with
          ⟨more, ast, some_more, completed⟩ | filled
      · exact .inl ⟨more, ast, some_more, completed kw selectKw⟩
      · exact .inr ⟨kw, items, rfl, selectKw, filled⟩
    · split at reported
      · rename_i insertKw
        rcases body_cut Completes.insertBody here insertKw reported with
            ⟨more, ast, some_more, completed⟩ | impossible
        · exact .inl ⟨more, ast, some_more, completed kw insertKw⟩
        · exact impossible.elim
      · cases reported

/-- The parser reports what is cut off. -/
theorem eof_of_cutOff {buffer : TokenBuffer} (valid : buffer.Valid)
    (cut : CutOff buffer.statement) :
    parseTokens buffer = .error .unexpectedEof := by
  have here := at_init valid
  rcases cut with ⟨more, ast, some_more, completed⟩ | ⟨kw, items, split, selectKw, filled⟩
  · obtain ⟨validWhole, whole⟩ := holding_statement completed
    exact parseTokens_truncated validWhole valid whole some_more
      ((parseTokens_ok_iff validWhole).mpr (whole.symm ▸ completed))
  · rw [split] at here
    have listed := full_list_cut filled (at_advance here)
    rw [parse_headed valid split, if_pos selectKw, headedParse_run here selectKw, bind_run,
      parseSelectBody, bind_run, listed]
    rfl

/-- A parse ends for want of tokens exactly when the tokens are the proper front part of a
statement, or a SELECT whose list is full and goes on. -/
theorem unexpected_eof_iff (buffer : TokenBuffer) (valid : buffer.Valid) :
    parseTokens buffer = .error .unexpectedEof ↔
      (∃ more ast, more ≠ [] ∧ Statement (buffer.statement ++ more) ast) ∨
      ∃ kw items, buffer.statement = kw :: items ∧ kw.type = .selectKw ∧ FullList items :=
  ⟨cutOff_of_eof valid, eof_of_cutOff valid⟩

private def insertFront : TokenBuffer := .holding [⟨.insertKw, str "INSERT"⟩, ⟨.intoKw, str "INTO"⟩]

/-- `INSERT INTO` is the front part of a statement. -/
theorem unexpected_eof_iff_insert : parseTokens insertFront = .error .unexpectedEof ∧
    (parseTokens insertFront = .error .unexpectedEof ↔
      (∃ more ast, more ≠ [] ∧ Statement (insertFront.statement ++ more) ast) ∨
      ∃ kw items, insertFront.statement = kw :: items ∧ kw.type = .selectKw ∧ FullList items) :=
  ⟨rfl, unexpected_eof_iff _ (holding_valid _)⟩

end SqlEngine
