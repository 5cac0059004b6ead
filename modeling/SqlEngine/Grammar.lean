import SqlEngine.Parser

/-! The statement grammar over token lists, and the proof that the parser accepts
exactly its statements. A statement is read off the front of the tokens; what may be
left behind it decides between acceptance and trailing tokens. -/
namespace SqlEngine

/-- The parser.h contract: `data` may be NULL only when `count` is zero, and otherwise
points to at least `count` tokens. -/
structure TokenBuffer.Valid (buffer : TokenBuffer) : Prop where
  null : buffer.data = none → buffer.count = 0
  initialized : ∀ data, buffer.data = some data → buffer.count ≤ data.length

/-- The tokens in front of the first EOF token, or of the end of the buffer. -/
def TokenBuffer.statement (buffer : TokenBuffer) : List Token :=
  ((buffer.data.getD []).take buffer.count).takeWhile (·.type != .eof)

/-- The columns behind the first: each follows a comma. -/
inductive MoreColumns : List Token → List Bytes → Prop where
  | none : MoreColumns [] []
  | more (comma column : Token) (separated : comma.type = .comma)
      (named : column.type = .identifier)
      (fits : column.value.length ≤ 31) (following : MoreColumns tokens columns) :
      MoreColumns (comma :: column :: tokens) (column.value :: columns)

/-- `*`, or one to ten columns. -/
inductive SelectList : List Token → Bool × List Bytes → Prop where
  | all (token : Token) (star : token.type = .star) : SelectList [token] (true, [])
  | columns (column : Token) (named : column.type = .identifier) (fits : column.value.length ≤ 31)
      (following : MoreColumns tokens columns) (within : (column.value :: columns).length ≤ 10) :
      SelectList (column :: tokens) (false, column.value :: columns)

/-- The literals of a WHERE clause. -/
inductive LiteralToken : Token → LiteralType → Prop where
  | number (numeric : token.type = .number) : LiteralToken token .number
  | string (quoted : token.type = .string) : LiteralToken token .string

/-- Nothing, or `WHERE column = literal`. -/
inductive WhereClause : List Token → Option (Bytes × LiteralType × Bytes) → Prop where
  | absent : WhereClause [] none
  | equality (kw column eq literal : Token) (whereKw : kw.type = .whereKw)
      (named : column.type = .identifier) (columnFits : column.value.length ≤ 31)
      (equal : eq.type = .equal) (typed : LiteralToken literal type)
        (literalFits : literal.value.length ≤ 31) :
      WhereClause [kw, column, eq, literal] (some (column.value, type, literal.value))

/-- The statements, with the syntax tree of each. -/
inductive Statement : List Token → AST → Prop where
  | select (kw fromToken table semicolon : Token) (selectKw : kw.type = .selectKw)
      (listed : SelectList items list)
      (fromKw : fromToken.type = .fromKw) (named : table.type = .identifier)
      (fits : table.value.length ≤ 31) (restricted : WhereClause clause restriction)
      (ended : semicolon.type = .semicolon) :
      Statement (kw :: items ++ fromToken :: table :: clause ++ [semicolon])
        (.select
          { tableName := table.value
            selectAll := list.1
            columns := list.2
            hasWhere := restriction.isSome
            whereColumn := (restriction.map (·.1)).getD []
            whereValue := (restriction.map (·.2.2)).getD []
            whereValueType := (restriction.map (·.2.1)).getD .number })
  | insert {id : Int32} (kw into table values lparen number comma name rparen semicolon : Token)
      (insertKw : kw.type = .insertKw) (intoKw : into.type = .intoKw)
      (named : table.type = .identifier) (tableFits : table.value.length ≤ 31)
      (valuesKw : values.type = .valuesKw) (opened : lparen.type = .lparen)
      (numeric : number.type = .number) (denotes : utilParseInt32 number.value = some id)
      (separated : comma.type = .comma) (quoted : name.type = .string)
      (nameFits : name.value.length ≤ 31) (closed : rparen.type = .rparen)
      (ended : semicolon.type = .semicolon) :
      Statement [kw, into, table, values, lparen, number, comma, name, rparen, semicolon]
        (.insert { tableName := table.value, id, name := name.value })

/-! ## The parser state as a list of tokens -/

/-- The tokens a parser has still to read. -/
def Parser.rest (p : Parser) : List Token :=
  (((p.tokens.data.getD []).take p.tokens.count).drop p.position).takeWhile (·.type != .eof)

private theorem peek_getElem (valid : p.tokens.Valid) :
    parserPeek p =
      (((p.tokens.data.getD []).take p.tokens.count).drop p.position).headD eofToken := by
  obtain ⟨⟨data, count⟩, position⟩ := p
  cases data with
  | none => simp [parserPeek]
  | some data =>
    have inside := valid.initialized data rfl
    simp only at inside
    by_cases past : count = 0 ∨ position ≥ count
    · have empty : ((data.take count).drop position) = [] := by
        rw [List.drop_eq_nil_iff, List.length_take]
        omega
      simp [parserPeek, past, empty]
    · have within : position < (data.take count).length := by
        rw [List.length_take]
        omega
      have held : position < data.length := by omega
      simp only [parserPeek, past, ↓reduceIte, Option.getD_some, List.drop_eq_getElem_cons within,
        List.headD_cons, List.getElem_take]
      simp [held]

/-- At the end of its tokens a parser sees EOF and does not move. -/
theorem rest_nil (valid : p.tokens.Valid) (ended : p.rest = []) :
    (parserPeek p).type = .eof ∧ parserAtEnd p = true := by
  have peeked := peek_getElem valid
  have eof : (parserPeek p).type = .eof := by
    rw [peeked]
    unfold Parser.rest at ended
    cases left : ((p.tokens.data.getD []).take p.tokens.count).drop p.position with
    | nil => rfl
    | cons token tokens =>
      rw [left] at ended
      by_contra other
      simp [show token.type ≠ .eof from other] at ended
  exact ⟨eof, by simp [parserAtEnd, eof]⟩

/-- In front of a token a parser sees it, and advancing leaves the tokens behind it. -/
theorem rest_cons (valid : p.tokens.Valid) (next : p.rest = token :: tokens) :
    parserPeek p = token ∧ token.type ≠ .eof ∧ parserAtEnd p = false ∧
      (parserAdvance p).rest = tokens ∧ (parserAdvance p).tokens = p.tokens := by
  have peeked := peek_getElem valid
  unfold Parser.rest at next
  cases left : ((p.tokens.data.getD []).take p.tokens.count).drop p.position with
  | nil => simp [left] at next
  | cons first following =>
    rw [left] at next peeked
    by_cases ended : first.type = .eof
    · simp [ended] at next
    · simp only [List.takeWhile_cons, bne_iff_ne, ne_eq, ended, not_false_eq_true, ↓reduceIte,
        List.cons.injEq] at next
      obtain ⟨rfl, rfl⟩ := next
      have within : p.position < p.tokens.count := by
        have lengths := congrArg List.length left
        simp only [List.length_drop, List.length_take, List.length_cons] at lengths
        omega
      have present : p.tokens.data ≠ none := by
        intro absent
        have zero := valid.null absent
        omega
      have open_ : parserAtEnd p = false := by
        simp only [List.headD_cons] at peeked
        simp only [parserAtEnd, peeked, Bool.or_eq_false_iff, beq_eq_false_iff_ne, ne_eq, ended,
          not_false_eq_true, and_true, decide_eq_false_iff_not, not_le]
        refine ⟨⟨?_, by omega⟩, within⟩
        cases held : p.tokens.data with
        | none => exact absurd held present
        | some data => rfl
      have moved : parserAdvance p = { p with position := p.position + 1 } := by
        simp [parserAdvance, open_, within]
      refine ⟨peeked, ended, open_, ?_, by rw [moved]⟩
      rw [moved, Parser.rest, ← List.drop_drop, left]
      rfl

/-- The parser stands in front of these tokens of a valid buffer. -/
def At (p : Parser) (tokens : List Token) : Prop := p.tokens.Valid ∧ p.rest = tokens

/-- Advancing takes the next token off. -/
theorem at_advance (here : At p (token :: tokens)) : At (parserAdvance p) tokens := by
  obtain ⟨_, _, _, moved, same⟩ := rest_cons here.1 here.2
  exact ⟨same ▸ here.1, moved⟩

private theorem check_iff (type : TokenType) (here : At p tokens) (proper : type ≠ .eof) :
    parserCheck p type = true ↔ ∃ token rest, tokens = token :: rest ∧ token.type = type := by
  cases tokens with
  | nil =>
    have peeked := (rest_nil here.1 here.2).1
    simp [parserCheck, peeked, Ne.symm proper]
  | cons token rest =>
    have peeked := (rest_cons here.1 here.2).1
    simp [parserCheck, peeked]

/-! ## Recognizers

A step of the parser recognizes a relation between tokens and a value when what it
reads off the front is in the relation, and when it reads everything in the relation
that is followed by tokens it does not take for more. -/

def Recognizes (step : Parse α) (relation : List Token → α → Prop)
    (follow : List Token → Prop) : Prop :=
  ∀ p tokens, At p tokens →
    (∀ value q, step p = .ok (value, q) →
      ∃ front behind, tokens = front ++ behind ∧ relation front value ∧ At q behind) ∧
    (∀ front behind value, tokens = front ++ behind → relation front value → follow behind →
      ∃ q, step p = .ok (value, q) ∧ At q behind)

/-- Two steps in sequence: the first runs, and the second goes on from where it stopped. -/
theorem bind_run (step : Parse α) (next : α → Parse β) (p : Parser) :
    (step >>= next) p = match step p with
      | .ok (value, q) => next value q
      | .error status => .error status := by
  change (step p >>= fun read => next read.1 read.2) = _
  cases step p <;> rfl

private theorem Recognizes.pure (value : α) (follow : List Token → Prop) :
    Recognizes (Pure.pure value) (fun front found => front = [] ∧ found = value) follow := by
  intro p tokens here
  refine ⟨?_, ?_⟩
  · rintro found q ⟨⟩
    exact ⟨[], tokens, rfl, ⟨rfl, rfl⟩, here⟩
  · rintro front behind found rfl ⟨rfl, rfl⟩ _
    exact ⟨p, rfl, here⟩

private theorem Recognizes.bind {step : Parse α} {next : α → Parse β}
    {second : α → List Token → β → Prop}
    (head : Recognizes step first firstFollow)
    (tail : ∀ value, Recognizes (next value) (second value) follow)
    (compatible : ∀ value tokens behind found, second value tokens found → follow behind →
      firstFollow (tokens ++ behind)) :
    Recognizes (step >>= next)
      (fun tokens found => ∃ value front behind, tokens = front ++ behind ∧ first front value ∧
        second value behind found) follow := by
  intro p tokens here
  obtain ⟨sound, complete⟩ := head p tokens here
  refine ⟨?_, ?_⟩
  · intro found r ran
    rw [bind_run] at ran
    cases stepped : step p with
    | error status => simp [stepped] at ran
    | ok read =>
      obtain ⟨value, q⟩ := read
      obtain ⟨front, behind, rfl, inFirst, there⟩ := sound value q stepped
      simp only [stepped] at ran
      obtain ⟨middle, rest, rfl, inSecond, finish⟩ := (tail value q behind there).1 found r ran
      exact ⟨front ++ middle, rest, by simp, ⟨value, front, middle, rfl, inFirst, inSecond⟩, finish⟩
  · rintro front behind found rfl ⟨value, left, right, rfl, inFirst, inSecond⟩ follows
    obtain ⟨q, stepped, there⟩ := complete left (right ++ behind) value (by simp) inFirst
      (compatible value right behind found inSecond follows)
    obtain ⟨r, ran, finish⟩ := (tail value q (right ++ behind) there).2 right behind found rfl
      inSecond follows
    refine ⟨r, ?_, finish⟩
    rw [bind_run, stepped]
    exact ran

private theorem Recognizes.mono (recognized : Recognizes step narrow follow)
    (same : ∀ tokens value, narrow tokens value ↔ wide tokens value) :
    Recognizes step wide follow := by
  intro p tokens here
  obtain ⟨sound, complete⟩ := recognized p tokens here
  refine ⟨fun value q ran => ?_, fun front behind value split member => ?_⟩
  · obtain ⟨front, behind, split, member, there⟩ := sound value q ran
    exact ⟨front, behind, split, (same front value).mp member, there⟩
  · exact complete front behind value split ((same front value).mpr member)

theorem get_run (p : Parser) : (get : Parse Parser) p = .ok (p, p) := rfl

private theorem set_run (p q : Parser) : (set q : Parse PUnit) p = .ok (PUnit.unit, q) := rfl

private theorem pure_run (value : α) (p : Parser) :
    (Pure.pure value : Parse α) p = .ok (value, p) := rfl

theorem throw_run (status : ParseStatus) (p : Parser) :
    (throw status : Parse α) p = .error status := rfl

private theorem Recognizes.throw (status : ParseStatus) :
    Recognizes (α := α) (MonadExcept.throw status) (fun _ _ => False) follow := by
  intro p tokens here
  exact ⟨fun value q ran => by simp [throw_run] at ran, fun _ _ _ _ member => member.elim⟩

private theorem Recognizes.missing : Recognizes (α := α) missing (fun _ _ => False) follow := by
  intro p tokens here
  refine ⟨fun value q ran => ?_, fun _ _ _ _ member => member.elim⟩
  simp [SqlEngine.missing, bind_run, get_run, throw_run] at ran

/-- `parser_match` takes a token off if it has the type, and succeeds anyway. -/
theorem match_run (type : TokenType) (p : Parser) :
    parserMatch type p =
      if parserCheck p type then .ok (true, parserAdvance p) else .ok (false, p) := by
  simp only [parserMatch, bind_run, get_run]
  split
  · simp only [bind_run, set_run, pure_run]
  · rfl

private theorem Recognizes.branch {taken other : Parse α} (type : TokenType) (proper : type ≠ .eof)
    (hit : Recognizes taken first follow) (missed : Recognizes other second follow)
    (apart : ∀ tokens behind value token rest, second tokens value → follow behind →
      tokens ++ behind = token :: rest → token.type ≠ type) :
    Recognizes (parserMatch type >>= fun found => if found then taken else other)
      (fun tokens value =>
        (∃ token rest, tokens = token :: rest ∧ token.type = type ∧ first rest value) ∨
          second tokens value) follow := by
  intro p tokens here
  have checked := check_iff type here proper
  by_cases found : parserCheck p type = true
  · obtain ⟨token, rest, rfl, typed⟩ := checked.mp found
    obtain ⟨sound, complete⟩ := hit (parserAdvance p) rest (at_advance here)
    simp only [bind_run, match_run, found, ↓reduceIte]
    refine ⟨fun value q ran => ?_, fun front behind value split member follows => ?_⟩
    · obtain ⟨front, behind, rfl, inFirst, there⟩ := sound value q ran
      exact ⟨token :: front, behind, rfl, .inl ⟨token, front, rfl, typed, inFirst⟩, there⟩
    · rcases member with ⟨head, tail, rfl, _, inFirst⟩ | inSecond
      · simp only [List.cons_append, List.cons.injEq] at split
        exact complete tail behind value split.2 inFirst follows
      · exact absurd typed (apart front behind value token rest inSecond follows split.symm)
  · obtain ⟨sound, complete⟩ := missed p tokens here
    simp only [bind_run, match_run, found, Bool.false_eq_true, ↓reduceIte]
    refine ⟨fun value q ran => ?_, fun front behind value split member follows => ?_⟩
    · obtain ⟨front, behind, split, inSecond, there⟩ := sound value q ran
      exact ⟨front, behind, split, .inr inSecond, there⟩
    · rcases member with ⟨head, tail, rfl, typed, _⟩ | inSecond
      · exact absurd (checked.mpr ⟨head, tail ++ behind, split, typed⟩) found
      · exact complete front behind value split inSecond follows

private theorem Recognizes.test {taken other : Parse α} (type : TokenType) (proper : type ≠ .eof)
    (hit : Recognizes taken first follow) (missed : Recognizes other second follow)
    (starts : ∀ tokens value, first tokens value →
      ∃ token rest, tokens = token :: rest ∧ token.type = type)
    (apart : ∀ tokens behind value token rest, second tokens value → follow behind →
      tokens ++ behind = token :: rest → token.type ≠ type) :
    Recognizes (get >>= fun p => if parserCheck p type then taken else other)
      (fun tokens value => first tokens value ∨ second tokens value) follow := by
  intro p tokens here
  have checked := check_iff type here proper
  by_cases found : parserCheck p type = true
  · obtain ⟨sound, complete⟩ := hit p tokens here
    simp only [bind_run, get_run, found, ↓reduceIte]
    refine ⟨fun value q ran => ?_, fun front behind value split member follows => ?_⟩
    · obtain ⟨front, behind, split, inFirst, there⟩ := sound value q ran
      exact ⟨front, behind, split, .inl inFirst, there⟩
    · rcases member with inFirst | inSecond
      · exact complete front behind value split inFirst follows
      · obtain ⟨token, rest, rfl, typed⟩ := checked.mp found
        exact absurd typed (apart front behind value token rest inSecond follows split.symm)
  · obtain ⟨sound, complete⟩ := missed p tokens here
    simp only [bind_run, get_run, found, Bool.false_eq_true, ↓reduceIte]
    refine ⟨fun value q ran => ?_, fun front behind value split member follows => ?_⟩
    · obtain ⟨front, behind, split, inSecond, there⟩ := sound value q ran
      exact ⟨front, behind, split, .inr inSecond, there⟩
    · rcases member with inFirst | inSecond
      · obtain ⟨head, tail, rfl, typed⟩ := starts front value inFirst
        exact absurd (checked.mpr ⟨head, tail ++ behind, split, typed⟩) found
      · exact complete front behind value split inSecond follows

/-- A required token is that one token. -/
theorem Recognizes.require (type : TokenType) (follow : List Token → Prop) (proper : type ≠ .eof) :
    Recognizes (parserRequire type)
      (fun tokens _ => ∃ token, tokens = [token] ∧ token.type = type) follow := by
  have step : parserRequire type =
      (parserMatch type >>= fun found => if found then Pure.pure () else SqlEngine.missing) := by
    unfold parserRequire
    congr 1
    funext found
    cases found <;> rfl
  rw [step]
  refine (Recognizes.branch type proper (.pure () follow) .missing ?_).mono ?_
  · intro tokens behind value token rest member
    exact member.elim
  · intro tokens value
    constructor
    · rintro (⟨token, rest, rfl, typed, rfl, _⟩ | member)
      · exact ⟨token, rfl, typed⟩
      · exact member.elim
    · rintro ⟨token, rfl, typed⟩
      exact .inl ⟨token, [], rfl, typed, rfl, rfl⟩

/-- A token that is taken is one token whose value converts. -/
theorem Recognizes.take (type : TokenType) (follow : List Token → Prop) (proper : type ≠ .eof)
    (convert : Bytes → Option α) (refused : ParseStatus) :
    Recognizes (parserTake type convert refused)
      (fun tokens value => ∃ token, tokens = [token] ∧ token.type = type ∧
        convert token.value = some value) follow := by
  intro p tokens here
  have checked := check_iff type here proper
  by_cases found : parserCheck p type = true
  · obtain ⟨token, rest, rfl, typed⟩ := checked.mp found
    have peeked := (rest_cons here.1 here.2).1
    simp only [parserTake, bind_run, get_run, found, Bool.not_true, Bool.false_eq_true, ↓reduceIte,
      peeked]
    cases converted : convert token.value with
    | none =>
      refine ⟨fun value q ran => by simp [throw_run] at ran, ?_⟩
      rintro front behind value split ⟨other, rfl, _, denotes⟩ _
      simp only [List.cons_append, List.nil_append, List.cons.injEq] at split
      rw [← split.1, converted] at denotes
      cases denotes
    | some result =>
      simp only [bind_run, set_run, pure_run]
      refine ⟨fun value q ran => ?_, ?_⟩
      · simp only [Except.ok.injEq, Prod.mk.injEq] at ran
        obtain ⟨rfl, rfl⟩ := ran
        exact ⟨[token], rest, rfl, ⟨token, rfl, typed, converted⟩, at_advance here⟩
      · rintro front behind value split ⟨other, rfl, _, denotes⟩ _
        simp only [List.cons_append, List.nil_append, List.cons.injEq] at split
        obtain ⟨rfl, rfl⟩ := split
        rw [converted] at denotes
        cases denotes
        exact ⟨parserAdvance p, rfl, at_advance here⟩
  · simp only [parserTake, bind_run, get_run, found, Bool.not_false, ↓reduceIte]
    refine ⟨fun value q ran => ?_, ?_⟩
    · simp [SqlEngine.missing, bind_run, get_run, throw_run] at ran
    · rintro front behind value split ⟨token, rfl, typed, _⟩ _
      exact absurd (checked.mpr ⟨token, behind, split, typed⟩) found

/-- A text is copied exactly when it fits with its NUL byte. -/
theorem copyChecked_iff :
    utilCopyChecked 32 source = some copy ↔ source.length ≤ 31 ∧ copy = source := by
  unfold utilCopyChecked
  split
  · simp only [reduceCtorEq, false_iff, not_and]
    omega
  · simp only [Option.some.injEq]
    constructor
    · rintro rfl
      exact ⟨by omega, rfl⟩
    · rintro ⟨_, rfl⟩
      rfl

/-- What must not follow a list of columns. -/
def NoComma (behind : List Token) : Prop :=
  ∀ token rest, behind = token :: rest → token.type ≠ .comma

private theorem not_branch (taken other : Parse α) :
    (parserMatch type >>= fun found => if (!found) = true then other else taken) =
      (parserMatch type >>= fun found => if found then taken else other) := by
  congr 1
  funext found
  cases found <;> rfl

/-- The loop reads every further column, up to the room left in the array. -/
theorem Recognizes.moreColumns (room : Nat) :
    Recognizes (parseMoreColumns room)
      (fun tokens columns => MoreColumns tokens columns ∧ columns.length ≤ room) NoComma := by
  have apart : ∀ (tokens behind : List Token) (value : List Bytes) (token : Token) rest,
      tokens = [] ∧ value = [] → NoComma behind → tokens ++ behind = token :: rest →
        token.type ≠ .comma := by
    rintro tokens behind value token rest ⟨rfl, rfl⟩ free split
    exact free token rest split
  induction room with
  | zero =>
    rw [parseMoreColumns, not_branch]
    have full : Recognizes (α := List Bytes) (get >>= fun p =>
        if (!parserCheck p .identifier) = true then SqlEngine.missing
        else MonadExcept.throw ParseStatus.error) (fun _ _ => False) NoComma := by
      intro p tokens here
      refine ⟨fun value q ran => ?_, fun _ _ _ _ member => member.elim⟩
      simp only [bind_run, get_run] at ran
      split at ran
      · simp [SqlEngine.missing, bind_run, get_run, throw_run] at ran
      · cases ran
    refine (Recognizes.branch .comma (by decide) full (.pure [] NoComma) apart).mono ?_
    intro tokens columns
    constructor
    · rintro (⟨_, _, _, _, member⟩ | ⟨rfl, rfl⟩)
      · exact member.elim
      · exact ⟨.none, Nat.le_refl _⟩
    · rintro ⟨listed, within⟩
      cases listed with
      | none => exact .inr ⟨rfl, rfl⟩
      | more => simp at within
  | succ room ih =>
    rw [parseMoreColumns, not_branch]
    have one := Recognizes.take .identifier (fun _ => True) (by decide)
      (utilCopyChecked SQL_IDENTIFIER_CAPACITY) .identifierTooLong
    have column :=
      one.bind (fun column => ih.bind (fun columns => .pure (column :: columns) NoComma)
      (by rintro _ _ _ _ ⟨rfl, _⟩ free; exact free)) (fun _ _ _ _ _ _ => trivial)
    refine (Recognizes.branch .comma (by decide) column (.pure [] NoComma) apart).mono ?_
    intro tokens columns
    constructor
    · rintro (⟨comma, rest, rfl, separated, value, front, behind, rfl, ⟨token, rfl, named, copied⟩,
        following, left, right, rfl, ⟨listed, within⟩, rfl, rfl⟩ | ⟨rfl, rfl⟩)
      · obtain ⟨fits, rfl⟩ := copyChecked_iff.mp copied
        rw [List.append_nil]
        exact ⟨.more comma token separated named fits listed, Nat.succ_le_succ within⟩
      · exact ⟨.none, Nat.zero_le _⟩
    · rintro ⟨listed, within⟩
      cases listed with
      | none => exact .inr ⟨rfl, rfl⟩
      | @more rest following comma token separated named fits listed =>
        refine .inl ⟨comma, _, rfl, separated, token.value, [token], rest, rfl,
          ⟨token, rfl, named, copyChecked_iff.mpr ⟨fits, rfl⟩⟩, following, rest, [], by simp,
          ⟨listed, Nat.le_of_succ_le_succ within⟩, rfl, rfl⟩

/-- The select list: a star, or columns between commas. -/
theorem Recognizes.selectList : Recognizes parseSelectList SelectList NoComma := by
  have one := Recognizes.take .identifier (fun _ => True) (by decide)
    (utilCopyChecked SQL_IDENTIFIER_CAPACITY) .identifierTooLong
  have columns := one.bind (fun column => (Recognizes.moreColumns 9).bind
    (fun columns => .pure (false, column :: columns) NoComma)
    (by rintro _ _ _ _ ⟨rfl, _⟩ free; exact free)) (fun _ _ _ _ _ _ => trivial)
  have starts : ∀ (tokens : List Token) (value : Bool × List Bytes), (∃ column front behind,
      tokens = front ++ behind ∧ (∃ token, front = [token] ∧ token.type = .identifier ∧
        utilCopyChecked SQL_IDENTIFIER_CAPACITY token.value = some column) ∧
      ∃ columns left right, behind = left ++ right ∧
        (MoreColumns left columns ∧ columns.length ≤ 9) ∧
        right = [] ∧ value = (false, column :: columns)) →
      ∃ token rest, tokens = token :: rest ∧ token.type = .identifier := by
    rintro tokens value ⟨_, front, behind, rfl, ⟨token, rfl, named, _⟩, _⟩
    exact ⟨token, behind, rfl, named⟩
  have named := Recognizes.test .identifier (by decide) columns .missing starts
    (fun _ _ _ _ _ member => member.elim)
  refine (Recognizes.branch .star (by decide) (.pure (true, []) NoComma) named ?_).mono ?_
  · rintro tokens behind value token rest (member | member) _ split
    · obtain ⟨first, others, rfl, identifier⟩ := starts tokens value member
      cases split
      simp [identifier]
    · exact member.elim
  · intro tokens value
    constructor
    · rintro (⟨star, rest, rfl, typed, rfl, rfl⟩ | ⟨column, front, behind, rfl,
        ⟨token, rfl, identifier, copied⟩, following, left, right, rfl, ⟨listed, within⟩, rfl,
          rfl⟩ | member)
      · exact .all star typed
      · obtain ⟨fits, rfl⟩ := copyChecked_iff.mp copied
        rw [List.append_nil]
        exact .columns token identifier fits listed (Nat.succ_le_succ within)
      · exact member.elim
    · intro listed
      cases listed with
      | all star typed => exact .inl ⟨star, [], rfl, typed, rfl, rfl⟩
      | @columns rest following column identifier fits listed within =>
        exact .inr (.inl ⟨column.value, [column], rest, rfl,
          ⟨column, rfl, identifier, copyChecked_iff.mpr ⟨fits, rfl⟩⟩, following, rest, [], by simp,
          ⟨listed, Nat.le_of_succ_le_succ within⟩, rfl, rfl⟩)

/-- The literal of a WHERE clause, with its text for the tree. -/
theorem Recognizes.whereLiteral (follow : List Token → Prop) :
    Recognizes parseWhereLiteral (fun tokens value => ∃ token, tokens = [token] ∧
      LiteralToken token value.1 ∧ token.value.length ≤ 31 ∧ value.2 = token.value) follow := by
  have literal : ∀ (tokenType : TokenType) (literalType : LiteralType) (refused : ParseStatus),
      tokenType ≠ .eof → Recognizes (parserTake tokenType (utilCopyChecked SQL_STORED_NAME_CAPACITY)
        refused >>= fun value => Pure.pure (literalType, value)) (fun tokens value => ∃ token,
          tokens = [token] ∧ token.type = tokenType ∧ token.value.length ≤ 31 ∧
            value = (literalType, token.value)) follow := by
    intro tokenType literalType refused proper
    have one := Recognizes.take tokenType (fun _ => True) proper
      (utilCopyChecked SQL_STORED_NAME_CAPACITY) refused
    refine (one.bind (fun value => .pure (literalType, value) follow)
      (fun _ _ _ _ _ _ => trivial)).mono ?_
    intro tokens value
    constructor
    · rintro ⟨copy, front, behind, rfl, ⟨token, rfl, typed, copied⟩, rfl, rfl⟩
      obtain ⟨fits, rfl⟩ := copyChecked_iff.mp copied
      exact ⟨token, rfl, typed, fits, rfl⟩
    · rintro ⟨token, rfl, typed, fits, rfl⟩
      exact ⟨token.value, [token], [], rfl,
        ⟨token, rfl, typed, copyChecked_iff.mpr ⟨fits, rfl⟩⟩, rfl, rfl⟩
  have quoted := Recognizes.test .string (by decide)
    (literal .string .string .stringTooLong (by decide))
      (Recognizes.missing (α := LiteralType × Bytes))
    (by rintro tokens value ⟨token, rfl, typed, _⟩; exact ⟨token, [], rfl, typed⟩)
    (fun _ _ _ _ _ member => member.elim)
  refine (Recognizes.test .number (by decide)
    (literal .number .number .integerOutOfRange (by decide)) quoted ?_ ?_).mono ?_
  · rintro tokens value ⟨token, rfl, typed, _⟩
    exact ⟨token, [], rfl, typed⟩
  · rintro tokens behind value first rest (⟨token, rfl, typed, _⟩ | member) _ split
    · cases split
      simp [typed]
    · exact member.elim
  · rintro tokens ⟨type, copy⟩
    constructor
    · rintro (⟨token, rfl, typed, fits, same⟩ | ⟨token, rfl, typed, fits, same⟩ | member)
      · cases same
        exact ⟨token, rfl, .number typed, fits, rfl⟩
      · cases same
        exact ⟨token, rfl, .string typed, fits, rfl⟩
      · exact member.elim
    · rintro ⟨token, rfl, typed, fits, rfl⟩
      cases typed with
      | number numeric => exact .inl ⟨token, rfl, numeric, fits, rfl⟩
      | string quoted => exact .inr (.inl ⟨token, rfl, quoted, fits, rfl⟩)

/-- What must not follow a statement that has no WHERE clause. -/
def NoWhere (behind : List Token) : Prop :=
  ∀ token rest, behind = token :: rest → token.type ≠ .whereKw

/-- The WHERE clause, which may be missing. -/
theorem Recognizes.whereClause : Recognizes parseWhere WhereClause NoWhere := by
  have column := Recognizes.take .identifier (fun _ => True) (by decide)
    (utilCopyChecked SQL_IDENTIFIER_CAPACITY) .identifierTooLong
  have equal := Recognizes.require .equal (fun _ => True) (by decide)
  have clause := column.bind (fun column => equal.bind (fun _ =>
    (Recognizes.whereLiteral fun _ => True).bind (fun literal =>
      .pure (some (column, literal)) NoWhere)
      (fun _ _ _ _ _ _ => trivial)) (fun _ _ _ _ _ _ => trivial)) (fun _ _ _ _ _ _ => trivial)
  refine (Recognizes.branch .whereKw (by decide) clause (.pure none NoWhere) ?_).mono ?_
  · rintro tokens behind value token rest ⟨rfl, rfl⟩ free split
    exact free token rest split
  · intro tokens value
    constructor
    · rintro (⟨kw, rest, rfl, typed, copy, _, _, rfl, ⟨token, rfl, named, copied⟩, _, _, _, rfl,
        ⟨eq, rfl, equalTyped⟩, ⟨type, text⟩, _, _, rfl,
          ⟨literal, rfl, literalTyped, literalFits, rfl⟩,
        rfl, rfl⟩ | ⟨rfl, rfl⟩)
      · obtain ⟨fits, rfl⟩ := copyChecked_iff.mp copied
        exact .equality kw token eq literal typed named fits equalTyped literalTyped literalFits
      · exact .absent
    · intro clause
      cases clause with
      | absent => exact .inr ⟨rfl, rfl⟩
      | @equality type kw token eq literal whereKw named columnFits equalTyped typed literalFits =>
        exact .inl ⟨kw, _, rfl, whereKw, token.value, [token], _, rfl,
          ⟨token, rfl, named, copyChecked_iff.mpr ⟨columnFits, rfl⟩⟩, (), [eq], _, rfl,
          ⟨eq, rfl, equalTyped⟩, (type, literal.value), [literal], [], rfl,
          ⟨literal, rfl, typed, literalFits, rfl⟩, rfl, rfl⟩

private theorem Recognizes.selectStatement :
    Recognizes parseSelectStatement (fun tokens ast => Statement tokens ast ∧
      ∃ query, ast = .select query) (fun _ => True) := by
  unfold parseSelectStatement parseSelectBody
  rw [not_branch]
  have table := Recognizes.take .identifier (fun _ => True) (by decide)
    (utilCopyChecked SQL_TABLE_NAME_CAPACITY) .tableNameTooLong
  have body := Recognizes.selectList.bind (fun list =>
    (Recognizes.require .fromKw (fun _ => True) (by decide)).bind (fun _ =>
      table.bind (fun table => Recognizes.whereClause.bind (fun clause =>
        (Recognizes.require .semicolon (fun _ => True) (by decide)).bind (fun _ =>
          .pure (AST.select (selectQuery list table clause)) (fun _ => True))
          (fun _ _ _ _ _ _ => trivial))
        (by
          rintro _ tokens behind found
              ⟨_, _, _, rfl, ⟨token, rfl, typed⟩, rfl, _⟩ _ first rest split
          cases split
          simp [typed]))
        (fun _ _ _ _ _ _ => trivial))
      (fun _ _ _ _ _ _ => trivial))
    (by
      rintro _ tokens behind found ⟨_, _, _, rfl, ⟨token, rfl, typed⟩, _⟩ _ first rest split
      cases split
      simp [typed])
  refine (Recognizes.branch .selectKw (by decide) body (.throw .error)
    (fun _ _ _ _ _ member => member.elim)).mono ?_
  intro tokens ast
  constructor
  · rintro
        (⟨kw, _, rfl, selectKw, list, items, _, rfl, listed, _, _, _, rfl, ⟨fromToken, rfl, fromKw⟩,
      copy, _, _, rfl, ⟨table, rfl, named, copied⟩, restriction, clause, _, rfl, restricted,
        _, _, _, rfl,
      ⟨semicolon, rfl, ended⟩, rfl, rfl⟩ | member)
    · obtain ⟨fits, rfl⟩ := copyChecked_iff.mp copied
      refine ⟨?_, _, rfl⟩
      have statement :=
        Statement.select kw fromToken table semicolon selectKw listed fromKw named fits
        restricted ended
      simpa [selectQuery] using statement
    · exact member.elim
  · rintro ⟨statement, query, rfl⟩
    cases statement with
    | @select items list clause restriction kw fromToken table semicolon selectKw listed
        fromKw named
        fits restricted ended =>
      refine .inl ⟨kw, items ++ fromToken :: table :: clause ++ [semicolon], by simp,
        selectKw, list,
        items, fromToken :: table :: clause ++ [semicolon], by simp, listed, (), [fromToken],
        table :: clause ++ [semicolon], by simp, ⟨fromToken, rfl, fromKw⟩, table.value, [table],
        clause ++ [semicolon], by simp, ⟨table, rfl, named, copyChecked_iff.mpr ⟨fits, rfl⟩⟩,
        restriction, clause, [semicolon], rfl, restricted, (), [semicolon], [], rfl,
        ⟨semicolon, rfl, ended⟩, rfl, rfl⟩

private theorem Recognizes.insertStatement :
    Recognizes parseInsertStatement (fun tokens ast => Statement tokens ast ∧
      ∃ query, ast = .insert query) (fun _ => True) := by
  unfold parseInsertStatement parseInsertBody
  rw [not_branch]
  have required : ∀ type, type ≠ TokenType.eof → Recognizes (parserRequire type)
      (fun tokens _ => ∃ token, tokens = [token] ∧ token.type = type) (fun _ => True) :=
    fun type proper => Recognizes.require _ _ proper
  have body := (required .intoKw (by decide)).bind (fun _ =>
    (Recognizes.take .identifier (fun _ => True) (by decide)
      (utilCopyChecked SQL_TABLE_NAME_CAPACITY) .tableNameTooLong).bind (fun tableName =>
    (required .valuesKw (by decide)).bind (fun _ =>
    (required .lparen (by decide)).bind (fun _ =>
    (Recognizes.take .number (fun _ => True) (by decide)
      utilParseInt32 .integerOutOfRange).bind (fun id =>
    (required .comma (by decide)).bind (fun _ =>
    (Recognizes.take .string (fun _ => True) (by decide)
      (utilCopyChecked SQL_STORED_NAME_CAPACITY) .stringTooLong).bind (fun name =>
    (required .rparen (by decide)).bind (fun _ =>
    (required .semicolon (by decide)).bind (fun _ =>
      Recognizes.pure (AST.insert { tableName, id, name }) (fun _ => True))
    (fun _ _ _ _ _ _ => trivial)) (fun _ _ _ _ _ _ => trivial)) (fun _ _ _ _ _ _ => trivial))
    (fun _ _ _ _ _ _ => trivial)) (fun _ _ _ _ _ _ => trivial)) (fun _ _ _ _ _ _ => trivial))
    (fun _ _ _ _ _ _ => trivial)) (fun _ _ _ _ _ _ => trivial)) (fun _ _ _ _ _ _ => trivial)
  refine (Recognizes.branch .insertKw (by decide) body (.throw .error)
    (fun _ _ _ _ _ member => member.elim)).mono ?_
  intro tokens ast
  constructor
  · rintro (⟨kw, _, rfl, insertKw, _, _, _, rfl, ⟨into, rfl, intoKw⟩, tableName, _, _, rfl,
      ⟨table, rfl, named, tableCopied⟩, _, _, _, rfl, ⟨values, rfl, valuesKw⟩, _, _, _, rfl,
      ⟨lparen, rfl, opened⟩, id, _, _, rfl, ⟨number, rfl, numeric, denotes⟩, _, _, _, rfl,
      ⟨comma, rfl, separated⟩, text, _, _, rfl, ⟨name, rfl, quoted, nameCopied⟩, _, _, _, rfl,
      ⟨rparen, rfl, closed⟩, _, _, _, rfl, ⟨semicolon, rfl, ended⟩, rfl, rfl⟩ | member)
    · obtain ⟨tableFits, rfl⟩ := copyChecked_iff.mp tableCopied
      obtain ⟨nameFits, rfl⟩ := copyChecked_iff.mp nameCopied
      exact ⟨.insert kw into table values lparen number comma name rparen semicolon insertKw intoKw
        named tableFits valuesKw opened numeric denotes separated quoted nameFits closed ended, _,
          rfl⟩
    · exact member.elim
  · rintro ⟨statement, query, rfl⟩
    cases statement with
    | insert kw into table values lparen number comma name rparen semicolon insertKw intoKw named
        tableFits valuesKw opened numeric denotes separated quoted nameFits closed ended =>
      exact .inl ⟨kw, _, rfl, insertKw, (), [into], _, rfl, ⟨into, rfl, intoKw⟩,
        table.value, [table], _,
        rfl, ⟨table, rfl, named, copyChecked_iff.mpr ⟨tableFits, rfl⟩⟩, (), [values], _, rfl,
        ⟨values, rfl, valuesKw⟩, (), [lparen], _, rfl, ⟨lparen, rfl, opened⟩, _, [number], _, rfl,
        ⟨number, rfl, numeric, denotes⟩, (), [comma], _, rfl, ⟨comma, rfl, separated⟩, name.value,
        [name], _, rfl, ⟨name, rfl, quoted, copyChecked_iff.mpr ⟨nameFits, rfl⟩⟩, (),
          [rparen], _, rfl,
        ⟨rparen, rfl, closed⟩, (), [semicolon], [], rfl, ⟨semicolon, rfl, ended⟩, rfl, rfl⟩

/-! ## What is left behind a statement -/

/-- A step that never reports trailing tokens. -/
private def NoTrailing (step : Parse α) : Prop := ∀ p, step p ≠ .error .trailingTokens

private theorem NoTrailing.bind {step : Parse α} {next : α → Parse β} (head : NoTrailing step)
    (tail : ∀ value, NoTrailing (next value)) : NoTrailing (step >>= next) := by
  intro p ran
  rw [bind_run] at ran
  cases stepped : step p with
  | error status =>
    simp only [stepped, Except.error.injEq] at ran
    exact head p (ran ▸ stepped)
  | ok read =>
    simp only [stepped] at ran
    exact tail read.1 read.2 ran

private theorem NoTrailing.pure (value : α) : NoTrailing (Pure.pure value : Parse α) := by
  intro p ran
  cases ran

private theorem NoTrailing.missing : NoTrailing (SqlEngine.missing : Parse α) := by
  intro p ran
  simp only [SqlEngine.missing, bind_run, get_run, throw_run, missingTokenStatus] at ran
  split at ran <;> cases ran

private theorem NoTrailing.throw (different : status ≠ .trailingTokens) :
    NoTrailing (MonadExcept.throw status : Parse α) := by
  intro p ran
  cases ran
  exact different rfl

private theorem NoTrailing.ite {test : Bool} {first second : Parse α} (left : NoTrailing first)
    (right : NoTrailing second) :
    NoTrailing (if test then first else second) := by
  cases test
  · exact right
  · exact left

private theorem NoTrailing.branch {next : Bool → Parse α}
    (both : ∀ found, NoTrailing (next found)) :
    NoTrailing (parserMatch type >>= next) := by
  refine NoTrailing.bind ?_ both
  intro p ran
  rw [match_run] at ran
  split at ran <;> cases ran

private theorem NoTrailing.test {next : Parser → Parse α} (all : ∀ p, NoTrailing (next p)) :
    NoTrailing (get >>= next) := NoTrailing.bind (fun p ran => by cases ran) all

private theorem NoTrailing.require : NoTrailing (parserRequire type) :=
  NoTrailing.branch fun found => by cases found; exacts [.missing, .pure ()]

private theorem NoTrailing.take (different : refused ≠ .trailingTokens) :
    NoTrailing (parserTake type convert refused : Parse α) := by
  refine NoTrailing.test fun p => .ite .missing ?_
  cases convert (parserPeek p).value with
  | none => exact .throw different
  | some value => exact NoTrailing.bind (fun p ran => by cases ran) fun _ => .pure value

private theorem NoTrailing.moreColumns (room : Nat) : NoTrailing (parseMoreColumns room) := by
  induction room with
  | zero =>
    exact .branch fun found => .ite (.pure []) (.test fun p => .ite .missing (.throw (by decide)))
  | succ room ih =>
    exact .branch fun found => .ite (.pure []) (.bind (.take (by decide)) fun column =>
      .bind ih fun columns => .pure (column :: columns))

private theorem NoTrailing.selectList : NoTrailing parseSelectList :=
  .branch fun found => .ite (.pure _) (.test fun p => .ite (.bind (.take (by decide)) fun _ =>
    .bind (.moreColumns _) fun _ => .pure _) .missing)

private theorem NoTrailing.whereClause : NoTrailing parseWhere :=
  .branch fun found => .ite (.bind (.take (by decide)) fun _ => .bind .require fun _ =>
    .bind (.test fun p => .ite (.bind (.take (by decide)) fun _ => .pure _)
      (.test fun q => .ite (.bind (.take (by decide)) fun _ => .pure _) .missing)) fun _ => .pure _)
    (.pure _)

private theorem NoTrailing.selectStatement : NoTrailing parseSelectStatement :=
  .branch fun found => .ite (.throw (by decide)) (.bind .selectList fun _ => .bind .require fun _ =>
    .bind (.take (by decide)) fun _ => .bind .whereClause fun _ => .bind .require fun _ => .pure _)

private theorem NoTrailing.insertStatement : NoTrailing parseInsertStatement :=
  .branch fun found => .ite (.throw (by decide))
    (.bind .require fun _ => .bind (.take (by decide)) fun _ =>
    .bind .require fun _ => .bind .require fun _ => .bind (.take (by decide)) fun _ =>
    .bind .require fun _ => .bind (.take (by decide)) fun _ => .bind .require fun _ =>
    .bind .require fun _ => .pure _)

private theorem atEnd_iff (here : At p tokens) : parserAtEnd p = true ↔ tokens = [] := by
  cases tokens with
  | nil => simpa using (rest_nil here.1 here.2).2
  | cons token rest => simpa using (rest_cons here.1 here.2).2.2.1

private theorem finished {step : Parse AST} (recognized : Recognizes step relation fun _ => True)
    (quiet : NoTrailing step) (here : At p tokens) :
    (∀ ast, ((step >>= parserFinish) p).map Prod.fst = .ok ast ↔ relation tokens ast) ∧
    (((step >>= parserFinish) p).map Prod.fst = .error .trailingTokens ↔
      ∃ front behind found, tokens = front ++ behind ∧ behind ≠ [] ∧ relation front found) := by
  obtain ⟨sound, complete⟩ := recognized p tokens here
  have finish : ∀ found q behind, step p = .ok (found, q) → At q behind →
      (step >>= parserFinish) p =
        if behind = [] then .ok (found, q) else .error .trailingTokens := by
    intro found q behind stepped there
    rw [bind_run, stepped]
    simp only [parserFinish, bind_run, get_run]
    by_cases ended : behind = []
    · simp [ended, (atEnd_iff there).mpr ended, pure_run]
    · have more : ¬ parserAtEnd q = true := fun atEnd => ended ((atEnd_iff there).mp atEnd)
      simp [ended, more, throw_run]
  have read : ∀ front behind found, tokens = front ++ behind → relation front found →
      ((step >>= parserFinish) p).map Prod.fst =
        if behind = [] then .ok found else .error .trailingTokens := by
    intro front behind found split member
    obtain ⟨q, stepped, there⟩ := complete front behind found split member trivial
    rw [finish found q behind stepped there]
    split <;> rfl
  constructor
  · intro ast
    constructor
    · intro accepted
      cases stepped : step p with
      | error status => simp [bind_run, stepped, Except.map] at accepted
      | ok result =>
        obtain ⟨found, q⟩ := result
        obtain ⟨front, behind, split, member, there⟩ := sound found q stepped
        rw [read front behind found split member] at accepted
        split at accepted
        · rename_i ended
          cases accepted
          rwa [split, ended, List.append_nil]
        · cases accepted
    · intro member
      exact read tokens [] ast (List.append_nil _).symm member
  · constructor
    · intro refused
      cases stepped : step p with
      | error status =>
        simp only [bind_run, stepped, Except.map, Except.error.injEq] at refused
        exact absurd (refused ▸ stepped) (quiet p)
      | ok result =>
        obtain ⟨found, q⟩ := result
        obtain ⟨front, behind, split, member, there⟩ := sound found q stepped
        rw [read front behind found split member] at refused
        split at refused
        · cases refused
        · rename_i more
          exact ⟨front, behind, found, split, more, member⟩
    · rintro ⟨front, behind, found, split, more, member⟩
      rw [read front behind found split member, if_neg more]

theorem statement_head (statement : Statement tokens ast) :
    ∃ kw rest, tokens = kw :: rest ∧
      ((kw.type = .selectKw ∧ ∃ query, ast = .select query) ∨
        (kw.type = .insertKw ∧ ∃ query, ast = .insert query)) := by
  cases statement with
  | select kw _ _ _ selectKw _ _ _ _ _ _ => exact ⟨kw, _, rfl, .inl ⟨selectKw, _, rfl⟩⟩
  | insert kw _ _ _ _ _ _ _ _ _ insertKw => exact ⟨kw, _, rfl, .inr ⟨insertKw, _, rfl⟩⟩

theorem at_init (valid : buffer.Valid) : At (parserInit buffer) buffer.statement := by
  refine ⟨valid, ?_⟩
  simp [Parser.rest, parserInit, TokenBuffer.statement]

/-- What a parse of some tokens decides about statements. -/
private structure Decided (result : Except ParseStatus AST) (tokens : List Token) : Prop where
  accepts : ∀ ast, result = .ok ast ↔ Statement tokens ast
  trails : result = .error .trailingTokens ↔
    ∃ front behind ast, tokens = front ++ behind ∧ behind ≠ [] ∧ Statement front ast

private theorem decided {step : Parse AST} {kind : AST → Prop}
    (recognized : Recognizes step (fun tokens ast => Statement tokens ast ∧ kind ast) fun _ => True)
    (quiet : NoTrailing step) (here : At p tokens)
    (only : ∀ front behind ast, tokens = front ++ behind → Statement front ast → kind ast)
    (ran : result = ((step >>= parserFinish) p).map Prod.fst) : Decided result tokens := by
  subst ran
  obtain ⟨accepted, refused⟩ := finished recognized quiet here
  refine ⟨fun ast => (accepted ast).trans ⟨And.left, fun statement => ⟨statement, ?_⟩⟩,
    refused.trans ⟨?_, ?_⟩⟩
  · exact only tokens [] ast (List.append_nil _).symm statement
  · rintro ⟨front, behind, ast, split, more, statement, _⟩
    exact ⟨front, behind, ast, split, more, statement⟩
  · rintro ⟨front, behind, ast, split, more, statement⟩
    exact ⟨front, behind, ast, split, more, statement, only front behind ast split statement⟩

private theorem parse_decided (valid : buffer.Valid) :
    Decided (parseTokens buffer) buffer.statement := by
  have here := at_init valid
  have nonNull : ¬ (buffer.data = none ∧ buffer.count ≠ 0) := fun null => null.2 (valid.null null.1)
  have selects := check_iff .selectKw here (by decide)
  have inserts := check_iff .insertKw here (by decide)
  by_cases isSelect : parserCheck (parserInit buffer) .selectKw = true
  · obtain ⟨token, rest, split, typed⟩ := selects.mp isSelect
    apply decided Recognizes.selectStatement NoTrailing.selectStatement here
    · intro front behind ast split' statement
      obtain ⟨kw, others, rfl, kind⟩ := statement_head statement
      rw [split, List.cons_append, List.cons.injEq] at split'
      rcases kind with ⟨_, select⟩ | ⟨insertKw, _⟩
      · exact select
      · rw [← split'.1, typed] at insertKw
        cases insertKw
    · simp only [parseTokens, nonNull, ↓reduceIte, isSelect]
      rfl
  · by_cases isInsert : parserCheck (parserInit buffer) .insertKw = true
    · obtain ⟨token, rest, split, typed⟩ := inserts.mp isInsert
      apply decided Recognizes.insertStatement NoTrailing.insertStatement here
      · intro front behind ast split' statement
        obtain ⟨kw, others, rfl, kind⟩ := statement_head statement
        rw [split, List.cons_append, List.cons.injEq] at split'
        rcases kind with ⟨selectKw, _⟩ | ⟨_, insert⟩
        · rw [← split'.1, typed] at selectKw
          cases selectKw
        · exact insert
      · simp only [parseTokens, nonNull, isSelect, isInsert, Bool.false_eq_true, ↓reduceIte]
        rfl
    · -- Neither keyword: no front part is a statement, and neither status is returned.
      have none_starts : ∀ front behind ast, buffer.statement = front ++ behind →
          ¬ Statement front ast := by
        intro front behind ast split statement
        obtain ⟨kw, others, rfl, kind⟩ := statement_head statement
        rcases kind with ⟨selectKw, _⟩ | ⟨insertKw, _⟩
        · exact isSelect (selects.mpr ⟨kw, others ++ behind, split, selectKw⟩)
        · exact isInsert (inserts.mpr ⟨kw, others ++ behind, split, insertKw⟩)
      have refused : ∃ status, parseTokens buffer = .error status ∧ status ≠ .trailingTokens := by
        simp only [parseTokens, nonNull, isSelect, isInsert, Bool.false_eq_true, ↓reduceIte]
        split
        · exact ⟨_, rfl, by decide⟩
        · exact ⟨_, rfl, by decide⟩
      obtain ⟨status, failed, other⟩ := refused
      rw [failed]
      refine ⟨fun ast => ⟨nofun, fun statement => ?_⟩, ⟨fun trailing => ?_, ?_⟩⟩
      · exact absurd statement (none_starts _ [] ast (List.append_nil _).symm)
      · cases trailing
        exact absurd rfl other
      · rintro ⟨front, behind, ast, split, _, statement⟩
        exact absurd statement (none_starts front behind ast split)

/-- The parser returns the syntax trees of the statements of the grammar. -/
theorem parseTokens_ok_iff (valid : buffer.Valid) :
    parseTokens buffer = .ok ast ↔ Statement buffer.statement ast :=
  (parse_decided valid).accepts ast

/-- The parser reports trailing tokens where a proper front part of the tokens is a statement. -/
theorem parseTokens_trailing_iff (valid : buffer.Valid) :
    parseTokens buffer = .error .trailingTokens ↔
    ∃ front behind ast, buffer.statement = front ++ behind ∧ behind ≠ [] ∧ Statement front ast :=
  (parse_decided valid).trails

/-- The parser returns a syntax tree exactly for the statements of the grammar, and
exactly that statement's tree. It reports trailing tokens exactly when a proper front
part of the tokens is a statement. -/
theorem parse_accepts_grammar (buffer : TokenBuffer) (valid : buffer.Valid) :
    (∀ ast, parseTokens buffer = .ok ast ↔ Statement buffer.statement ast) ∧
    (parseTokens buffer = .error .trailingTokens ↔
      ∃ front behind ast, buffer.statement = front ++ behind ∧ behind ≠ [] ∧ Statement front ast) :=
  ⟨fun _ => parseTokens_ok_iff valid, parseTokens_trailing_iff valid⟩

/-- A one-column SELECT in a buffer without an EOF token. -/
theorem parse_accepts_select : ∃ buffer : TokenBuffer, buffer.count = 5 ∧
    ((∀ ast, parseTokens buffer = .ok ast ↔ Statement buffer.statement ast) ∧
    (parseTokens buffer = .error .trailingTokens ↔
      ∃ front behind ast, buffer.statement = front ++ behind ∧ behind ≠ [] ∧
        Statement front ast)) :=
  ⟨{ data := some [⟨.selectKw, str "SELECT"⟩, ⟨.identifier, str "id"⟩, ⟨.fromKw, str "FROM"⟩,
      ⟨.identifier, str "t"⟩, ⟨.semicolon, str ";"⟩], count := 5 }, rfl,
    parse_accepts_grammar _ ⟨nofun, by rintro data ⟨⟩; exact Nat.le_refl 5⟩⟩

/-! ## Steps in front of a token or of the end -/

/-- In front of a token a test compares types. -/
theorem check_token (here : At p (token :: rest)) :
    parserCheck p type = decide (token.type = type) := by
  unfold parserCheck
  rw [(rest_cons here.1 here.2).1]
  rfl

/-- At the end no test of a proper type succeeds. -/
theorem unlike_end (proper : type ≠ .eof) (there : At p []) : parserCheck p type = false := by
  simpa using mt (check_iff type there proper).mp (by simp)

theorem test_run {taken other : Parse α} (p : Parser) :
    (get >>= fun p => if parserCheck p type then taken else other) p =
      (if parserCheck p type then taken else other) p := by
  rw [bind_run, get_run]

theorem missing_token (here : At p (token :: rest)) : (missing : Parse α) p = .error .error := by
  simp only [missing, bind_run, get_run, throw_run, missingTokenStatus,
    (rest_cons here.1 here.2).2.2.1,
    Bool.false_eq_true, ↓reduceIte]

theorem missing_end (there : At p []) : (missing : Parse α) p = .error .unexpectedEof := by
  simp only [missing, bind_run, get_run, throw_run, missingTokenStatus,
    (rest_nil there.1 there.2).2, ↓reduceIte]

theorem match_token (here : At p (token :: rest)) :
    parserMatch type p = if token.type = type then .ok (true, parserAdvance p)
      else .ok (false, p) := by
  rw [match_run, check_token here]
  by_cases typed : token.type = type <;> simp [typed]

theorem match_end (there : At p []) (proper : type ≠ .eof) :
    parserMatch type p = .ok (false, p) := by
  rw [match_run, unlike_end proper there]
  rfl

/-- A required token is taken off, or reported. -/
theorem require_token (here : At p (token :: rest)) :
    parserRequire type p = if token.type = type then .ok ((), parserAdvance p)
      else .error .error := by
  unfold parserRequire
  rw [bind_run, match_token here]
  by_cases typed : token.type = type
  · simp [typed, pure_run]
  · simp [typed, missing_token here]

/-- A token with a value is taken off with its value converted; a value that cannot be is
refused. -/
theorem take_token (here : At p (token :: rest)) (convert : Bytes → Option α)
    (refused : ParseStatus) :
    parserTake type convert refused p =
      if token.type = type then
        match convert token.value with
        | none => .error refused
        | some value => .ok (value, parserAdvance p)
      else .error .error := by
  unfold parserTake
  rw [bind_run, get_run]
  dsimp only
  rw [check_token here, (rest_cons here.1 here.2).1]
  by_cases typed : token.type = type
  · simp only [typed, decide_true, Bool.not_true, Bool.false_eq_true, ↓reduceIte]
    cases convert token.value <;> rfl
  · simp only [typed, decide_false, Bool.not_false, ↓reduceIte, missing_token here]

/-- At the end every token with a value is cut off. -/
theorem take_end (there : At p []) (proper : type ≠ .eof) (convert : Bytes → Option α)
    (refused : ParseStatus) :
    parserTake type convert refused p = .error .unexpectedEof := by
  simp only [parserTake, bind_run, get_run, unlike_end proper there, Bool.not_false, ↓reduceIte]
  exact missing_end there

/-- What a parse comes to: its keyword, its body and the end of the tokens. -/
def headedParse (type : TokenType) (body : Parse AST) : Parse AST :=
  (parserMatch type >>= fun found => if (!found) = true then throw .error else body) >>=
    parserFinish

/-- Behind its keyword a statement is its body and the end. -/
theorem headedParse_run {body : Parse AST} (here : At p (token :: rest))
    (typed : token.type = type) :
    headedParse type body p = (body >>= parserFinish) (parserAdvance p) := by
  unfold headedParse
  rw [bind_run, bind_run, match_token here, if_pos typed, bind_run body]
  rfl

/-- Without a token the statement is cut off. -/
theorem parse_empty (valid : buffer.Valid) (empty : buffer.statement = []) :
    parseTokens buffer = .error .unexpectedEof := by
  have here := at_init valid
  rw [empty] at here
  have nonNull : ¬ (buffer.data = none ∧ buffer.count ≠ 0) := fun null => null.2 (valid.null null.1)
  rw [parseTokens, if_neg nonNull]
  dsimp only
  rw [unlike_end (by decide) here, unlike_end (by decide) here, (atEnd_iff here).mpr rfl]
  rfl

/-- The first token decides which kind of statement is parsed. -/
theorem parse_headed (valid : buffer.Valid) (headed : buffer.statement = token :: rest) :
    parseTokens buffer =
      if token.type = .selectKw then
        (headedParse .selectKw parseSelectBody (parserInit buffer)).map Prod.fst
      else if token.type = .insertKw then
        (headedParse .insertKw parseInsertBody (parserInit buffer)).map Prod.fst
      else .error .error := by
  have here := at_init valid
  rw [headed] at here
  have nonNull : ¬ (buffer.data = none ∧ buffer.count ≠ 0) := fun null => null.2 (valid.null null.1)
  have more : ¬ parserAtEnd (parserInit buffer) = true :=
    fun ended => List.cons_ne_nil _ _ ((atEnd_iff here).mp ended)
  rw [parseTokens, if_neg nonNull]
  dsimp only
  rw [check_token here, check_token here, if_neg more]
  simp only [decide_eq_true_eq]
  rfl

/-! ## Truncated statements

A step looks at one token at a time. On tokens that are cut off it does what it does on
all of them, until it comes to the end. -/

/-- A step comes to the end of the tokens, or reports it. -/
private def RunsOut (step : Parse α) (q : Parser) : Prop :=
  step q = .error .unexpectedEof ∨ ∃ value r, step q = .ok (value, r) ∧ At r []

private structure Truncates (step : Parse α) : Prop where
  ends : ∀ q, At q [] → RunsOut step q
  cut : ∀ p q front rest value r, At p (front ++ rest) → At q front → step p = .ok (value, r) →
    (∃ left s, At r (left ++ rest) ∧ step q = .ok (value, s) ∧ At s left) ∨ RunsOut step q

private theorem Truncates.pure (value : α) : Truncates (Pure.pure value : Parse α) where
  ends q there := .inr ⟨value, q, rfl, there⟩
  cut p q front rest found r here there ran := by
    cases ran
    exact .inl ⟨front, q, here, rfl, there⟩

private theorem Truncates.failing {step : Parse α}
    (ends : ∀ q, At q [] → step q = .error .unexpectedEof)
    (fails : ∀ p value r, step p ≠ .ok (value, r)) :
    Truncates step where
  ends q there := .inl (ends q there)
  cut p _ _ _ value r _ _ ran := absurd ran (fails p value r)

private theorem missing_fails (p : Parser) (value : α) (r : Parser) :
    (missing : Parse α) p ≠ .ok (value, r) := by
  simp [missing, bind_run, get_run, throw_run]

private theorem Truncates.missing : Truncates (SqlEngine.missing : Parse α) :=
  .failing (fun _ there => missing_end there) missing_fails

private theorem Truncates.bind {step : Parse α} {next : α → Parse β} (head : Truncates step)
    (tail : ∀ value, Truncates (next value)) : Truncates (step >>= next) := by
  have onward : ∀ q, RunsOut step q → RunsOut (step >>= next) q := by
    rintro q (reported | ⟨value, r, stepped, finish⟩)
    · exact .inl (by rw [bind_run, reported])
    · rcases (tail value).ends r finish with reported | ⟨found, s, ran, last⟩
      · exact .inl (by rw [bind_run, stepped]; exact reported)
      · exact .inr ⟨found, s, by rw [bind_run, stepped]; exact ran, last⟩
  refine ⟨fun q there => onward q (head.ends q there),
    fun p q front rest found r here there ran => ?_⟩
  rw [bind_run] at ran
  cases stepped : step p with
  | error status => simp [stepped] at ran
  | ok read =>
    obtain ⟨value, s⟩ := read
    simp only [stepped] at ran
    rcases head.cut p q front rest value s here there stepped with
        ⟨left, t, onP, steppedQ, onQ⟩ | out
    · have same : (step >>= next) q = next value t := by rw [bind_run, steppedQ]
      unfold RunsOut
      rw [same]
      exact (tail value).cut s t left rest found r onP onQ ran
    · exact .inr (onward q out)

private theorem Truncates.ite {test : Bool} {first second : Parse α} (left : Truncates first)
    (right : Truncates second) : Truncates (if test then first else second) := by
  cases test
  · exact right
  · exact left

private theorem Truncates.test {taken other : Parse α} (proper : type ≠ .eof)
    (hit : Truncates taken) (missed : Truncates other) :
    Truncates (get >>= fun p => if parserCheck p type then taken else other) := by
  have ends : ∀ q, At q [] →
      RunsOut (get >>= fun p => if parserCheck p type then taken else other) q := by
    intro q there
    unfold RunsOut
    rw [test_run, unlike_end proper there]
    exact missed.ends q there
  refine ⟨ends, fun p q front rest value r here there ran => ?_⟩
  cases front with
  | nil => exact .inr (ends q there)
  | cons token left =>
    rw [test_run, check_token here] at ran
    unfold RunsOut
    rw [test_run, check_token there]
    by_cases typed : token.type = type
    · rw [decide_eq_true typed, if_pos rfl] at ran ⊢
      exact hit.cut p q _ rest value r here there ran
    · rw [decide_eq_false typed, if_neg Bool.false_ne_true] at ran ⊢
      exact missed.cut p q _ rest value r here there ran

private theorem Truncates.match (proper : type ≠ .eof) : Truncates (parserMatch type) := by
  have ends : ∀ q, At q [] → RunsOut (parserMatch type) q := by
    intro q there
    exact .inr ⟨false, q, match_end there proper, there⟩
  refine ⟨ends, fun p q front rest value r here there ran => ?_⟩
  cases front with
  | nil => exact .inr (ends q there)
  | cons token left =>
    rw [match_token here] at ran
    rw [match_token there]
    split at ran <;> rename_i typed <;> cases ran
    · exact .inl ⟨left, _, at_advance here, if_pos typed, at_advance there⟩
    · exact .inl ⟨token :: left, q, here, if_neg typed, there⟩

private theorem Truncates.require (proper : type ≠ .eof) : Truncates (parserRequire type) :=
  .bind (.match proper) fun found => by cases found; exacts [.missing, .pure ()]

private theorem Truncates.take (proper : type ≠ .eof) (convert : Bytes → Option α)
    (refused : ParseStatus) :
    Truncates (parserTake type convert refused) := by
  refine ⟨fun q there => .inl (take_end there proper convert refused),
    fun p q front rest value r here there ran => ?_⟩
  cases front with
  | nil => exact .inr (.inl (take_end there proper convert refused))
  | cons token left =>
    rw [take_token here] at ran
    split at ran
    · rename_i typed
      cases converted : convert token.value with
      | none =>
        rw [converted] at ran
        cases ran
      | some result =>
        rw [converted] at ran
        cases ran
        refine .inl ⟨left, _, at_advance here, ?_, at_advance there⟩
        rw [take_token there, if_pos typed, converted]
    · cases ran

private theorem Truncates.moreColumns (room : Nat) : Truncates (parseMoreColumns room) := by
  induction room with
  | zero =>
    refine .bind (.match (by decide)) fun found => .ite (.pure []) (.failing ?_ ?_)
    · intro q there
      simp only [bind_run, get_run, unlike_end (show TokenType.identifier ≠ .eof by decide) there,
        Bool.not_false, ↓reduceIte]
      exact missing_end there
    · intro p value r ran
      simp only [bind_run, get_run] at ran
      split at ran
      · exact missing_fails p value r ran
      · cases ran
  | succ room ih =>
    exact .bind (.match (by decide)) fun found =>
      .ite (.pure []) (.bind (.take (by decide) _ _) fun column =>
      .bind ih fun columns => .pure (column :: columns))

private theorem Truncates.selectList : Truncates parseSelectList :=
  .bind (.match (by decide)) fun found => .ite (.pure _) (.test (by decide)
    (.bind (.take (by decide) _ _) fun _ => .bind (.moreColumns _) fun _ => .pure _) .missing)

private theorem Truncates.whereClause : Truncates parseWhere :=
  .bind (.match (by decide)) fun found => .ite (.bind (.take (by decide) _ _) fun _ =>
    .bind (.require (by decide)) fun _ =>
      .bind (.test (by decide) (.bind (.take (by decide) _ _) fun _ => .pure _)
      (.test (by decide) (.bind (.take (by decide) _ _) fun _ => .pure _) .missing)) fun _ =>
        .pure _) (.pure _)

theorem finish_run (ast : AST) (p : Parser) :
    parserFinish ast p = if parserAtEnd p then .ok (ast, p) else .error .trailingTokens := by
  simp only [parserFinish, bind_run, get_run]
  cases parserAtEnd p <;> rfl

private theorem Truncates.finish (ast : AST) : Truncates (parserFinish ast) := by
  have ends : ∀ q, At q [] → RunsOut (parserFinish ast) q := by
    intro q there
    exact .inr ⟨ast, q, by rw [finish_run, (atEnd_iff there).mpr rfl, if_pos rfl], there⟩
  refine ⟨ends, fun p q front rest value r here there ran => ?_⟩
  rw [finish_run] at ran
  split at ran
  · rename_i ended
    obtain ⟨rfl, _⟩ := List.append_eq_nil_iff.mp ((atEnd_iff here).mp ended)
    exact .inr (ends q there)
  · cases ran

private theorem Truncates.selectBody : Truncates parseSelectBody :=
  .bind .selectList fun _ => .bind (.require (by decide)) fun _ =>
    .bind (.take (by decide) _ _) fun _ =>
    .bind .whereClause fun _ => .bind (.require (by decide)) fun _ => .pure _

private theorem Truncates.insertBody : Truncates parseInsertBody :=
  .bind (.require (by decide)) fun _ =>
    .bind (.take (by decide) _ _) fun _ => .bind (.require (by decide)) fun _ =>
    .bind (.require (by decide)) fun _ =>
    .bind (.take (by decide) _ _) fun _ => .bind (.require (by decide)) fun _ =>
    .bind (.take (by decide) _ _) fun _ => .bind (.require (by decide)) fun _ =>
    .bind (.require (by decide)) fun _ =>
    .pure _

private theorem truncated_body {body : Parse AST} (truncates : Truncates body)
    (here : At p (token :: front ++ rest)) (there : At q (token :: front))
    (typed : token.type = type) (ran : (headedParse type body p).map Prod.fst = .ok ast) :
    (headedParse type body q).map Prod.fst = .error .unexpectedEof ∨
    ∃ found, (headedParse type body q).map Prod.fst = .ok found := by
  -- What a parse behind its keyword does with a part of the tokens.
  rw [headedParse_run here typed] at ran
  rw [headedParse_run there typed]
  cases finished : (body >>= parserFinish) (parserAdvance p) with
  | error status => simp [finished, Except.map] at ran
  | ok read =>
    obtain ⟨found, r⟩ := read
    rcases (truncates.bind Truncates.finish).cut _ _ front rest found r (at_advance here)
        (at_advance there)
      finished with ⟨_, s, _, done, _⟩ | reported | ⟨other, s, done, _⟩
    · exact .inr ⟨found, by rw [done]; rfl⟩
    · exact .inl (by rw [reported]; rfl)
    · exact .inr ⟨other, by rw [done]; rfl⟩

private theorem parseTokens_front {short : TokenBuffer} (valid : buffer.Valid)
    (validShort : short.Valid) (split : buffer.statement = short.statement ++ rest)
    (accepted : parseTokens buffer = .ok ast) :
    parseTokens short = .error .unexpectedEof ∨ ∃ found, parseTokens short = .ok found := by
  have here := at_init valid
  have there := at_init validShort
  rw [split] at here
  cases read : short.statement with
  | nil => exact .inl (parse_empty validShort read)
  | cons token front =>
    rw [read] at here there split
    rw [parse_headed valid split] at accepted
    rw [parse_headed validShort read]
    split at accepted
    · rename_i select
      rw [if_pos select]
      exact truncated_body .selectBody here there select accepted
    · rename_i noSelect
      rw [if_neg noSelect]
      split at accepted
      · rename_i insert
        rw [if_pos insert]
        exact truncated_body .insertBody here there insert accepted
      · cases accepted

/-- A proper front part of a statement is no statement, and is reported as cut off. -/
theorem parseTokens_truncated {short : TokenBuffer} (valid : buffer.Valid)
    (validShort : short.Valid) (split : buffer.statement = short.statement ++ rest)
    (proper : rest ≠ []) (accepted : parseTokens buffer = .ok ast) :
    parseTokens short = .error .unexpectedEof := by
  rcases parseTokens_front valid validShort split accepted with reported | ⟨found, finished⟩
  · exact reported
  · have statement := (parseTokens_ok_iff validShort).mp finished
    rw [(parseTokens_trailing_iff valid).mpr ⟨_, rest, found, split, proper, statement⟩] at accepted
    cases accepted

/-- The tokens of a buffer that was cut off in front of any EOF token. -/
theorem statement_cut {tokens behind : List Token}
    (proper : ∀ token ∈ tokens, (token.type != .eof) = true) :
    TokenBuffer.statement { data := some (tokens ++ behind), count := tokens.length } = tokens := by
  simp only [TokenBuffer.statement, Option.getD_some, List.take_left]
  exact List.takeWhile_eq_self_iff.mpr proper

private theorem statement_ended {tokens behind : List Token} {eof : Token} (ended : eof.type = .eof)
    (proper : ∀ token ∈ tokens, (token.type != .eof) = true) :
    TokenBuffer.statement
        { data := some (tokens ++ eof :: behind), count := tokens.length + 1 + behind.length } =
      tokens := by
  have whole : (tokens ++ eof :: behind).take (tokens.length + 1 + behind.length) =
      tokens ++ eof :: behind :=
    List.take_of_length_le (by simp only [List.length_append, List.length_cons]; omega)
  simp only [TokenBuffer.statement, Option.getD_some, whole]
  rw [List.takeWhile_append_of_pos proper]
  simp [ended]

/-- Every proper front part of a statement is reported as cut off, whether the buffer ends
with it or an EOF token follows. -/
theorem truncated_statement_unexpected_eof {k : Nat} (valid : buffer.Valid)
    (accepted : parseTokens buffer = .ok ast) (less : k < buffer.statement.length)
    (behind : List Token) :
    parseTokens { data := some (buffer.statement.take k ++ behind), count := k } =
      .error .unexpectedEof ∧
    ∀ eof, eof.type = .eof →
      parseTokens
          { data := some (buffer.statement.take k ++ eof :: behind), count := k + 1 + behind.length } =
        .error .unexpectedEof := by
  have split : buffer.statement = buffer.statement.take k ++ buffer.statement.drop k :=
    (List.take_append_drop k _).symm
  have proper : buffer.statement.drop k ≠ [] := by simpa using less
  have length : k = (buffer.statement.take k).length :=
    (List.length_take_of_le (Nat.le_of_lt less)).symm
  have front : ∀ token ∈ buffer.statement.take k, (token.type != .eof) = true := fun token among =>
    List.mem_takeWhile_imp (p := fun t : Token => t.type != .eof) (List.mem_of_mem_take among)
  generalize buffer.statement.take k = cut at split length front ⊢
  subst length
  refine ⟨parseTokens_truncated valid ⟨nofun, ?_⟩
    (by rw [statement_cut front]; exact split) proper accepted,
    fun eof ended => parseTokens_truncated valid ⟨nofun, ?_⟩
      (by rw [statement_ended ended front]; exact split)
      proper accepted⟩
  · rintro data ⟨⟩
    simp
  · rintro data ⟨⟩
    simp only [List.length_append, List.length_cons]
    omega

private def selectBuffer : TokenBuffer :=
  { data := some [⟨.selectKw, str "SELECT"⟩, ⟨.identifier, str "id"⟩, ⟨.fromKw, str "FROM"⟩,
    ⟨.identifier, str "t"⟩,
      ⟨.semicolon, str ";"⟩]
    count := 5 }

/-- `SELECT id FROM t ;` without its semicolon. -/
theorem truncated_select_unexpected_eof :
    parseTokens { data := some (selectBuffer.statement.take 4 ++ []), count := 4 } =
      .error .unexpectedEof := by
  have valid : selectBuffer.Valid := ⟨nofun, by rintro data ⟨⟩; exact Nat.le_refl 5⟩
  have accepted : parseTokens selectBuffer =
      .ok (.select (selectQuery (false, [str "id"]) (str "t") none)) := rfl
  exact (truncated_statement_unexpected_eof valid accepted (by decide) []).1

end SqlEngine
