import SqlEngine.SyntaxErrors

/-! Where an error is found: at the first token that fits no statement. A step of the parser
looks one token ahead, so what it does is decided by the tokens up to there. -/
namespace SqlEngine

variable {p q r : Parser} {tokens rest : List Token} {token : Token} {type : TokenType}
    {status : ParseStatus} {α β : Type}

/-- A step whose outcome is decided by what it has read and the token behind it. -/
structure Local (step : Parse α) : Prop where
  done : ∀ p tokens value r, At p tokens → step p = .ok (value, r) →
    ∃ used behind, tokens = used ++ behind ∧ At r behind ∧
    ∀ q other, At q (used ++ other) → other.head? = behind.head? →
      ∃ s, step q = .ok (value, s) ∧ At s other
  failed : ∀ p tokens status, At p tokens → step p = .error status → status ≠ .unexpectedEof →
    ∃ front token rest, tokens = front ++ token :: rest ∧ ∀ q more, At q (front ++ token :: more) →
      step q = .error status

variable {step : Parse α} {next : α → Parse β} {taken missed : Parse α}

private theorem check_ahead (here : At p tokens) (there : At q rest)
    (same : rest.head? = tokens.head?) :
    parserCheck q type = parserCheck p type := by
  -- In front of the same token every test has the same outcome.
  cases tokens with
  | nil =>
    cases rest with
    | nil => rw [parserCheck, parserCheck, (rest_nil here.1 here.2).1, (rest_nil there.1 there.2).1]
    | cons => cases same
  | cons token tokens =>
    cases rest with
    | nil => cases same
    | cons other rest =>
      obtain rfl : other = token := Option.some.inj same
      rw [check_token here, check_token there]

private theorem head_append {used behind other : List Token} (same : other.head? = behind.head?) :
    (used ++ other).head? = (used ++ behind).head? := by
  rw [List.head?_append, List.head?_append, same]

private theorem head_before (front : List Token) (token : Token) (more rest : List Token) :
    (front ++ token :: more).head? = (front ++ token :: rest).head? := by
  cases front <;> rfl

private theorem Local.pure (value : α) : Local (Pure.pure value : Parse α) where
  done p tokens found r here ran := by
    cases ran
    exact ⟨[], tokens, rfl, here, fun q other there _ => ⟨q, rfl, there⟩⟩
  failed p tokens status here ran := by cases ran

private theorem Local.missing : Local (SqlEngine.missing : Parse α) where
  done p tokens value r here ran := by simp [SqlEngine.missing, bind_run, get_run, throw_run] at ran
  failed p tokens status here ran early := by
    cases tokens with
    | nil =>
      rw [missing_end here] at ran
      cases ran
      exact absurd rfl early
    | cons token rest =>
      rw [missing_token here] at ran
      cases ran
      exact ⟨[], token, rest, rfl, fun q more there => missing_token there⟩

private theorem Local.bind (head : Local step) (tail : ∀ value, Local (next value)) :
    Local (step >>= next) where
  done p tokens found r here ran := by
    rw [bind_run] at ran
    cases stepped : step p with
    | error status =>
      rw [stepped] at ran
      cases ran
    | ok read =>
      obtain ⟨value, s⟩ := read
      rw [stepped] at ran
      obtain ⟨used, behind, rfl, there, again⟩ := head.done p tokens value s here stepped
      obtain ⟨more, last, rfl, finish, repeated⟩ := (tail value).done s behind found r there ran
      refine ⟨used ++ more, last, (List.append_assoc ..).symm, finish, fun q other onQ same => ?_⟩
      rw [List.append_assoc] at onQ
      obtain ⟨t, steppedQ, onT⟩ := again q (more ++ other) onQ (head_append same)
      obtain ⟨u, ranQ, onU⟩ := repeated t other onT same
      exact ⟨u, by rw [bind_run, steppedQ]; exact ranQ, onU⟩
  failed p tokens status here ran early := by
    rw [bind_run] at ran
    cases stepped : step p with
    | error reported =>
      rw [stepped] at ran
      cases ran
      obtain ⟨front, token, rest, split, again⟩ := head.failed p tokens status here stepped early
      exact ⟨front, token, rest, split, fun q more onQ => by rw [bind_run, again q more onQ]⟩
    | ok read =>
      obtain ⟨value, s⟩ := read
      rw [stepped] at ran
      obtain ⟨used, behind, rfl, there, again⟩ := head.done p tokens value s here stepped
      obtain ⟨front, token, rest, rfl, repeated⟩ :=
        (tail value).failed s behind status there ran early
      refine ⟨used ++ front, token, rest, (List.append_assoc ..).symm, fun q more onQ => ?_⟩
      rw [List.append_assoc] at onQ
      obtain ⟨t, steppedQ, onT⟩ := again q (front ++ token :: more) onQ (head_before ..)
      rw [bind_run, steppedQ]
      exact repeated t more onT

private theorem Local.ite {test : Bool} (left : Local taken) (right : Local missed) :
    Local (if test then taken else missed) := by
  cases test
  · exact right
  · exact left

private theorem Local.test (hit : Local taken) (other : Local missed) :
    Local (get >>= fun p => if parserCheck p type then taken else missed) where
  done p tokens value r here ran := by
    rw [test_run] at ran
    obtain ⟨used, behind, rfl, there, again⟩ := (hit.ite other).done p tokens value r here ran
    refine ⟨used, behind, rfl, there, fun q more onQ same => ?_⟩
    rw [test_run, check_ahead here onQ (head_append same)]
    exact again q more onQ same
  failed p tokens status here ran early := by
    rw [test_run] at ran
    obtain ⟨front, token, rest, rfl, again⟩ := (hit.ite other).failed p tokens status here ran early
    refine ⟨front, token, rest, rfl, fun q more onQ => ?_⟩
    rw [test_run, check_ahead here onQ (head_before ..)]
    exact again q more onQ

private theorem Local.match (proper : type ≠ .eof) : Local (parserMatch type) where
  done p tokens value r here ran := by
    cases tokens with
    | nil =>
      rw [match_end here proper] at ran
      cases ran
      refine ⟨[], [], rfl, here, fun q other onQ same => ?_⟩
      obtain rfl : other = [] := by simpa using same
      exact ⟨q, match_end onQ proper, onQ⟩
    | cons token rest =>
      rw [match_token here] at ran
      split at ran
      · rename_i typed
        cases ran
        refine ⟨[token], rest, rfl, at_advance here, fun q other onQ same =>
          ⟨parserAdvance q, ?_, at_advance onQ⟩⟩
        rw [match_token (show At q (token :: other) from onQ), if_pos typed]
      · rename_i untyped
        cases ran
        refine ⟨[], token :: rest, rfl, here, fun q other onQ same => ⟨q, ?_, onQ⟩⟩
        rw [match_run, check_ahead here onQ same, check_token here, if_neg (by simpa using untyped)]
  failed p tokens status here ran := by
    rw [match_run] at ran
    split at ran <;> cases ran

private theorem Local.require (proper : type ≠ .eof) : Local (parserRequire type) :=
  .bind (.match proper) fun found => by cases found; exacts [.missing, .pure ()]

private theorem Local.take (convert : Bytes → Option α) (refused : ParseStatus)
    (proper : type ≠ .eof) :
    Local (parserTake type convert refused) where
  done p tokens value r here ran := by
    cases tokens with
    | nil =>
      rw [take_end here proper] at ran
      cases ran
    | cons token rest =>
      rw [take_token here] at ran
      split at ran
      · rename_i typed
        cases converted : convert token.value with
        | none =>
          rw [converted] at ran
          cases ran
        | some result =>
          rw [converted] at ran
          cases ran
          refine ⟨[token], rest, rfl, at_advance here, fun q other onQ same =>
            ⟨parserAdvance q, ?_, at_advance onQ⟩⟩
          rw [take_token (show At q (token :: other) from onQ), if_pos typed, converted]
      · cases ran
  failed p tokens status here ran early := by
    cases tokens with
    | nil =>
      rw [take_end here proper] at ran
      cases ran
      exact absurd rfl early
    | cons token rest =>
      refine ⟨[], token, rest, rfl, fun q more onQ => ?_⟩
      rw [take_token here] at ran
      rw [take_token (show At q (token :: more) from onQ)]
      split at ran
      · rename_i typed
        rw [if_pos typed]
        cases converted : convert token.value with
        | none =>
          rw [converted] at ran
          cases ran
          rfl
        | some result =>
          rw [converted] at ran
          cases ran
      · rename_i untyped
        cases ran
        rw [if_neg untyped]

/-! ## The statements -/

private theorem Local.full : Local (α := α)
    (get >>= fun p => if (!parserCheck p .identifier) = true then SqlEngine.missing
      else throw .error) where
  done p tokens value r here ran := by
    rw [bind_run, get_run] at ran
    dsimp only at ran
    split at ran
    · exact absurd ran (by simp [SqlEngine.missing, bind_run, get_run, throw_run])
    · cases ran
  failed p tokens status here ran early := by
    cases tokens with
    | nil =>
      rw [bind_run, get_run] at ran
      dsimp only at ran
      rw [unlike_end (by decide) here, Bool.not_false, if_pos rfl, missing_end here] at ran
      cases ran
      exact absurd rfl early
    | cons token rest =>
      have reports : ∀ q more, At q (token :: more) →
          (get >>= fun p => if (!parserCheck p .identifier) = true then
            (SqlEngine.missing : Parse α) else throw .error) q =
            .error .error := by
        intro q more onQ
        rw [bind_run, get_run]
        dsimp only
        split
        · exact missing_token onQ
        · rfl
      rw [reports p rest here] at ran
      cases ran
      exact ⟨[], token, rest, rfl, reports⟩

private theorem Local.moreColumns (room : Nat) : Local (parseMoreColumns room) := by
  induction room with
  | zero => exact .bind (.match (by decide)) fun found => .ite (.pure []) .full
  | succ room ih =>
    exact .bind (.match (by decide)) fun found =>
      .ite (.pure []) (.bind (.take _ _ (by decide)) fun column =>
      .bind ih fun columns => .pure (column :: columns))

private theorem Local.selectList : Local parseSelectList :=
  .bind (.match (by decide)) fun found =>
    .ite (.pure _) (.test (.bind (.take _ _ (by decide)) fun _ =>
    .bind (.moreColumns _) fun _ => .pure _) .missing)

private theorem Local.whereClause : Local parseWhere :=
  .bind (.match (by decide)) fun found => .ite (.bind (.take _ _ (by decide)) fun _ =>
    .bind (.require (by decide)) fun _ =>
      .bind (.test (.bind (.take _ _ (by decide)) fun _ => .pure _)
      (.test (.bind (.take _ _ (by decide)) fun _ => .pure _) .missing)) fun _ => .pure _) (.pure _)

private theorem Local.selectBody : Local parseSelectBody :=
  .bind .selectList fun _ => .bind (.require (by decide)) fun _ =>
    .bind (.take _ _ (by decide)) fun _ =>
    .bind .whereClause fun _ => .bind (.require (by decide)) fun _ => .pure _

private theorem Local.insertBody : Local parseInsertBody :=
  .bind (.require (by decide)) fun _ => .bind (.take _ _ (by decide)) fun _ =>
    .bind (.require (by decide)) fun _ =>
    .bind (.require (by decide)) fun _ => .bind (.take _ _ (by decide)) fun _ =>
      .bind (.require (by decide)) fun _ =>
    .bind (.take _ _ (by decide)) fun _ => .bind (.require (by decide)) fun _ =>
      .bind (.require (by decide)) fun _ =>
    .pure _

/-! ## The place of an error -/

private theorem body_failed {body : Parse AST}
    (ran : ((body >>= parserFinish) p).map Prod.fst = .error status)
    (whole : status ≠ .trailingTokens) :
    body p = .error status := by
  rw [bind_run] at ran
  cases read : body p with
  | error reported =>
    rw [read] at ran
    cases ran
    rfl
  | ok result =>
    rw [read] at ran
    dsimp only at ran
    rw [finish_run] at ran
    split at ran <;> cases ran
    exact absurd rfl whole

private theorem body_failed_locally {buffer : TokenBuffer} {body : Parse AST} (bounded : Local body)
    (valid : buffer.Valid) (headed : buffer.statement = token :: tokens) (typed : token.type = type)
    (ran : (headedParse type body (parserInit buffer)).map Prod.fst = .error status)
    (early : status ≠ .unexpectedEof) (whole : status ≠ .trailingTokens) :
    ∃ front misfit rest, token :: tokens = front ++ misfit :: rest ∧ ∀ other :
      TokenBuffer, other.Valid → ∀ more,
      other.statement = front ++ misfit :: more → (∃ rest, other.statement = token :: rest) ∧
        (headedParse type body (parserInit other)).map Prod.fst = .error status := by
  have here := at_init valid
  rw [headed] at here
  rw [headedParse_run here typed] at ran
  obtain ⟨front, misfit, rest, rfl, again⟩ :=
    bounded.failed _ tokens status (at_advance here) (body_failed ran whole) early
  refine ⟨token :: front, misfit, rest, rfl, fun other validOther more begins => ⟨⟨_, begins⟩, ?_⟩⟩
  have there := at_init validOther
  rw [begins, List.cons_append] at there
  rw [headedParse_run there typed, bind_run, again _ more (at_advance there)]
  rfl

private theorem failed_locally {buffer : TokenBuffer} (valid : buffer.Valid)
    (failed : parseTokens buffer = .error status) (early : status ≠ .unexpectedEof)
    (whole : status ≠ .trailingTokens) :
    ∃ front token rest, buffer.statement = front ++ token :: rest ∧ ∀ other :
      TokenBuffer, other.Valid → ∀ more,
      other.statement = front ++ token :: more → parseTokens other = .error status := by
  -- The tokens up to one of them decide how a parse fails.
  cases headed : buffer.statement with
  | nil =>
    rw [parse_empty valid headed] at failed
    cases failed
    exact absurd rfl early
  | cons kw tokens =>
    rw [parse_headed valid headed] at failed
    split at failed
    · rename_i select
      obtain ⟨front, token, rest, split, again⟩ :=
        body_failed_locally Local.selectBody valid headed select failed early whole
      refine ⟨front, token, rest, split, fun other validOther more begins => ?_⟩
      obtain ⟨⟨_, starts⟩, ran⟩ := again other validOther more begins
      rw [parse_headed validOther starts, if_pos select]
      exact ran
    · rename_i noSelect
      split at failed
      · rename_i insert
        obtain ⟨front, token, rest, split, again⟩ :=
          body_failed_locally Local.insertBody valid headed insert failed early whole
        refine ⟨front, token, rest, split, fun other validOther more begins => ?_⟩
        obtain ⟨⟨_, starts⟩, ran⟩ := again other validOther more begins
        rw [parse_headed validOther starts, if_neg noSelect, if_pos insert]
        exact ran
      · rename_i noInsert
        refine ⟨[], kw, tokens, rfl, fun other validOther more begins => ?_⟩
        rw [parse_headed validOther begins, if_neg noSelect, if_neg noInsert]
        exact failed

private theorem first_misfit (n : Nat) {buffer : TokenBuffer} (valid : buffer.Valid)
    (size : buffer.statement.length ≤ n) (failed : parseTokens buffer = .error status)
    (early : status ≠ .unexpectedEof) (whole : status ≠ .trailingTokens) :
    ∃ front token rest, buffer.statement = front ++ token :: rest ∧
      (∀ cut : TokenBuffer, cut.Valid → cut.statement = front →
        parseTokens cut = .error .unexpectedEof) ∧
      ∀ other : TokenBuffer, other.Valid → ∀ more, other.statement = front ++ token :: more →
        parseTokens other = .error status := by
  -- The first such token: what is in front of it is no failure of this kind, or there would be
  -- an earlier one.
  induction n generalizing buffer status with
  | zero =>
    obtain ⟨front, token, rest, split, _⟩ := failed_locally valid failed early whole
    rw [split, List.length_append, List.length_cons] at size
    omega
  | succ n ih =>
    obtain ⟨front, token, rest, split, again⟩ := failed_locally valid failed early whole
    by_cases cutOff : ∀ cut : TokenBuffer, cut.Valid → cut.statement = front →
      parseTokens cut = .error .unexpectedEof
    · exact ⟨front, token, rest, split, cutOff, again⟩
    push Not at cutOff
    obtain ⟨cut, validCut, rfl, other⟩ := cutOff
    have notTrailing : ∀ left right ast, cut.statement = left ++ right → ¬ Statement left ast := by
      intro left right ast leads statement
      have whole_split : buffer.statement = left ++ (right ++ token :: rest) := by
        rw [split, leads, List.append_assoc]
      have trailing := (parseTokens_trailing_iff valid).mpr
        ⟨left, right ++ token :: rest, ast, whole_split, by simp, statement⟩
      rw [failed] at trailing
      cases trailing
      exact whole rfl
    cases parsed : parseTokens cut with
    | ok ast =>
      exact absurd ((parseTokens_ok_iff validCut).mp parsed)
        (notTrailing _ [] ast (List.append_nil _).symm)
    | error reported =>
      have whole' : reported ≠ .trailingTokens := by
        rintro rfl
        obtain ⟨left, right, ast, leads, _, statement⟩ :=
          (parseTokens_trailing_iff validCut).mp parsed
        exact notTrailing left right ast leads statement
      have shorter : cut.statement.length ≤ n := by
        rw [split, List.length_append, List.length_cons] at size
        omega
      obtain ⟨front, first, others, split', ended, again'⟩ :=
        ih validCut shorter parsed (fun same => other (same ▸ parsed)) whole'
      have leads : buffer.statement = front ++ first :: (others ++ token :: rest) :=
        by rw [split, split']; simp
      have same := again' buffer valid _ leads
      rw [failed] at same
      cases same
      exact ⟨front, first, _, leads, ended, again'⟩

private theorem misfit_begins_none {front : List Token}
    (again : ∀ other : TokenBuffer, other.Valid → ∀ more, other.statement = front ++ token :: more →
      parseTokens other = .error status) (more : List Token) (ast : AST) :
        ¬ Statement (front ++ token :: more) ast := by
  intro statement
  obtain ⟨validWhole, holds⟩ := holding_statement statement
  have accepted := (parseTokens_ok_iff validWhole).mpr (holds.symm ▸ statement)
  rw [again _ validWhole more holds] at accepted
  cases accepted

/-- A parse that fails otherwise than for want of tokens or for what is left behind a statement
fails at the first token that fits no statement: what is in front of it is reported as cut off,
every buffer that begins with it fails the same way, and no statement does. -/
theorem error_at_first_misfit {buffer : TokenBuffer} (valid : buffer.Valid)
    (failed : parseTokens buffer = .error status) (early : status ≠ .unexpectedEof)
    (whole : status ≠ .trailingTokens) :
    ∃ front token rest, buffer.statement = front ++ token :: rest ∧
      (∀ cut : TokenBuffer, cut.Valid → cut.statement = front →
        parseTokens cut = .error .unexpectedEof) ∧
      (∀ other : TokenBuffer, other.Valid → ∀ more, other.statement = front ++ token :: more →
        parseTokens other = .error status) ∧
      ∀ more ast, ¬ Statement (front ++ token :: more) ast := by
  obtain ⟨front, token, rest, split, ended, again⟩ :=
    first_misfit _ valid (Nat.le_refl _) failed early whole
  exact ⟨front, token, rest, split, ended, again, misfit_begins_none again⟩

private def selectTwice : TokenBuffer :=
  .holding [⟨.selectKw, str "SELECT"⟩, ⟨.selectKw, str "select"⟩]

/-- The second of two keywords fits no statement. -/
theorem error_at_first_misfit_keyword : parseTokens selectTwice = .error .error ∧
    ∃ front token rest, selectTwice.statement = front ++ token :: rest ∧
      (∀ other : TokenBuffer, other.Valid → ∀ more, other.statement = front ++ token :: more →
        parseTokens other = .error .error) ∧
      ∀ more ast, ¬ Statement (front ++ token :: more) ast := by
  have failed : parseTokens selectTwice = .error .error := rfl
  obtain ⟨front, token, rest, split, _, again, none⟩ :=
    error_at_first_misfit (holding_valid _) failed (by decide) (by decide)
  exact ⟨failed, front, token, rest, split, again, none⟩

/-! ## What is wrong -/

/-- What is wrong with some tokens, and the status that says so: there are more behind a
statement, they are cut off, or one of them fits no statement behind those in front of it.
That one decides the status, whatever follows it. -/
inductive SyntaxFault (tokens : List Token) : ParseStatus → Prop where
  | trailing {front behind : List Token} {ast : AST} (split : tokens = front ++ behind)
      (more : behind ≠ [])
      (statement : Statement front ast) : SyntaxFault tokens .trailingTokens
  | cutOff (cut : CutOff tokens) : SyntaxFault tokens .unexpectedEof
  | misfit {front rest : List Token} {token : Token} {status : ParseStatus}
      (split : tokens = front ++ token :: rest)
      (ended : CutOff front) (none : ∀ more ast, ¬ Statement (front ++ token :: more) ast)
      (decides : ∀ other : TokenBuffer, other.Valid →
        ∀ more, other.statement = front ++ token :: more →
        parseTokens other = .error status) : SyntaxFault tokens status

/-- The parser fails with what is wrong with its tokens. -/
theorem parseTokens_error_iff {buffer : TokenBuffer} (valid : buffer.Valid) :
    parseTokens buffer = .error status ↔ SyntaxFault buffer.statement status := by
  constructor
  · intro failed
    by_cases trails : status = .trailingTokens
    · subst trails
      obtain ⟨_, _, _, split, more, statement⟩ := (parseTokens_trailing_iff valid).mp failed
      exact .trailing split more statement
    by_cases ends : status = .unexpectedEof
    · subst ends
      exact .cutOff (cutOff_of_eof valid failed)
    obtain ⟨front, token, rest, split, ended, again⟩ :=
      first_misfit _ valid (Nat.le_refl _) failed ends trails
    have proper : ∀ token ∈ front, token.type ≠ .eof := by
      intro token among
      have inside : token ∈ buffer.statement := split ▸ List.mem_append_left _ among
      simpa using List.mem_takeWhile_imp inside
    have held := holding_tokens proper
    have cut := cutOff_of_eof (holding_valid front) (ended _ (holding_valid front) held)
    exact .misfit split (held ▸ cut) (misfit_begins_none again) again
  · intro fault
    cases fault with
    | trailing split more statement =>
      exact (parseTokens_trailing_iff valid).mpr ⟨_, _, _, split, more, statement⟩
    | cutOff cut => exact eof_of_cutOff valid cut
    | misfit split _ _ decides => exact decides buffer valid _ split

end SqlEngine
