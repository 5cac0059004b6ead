import SqlEngine.CliReading
import SqlEngine.EngineConduct
import SqlEngine.Library.Replay

/-! How a whole session uses files and what it prints, whatever its input says, whatever the
directory contains, and whichever calls fail. -/
namespace SqlEngine

open Library Program Posix

variable {policy : Policy} {s : Conduct} {stdin stream text part tableName line : Bytes}
    {tokens : List Token} {token : Token}
  {ast : AST} {c : UInt8}

/-! ## What a text names -/

private theorem removeTrailingSemicolon_front (word : Bytes) :
    removeTrailingSemicolon word <+: word := by
  unfold removeTrailingSemicolon
  split
  · exact List.take_prefix _ _
  · exact List.prefix_rfl

private theorem scanWord63_within (text : Bytes) : (scanWord63 text).1 <:+: text :=
  ((List.take_prefix _ _).trans (List.takeWhile_prefix _)).isInfix.trans
    (List.dropWhile_suffix _).isInfix

private theorem scanWord63_suffix (text : Bytes) : (scanWord63 text).2 <:+ text :=
  (List.drop_suffix _ _).trans (List.dropWhile_suffix _)

private theorem commandWord_within (line : Bytes) : commandWord line <:+: line :=
  (removeTrailingSemicolon_front _).isInfix.trans (scanWord63_within line)

private theorem argumentWord_within (line : Bytes) : argumentWord line <:+: line :=
  ((removeTrailingSemicolon_front _).isInfix.trans (scanWord63_within _)).trans
    (scanWord63_suffix line).isInfix

private theorem lexeme_value_within (lexeme : Lexeme text token) : token.value <:+: text := by
  cases lexeme with
  | string content => exact ⟨[34], [34], rfl⟩
  | _ => exact List.infix_rfl

private theorem lexes_value_within (lexes : Lexes text tokens) (among : token ∈ tokens) :
    token.value <:+: text := by
  induction lexes with
  | done => cases among
  | @token gap _ _ rest _ _ lexeme _ _ ih =>
    rcases List.mem_cons.mp among with rfl | among
    · exact (lexeme_value_within lexeme).trans ⟨gap, rest, List.append_assoc ..⟩
    · exact (ih among).trans ((List.suffix_append _ _).trans (List.suffix_append _ _)).isInfix

private theorem statement_names (statement : Statement tokens ast) :
    ∃ token ∈ tokens, token.value = ast.tableName := by
  cases statement with
  | select kw fromToken table => exact ⟨table, by simp, rfl⟩
  | insert kw into table => exact ⟨table, by simp, rfl⟩

/-! ## The session -/

/-- A policy for a text that was given: it may be repeated, and the tables that it names may
be used. -/
structure Serves (policy : Policy) (text : Bytes) : Prop where
  speaks : Speaks policy
  echoes : ∀ c ∈ text, policy.byte c
  tables : ∀ tableName, tableName <:+: text → storageValidTableName tableName = true →
    Allows policy tableName

private theorem Serves.of_part (serves : Serves policy text) (within : part <:+: text) :
    Serves policy part :=
  ⟨serves.speaks, fun c among => serves.echoes c (within.subset among),
    fun tableName inside => serves.tables tableName (inside.trans within)⟩

/-- A text that may be printed. -/
private def Printable (policy : Policy) (text : Bytes) : Prop := ∀ c ∈ text, policy.byte c

private theorem Printable.append (first : Printable policy text) (second : Printable policy part) :
    Printable policy (text ++ part) :=
  fun c among => (List.mem_append.mp among).elim (first c) (second c)

private theorem Serves.plain (serves : Serves policy part) (plain : PlainText text) :
    Printable policy text :=
  fun c among => serves.speaks c (plain c among)

private theorem say_stays (printable : Printable policy text) : Stays policy s (print text) :=
  stays_call printable fun _ => rfl

private theorem repeat_stays (serves : Serves policy part) {front back : Bytes}
    (first : PlainText front) (second : PlainText back) :
    Stays policy s (print (front ++ part ++ back ++ newline)) :=
  say_stays ((((serves.plain first).append serves.echoes).append (serves.plain second)).append
    (serves.plain plainText_newline))

private theorem explain_stays (serves : Serves policy part) {front middle reason back : Bytes}
    (first : PlainText front) (second : PlainText middle) (third : PlainText reason)
    (fourth : PlainText back) :
    Stays policy s (print (front ++ part ++ middle ++ reason ++ back ++ newline)) :=
  say_stays ((((((serves.plain first).append serves.echoes).append (serves.plain second)).append
    (serves.plain third)).append (serves.plain fourth)).append (serves.plain plainText_newline))

private theorem handleCreateTable_stays (serves : Serves policy tableName)
    (closed : s.directory = false) :
    Stays policy s (handleCreateTable tableName) := by
  unfold handleCreateTable
  split
  · exact say_stays (serves.plain (by decide))
  refine stays_bind (storageCreateTable_stays (serves.tables _ List.infix_rfl) closed)
    fun status => ?_
  cases status with
  | nameTooLong =>
    exact explain_stays serves (by decide) (by decide) (plainText_decimalNat _) (by decide)
  | ioError => exact explain_stays serves (by decide) (by decide) (by decide) (by decide)
  | _ => exact repeat_stays serves (by decide) (by decide)

private theorem handleRebuildIndex_stays (serves : Serves policy tableName)
    (closed : s.directory = false) :
    Stays policy s (handleRebuildIndex tableName) := by
  unfold handleRebuildIndex
  split
  · exact say_stays (serves.plain (by decide))
  refine stays_bind (indexRebuild_stays (serves.tables _ List.infix_rfl) closed) fun status => ?_
  split
  · exact repeat_stays serves (by decide) (by decide)
  · exact explain_stays serves (by decide) (by decide) (by cases status <;> decide) (by decide)

private theorem plainText_help : ∀ text ∈ helpLines, PlainText text := by decide +kernel

private theorem handleMetaCommand_stays (serves : Serves policy line)
    (closed : s.directory = false) :
    Stays policy s (handleMetaCommand line) := by
  have argument := serves.of_part (argumentWord_within line)
  unfold handleMetaCommand
  dsimp only
  split
  · exact stays_bind (handleCreateTable_stays argument closed) fun _ => stays_pure _
  split
  · exact stays_bind (handleRebuildIndex_stays argument closed) fun _ => stays_pure _
  split
  · refine stays_bind (say_stays (serves.plain fun c among => ?_)) fun _ => stays_pure _
    obtain ⟨text, listed, inside⟩ := List.mem_flatMap.mp among
    exact (plainText_help text listed).append plainText_newline c inside
  split
  · exact stays_pure _
  · have unknown := ((serves.plain (show PlainText (str "Unknown command: ") by decide)).append
      (serves.of_part (commandWord_within line)).echoes).append (serves.plain plainText_newline)
    exact stays_bind (say_stays unknown) fun _ =>
      stays_bind (say_stays (serves.plain (by decide))) fun _ => stays_pure _

private theorem handleSqlInput_stays {input : CString} (serves : Serves policy input.bytes)
    (closed : s.directory = false) :
    Stays policy s (handleSqlInput input) := by
  unfold handleSqlInput
  cases tokenized : tokenize input MAX_TOKENS with
  | none => exact stays_pure _
  | some result =>
    obtain ⟨status, buffer⟩ := result
    cases status with
    | ok =>
      dsimp only
      split
      · exact stays_pure _
      cases parsed : parseTokens buffer with
      | error status => exact say_stays (serves.plain (by cases status <;> decide))
      | ok ast =>
        obtain ⟨tokens, lexes, _, rfl⟩ := (tokenize_ok_iff input 63 buffer).mp tokenized
        obtain ⟨token, among, named⟩ := statement_names ((parseTokens_lexed lexes).mp parsed)
        have producible : Producible ast := ⟨_, _, _, tokenized, parsed⟩
        have inside : ast.tableName <:+: input.bytes := named ▸ lexes_value_within lexes among
        exact stays_bind (execute_stays serves.speaks
          (serves.tables _ inside producible.named.valid) producible closed)
          fun _ => stays_pure _
    | _ => exact say_stays (serves.plain (by decide))

private theorem cliHandleLine_stays {input : CString} (serves : Serves policy input.bytes)
    (closed : s.directory = false) :
    Stays policy s (cliHandleLine input) := by
  have served : Serves policy input.skipSpaces.bytes :=
    serves.of_part (List.dropWhile_suffix _).isInfix
  unfold cliHandleLine
  dsimp only
  split
  · exact stays_pure _
  split
  · split
    · exact stays_pure _
    · exact handleMetaCommand_stays served closed
  · exact stays_bind (handleSqlInput_stays served closed) fun _ => stays_pure _

/-- A line of the loop, by induction on the lines that may be left. -/
theorem cliLoop_stays (serves : Serves policy stdin) (closed : s.directory = false) (passes : Nat)
    (left : stream <:+ stdin) :
    Stays policy s (cliLoop passes stream) := by
  induction passes generalizing stream with
  | zero => exact stays_pure _
  | succ passes ih =>
    obtain ⟨rest, stored⟩ := cliReadLine_takes CLI_MAX_INPUT.toUInt64 stream
    unfold cliLoop
    cases read : cliReadLine CLI_MAX_INPUT.toUInt64 stream with
    | mk result after =>
      rw [read] at rest stored
      have prompts : Stays policy s (print prompt >>= fun _ => cliLoop passes after) :=
        stays_bind (say_stays (serves.plain (by decide))) fun _ => ih (rest.trans left)
      cases result with
      | eof => exact stays_pure _
      | tooLong => exact stays_bind (say_stays (serves.plain (by decide))) fun _ => prompts
      | stored line =>
        have front : cstr line <:+: stdin :=
          (List.takeWhile_prefix _).isInfix.trans ((stored line rfl).trans left.isInfix)
        refine stays_bind (cliHandleLine_stays (serves.of_part front) closed) fun outcome => ?_
        cases outcome with
        | next => exact prompts
        | _ => exact stays_pure _

/-- A whole session keeps to its policy and gives every handle back. -/
theorem cliRun_stays (serves : Serves policy stdin) (closed : s.directory = false) :
    Stays policy s (cliRun stdin) :=
  stays_bind (say_stays (serves.plain (by decide))) fun _ =>
    stays_bind (say_stays (serves.plain (by decide))) fun _ =>
    stays_bind (say_stays (serves.plain (by decide))) fun _ =>
      cliLoop_stays serves closed _ List.suffix_rfl

/-- The files of the tables that the input of a session names, plain text, and the bytes of
the input. -/
def sessionPolicy (stdin : Bytes) : Policy where
  path path := ∃ tableName, tableName <:+: stdin ∧ storageValidTableName tableName = true ∧
    TableFile tableName path
  directory path := path = str "."
  byte c := Plain c ∨ c ∈ stdin

private theorem sessionPolicy_serves (stdin : Bytes) : Serves (sessionPolicy stdin) stdin where
  speaks _ plain := .inl plain
  echoes _ among := .inr among
  tables _ inside valid := ⟨fun _ file => ⟨_, inside, valid, file⟩, rfl⟩

variable {faults : Faults} {w u : World}

/-- Every call of a session, whatever its input says and whichever calls fail: a handle is
used and closed only while it is open, and as what it was opened for; a session that returns
has closed all that it opened. -/
theorem session_handles {trace : List (Event Call Answer)} {rest : Prog LineOutcome}
    (ran : Traces (Steps faults) (cliRun stdin) w trace rest u) :
    ∃ last, Accepts (sessionPolicy stdin).watch .idle trace last ∧
      ∀ outcome, rest = .pure outcome →
        last = .idle ∧ ∀ handle, w.next ≤ handle → handle < u.next → u.streams handle = none := by
  have verified := cliRun_stays (sessionPolicy_serves stdin) (s := .idle) rfl
  obtain ⟨last, accepts, sees, _, ends⟩ :=
    watched_traces follows_watch verified (Policy.Sees.start w) ran
  refine ⟨last, accepts, fun outcome done => ?_⟩
  obtain rfl := ends outcome done
  exact ⟨rfl, fun handle new below => sees.closed handle new below rfl⟩

private def makesA : Bytes := str "create_table a\nexit"

/-- A session that makes a table. -/
theorem session_handles_once : ∃ trace last u,
    Traces (Steps .any) (cliRun makesA) World.empty trace (.pure .leave) u ∧
      Accepts (sessionPolicy makesA).watch .idle trace last ∧ last = .idle := by
  have ran : Returns (Steps .any) (cliRun makesA) World.empty .leave
      (replayed .any (cliRun makesA) [] World.empty) :=
    replayed_returns (by decide +kernel)
  obtain ⟨trace, traced⟩ := returns_traces ran
  obtain ⟨last, accepts, ends⟩ := session_handles traced
  exact ⟨trace, last, _, traced, accepts, (ends _ rfl).1⟩

/-- Wherever a session is stopped: the files of tables that its input does not name and the
handles of others are as they were, and what it has printed is plain text, but for the bytes
of its input. -/
theorem session_confined (stopped : Stops (Steps faults) (cliRun stdin) w u) :
    (∀ path, ¬ (sessionPolicy stdin).path path → Kept (w.entries path) (u.entries path)) ∧
      (∀ handle < w.next, u.streams handle = w.streams handle) ∧
      ∃ text, u.output = w.output ++ text ∧ ∀ c ∈ text, Plain c ∨ c ∈ stdin := by
  have verified := cliRun_stays (sessionPolicy_serves stdin) (s := .idle) rfl
  obtain ⟨trace, rest, ran⟩ := stops_traces stopped
  obtain ⟨last, _, sees, _⟩ := watched_traces follows_watch verified (Policy.Sees.start w) ran
  exact ⟨sees.entries, sees.streams, sees.output⟩

/-- Two tables, one of which the session does not name. -/
private def tablesWorld : World :=
  (World.empty.setEntry (tablePath (str "a")) { now := some rowsFile, before := [] }).setEntry
    (tablePath (str "q"))
    { now := some rowsFile, before := [] }

private def addsToIt : Bytes := str "INSERT INTO a VALUES (8, \"x\");\nexit"

private def addingToIt : World :=
  stoppedAt .any (cliRun addsToIt) (List.replicate 140 { suffix := str "aaaaaa" }) tablesWorld

/-- A session that is stopped in the middle of an INSERT, beside a table that it does not name. -/
theorem session_confined_beside : Stops (Steps .any) (cliRun addsToIt) tablesWorld addingToIt ∧
    (addingToIt.file (journalPath (str "a"))).isSome = true ∧
      addingToIt.file (tablePath (str "q")) = some rowsFile ∧
      ∃ text, addingToIt.output = tablesWorld.output ++ text ∧ ∀ c ∈ text, Plain c ∨
        c ∈ addsToIt := by
  have stopped : Stops (Steps .any) (cliRun addsToIt) tablesWorld addingToIt := stoppedAt_stops
  obtain ⟨files, _, said⟩ := session_confined stopped
  have unnamed : ¬ (sessionPolicy addsToIt).path (tablePath (str "q")) := by
    rintro ⟨tableName, inside, valid, file⟩
    obtain rfl := tableFile_unique valid (by decide) file
        (show TableFile (str "q") (tablePath (str "q")) from .table)
    exact absurd inside (by decide)
  exact ⟨stopped, by decide +kernel, (files _ unnamed).same_file, said⟩

end SqlEngine
