import SqlEngine.CliReading
import SqlEngine.CliRouting
import SqlEngine.Database
import SqlEngine.ErrorPlaces
import SqlEngine.LexicalErrors

/-! A console over the abstract database: what it answers to each line, and the proof that a
session of the command line is a session of the console. Its statements are those of the
grammar, and what it says about a line that is none is what is wrong with the text or with its
tokens; it knows of no file and no index. -/
namespace SqlEngine

open Library Program World Posix

variable {db next : Database} {store : Store} {w v : World}
    {tableName line text : Bytes} {ast : AST}

/-! ## The console -/

/-- A line is a statement. -/
def ReadsAs (line : Bytes) (ast : AST) : Prop := ∃ tokens, Lexes line tokens ∧ Statement tokens ast

/-- What a creation comes to. -/
def Database.creation (db : Database) (tableName : Bytes) : TableCreateStatus :=
  if SQL_MAX_TABLE_NAME_LENGTH < tableName.length then .nameTooLong
  else if storageValidTableName tableName = false then .invalidName
  else if (db tableName).isSome then .alreadyExists
  else .ok

/-- The tables behind a creation. -/
def Database.create (db : Database) (tableName : Bytes) : Database :=
  if db.creation tableName = .ok then Function.update db tableName (some []) else db

/-- What rebuilding an index comes to. -/
def Database.rebuilding (db : Database) (tableName : Bytes) : IndexStatus :=
  if storageValidTableName tableName = false then .allocError
  else if (db tableName).isSome then .ok
  else .notFound

/-- The answer to a creation. -/
def creationText (tableName : Bytes) : TableCreateStatus → Bytes
  | .ok => str "Table '" ++ tableName ++ str "' created successfully." ++ newline
  | .alreadyExists => str "Table '" ++ tableName ++ str "' already exists." ++ newline
  | .invalidName => str "Error: Invalid table name '" ++ tableName ++ str "'." ++ newline
  | .nameTooLong =>
    str "Error: Table name '" ++ tableName ++ str "' is too long (maximum " ++
      decimalNat SQL_MAX_TABLE_NAME_LENGTH ++
      str " bytes)." ++ newline
  | .ioError =>
    str "Error: Could not create table '" ++ tableName ++ str "' (" ++
      tableCreateStatusString .ioError ++ str ")." ++ newline

/-- The answer to a rebuild. -/
def rebuildText (tableName : Bytes) (status : IndexStatus) : Bytes :=
  if status = .ok then str "Index for '" ++ tableName ++ str "' rebuilt successfully." ++ newline
  else
    str "Error: Could not rebuild index for '" ++ tableName ++ str "' (" ++
      indexStatusString status ++ str ")." ++ newline

/-- What is said about a line that begins like a statement and is none. -/
inductive Refusal (line : Bytes) : Bytes → Prop where
  | lexical (status : TokenizeStatus) (unlexed : ∀ tokens, Lexes line tokens →
      MAX_TOKENS ≤ tokens.length)
      (fault : LexFault (MAX_TOKENS - 1) line status) :
      Refusal line (str "Error: Tokenizer: " ++ tokenizeStatusString status ++ str "." ++ newline)
  | syntactic {tokens : List Token} (status : ParseStatus) (lexes : Lexes line tokens)
      (none : ∀ ast, ¬ Statement tokens ast)
      (fault : SyntaxFault tokens status) :
      Refusal line (str "Error: Parser: " ++ parseStatusString status ++ str "." ++ newline)

/-- What the console does with a command and its argument. -/
inductive Database.Obeys (db : Database) (command argument : Bytes) : LineOutcome → Bytes →
    Database → Prop where
  | created (word : command = str "create_table") (named : argument ≠ []) :
      db.Obeys command argument .next (creationText argument (db.creation argument))
        (db.create argument)
  | rebuilt (word : command = str "rebuild_index") (named : argument ≠ []) :
      db.Obeys command argument .next (rebuildText argument (db.rebuilding argument)) db
  | usage (word : command = str "create_table" ∨ command = str "rebuild_index")
      (unnamed : argument = []) :
      db.Obeys command argument .next
        (str "Usage: " ++ command ++ str " <table_name>" ++ newline) db
  | helped (word : command = str "help") :
      db.Obeys command argument .next (helpLines.flatMap (· ++ newline)) db
  | left (word : command = str "exit" ∨ command = str "quit") :
      db.Obeys command argument .leave [] db
  | unknown (word :
      command ∉ [str "create_table", str "rebuild_index", str "help", str "exit", str "quit"]) :
      db.Obeys command argument .next
        (str "Unknown command: " ++ command ++ newline ++
          (str "Type 'help' for available commands." ++ newline)) db

/-- What the console does with a line: nothing if it is blank, and a statement or a command
as its first word says. -/
inductive Database.Serves (db : Database) (line : Bytes) : LineOutcome → Bytes →
    Database → Prop where
  | blank (blank : ∀ c ∈ line, isSpace c = true) : db.Serves line .next [] db
  | statement {ast : AST} {outcome : Outcome} {text : Bytes} {next : Database}
      (reads : ReadsAs line ast)
      (step : db.Step (.execute ast) outcome text next) : db.Serves line .next text next
  | refused {text : Bytes} (routed : isSqlStatement line = true) (refusal : Refusal line text) :
      db.Serves line .next text db
  | command {outcome : LineOutcome} {text : Bytes} {next : Database}
      (something : ∃ c ∈ line, isSpace c = false)
      (other : isSqlStatement line = false)
      (obeyed : db.Obeys (commandWord line) (argumentWord line) outcome text next) :
        db.Serves line outcome text next

/-- A session of the console: what it prints for the lines that it reads, a prompt behind
each, until one leaves. -/
inductive Database.Session : Database → List LineRead → Bytes → Database → Prop where
  | ended {db : Database} : Session db [] [] db
  | tooLong {db last : Database} {reads : List LineRead} {text : Bytes}
      (rest : Session db reads text last) :
      Session db (.tooLong :: reads)
        (str "Error: Input too long (maximum " ++ decimalNat (CLI_MAX_INPUT - 1) ++
        str " characters per line)." ++ newline ++ (prompt ++ text)) last
  | served {db next last : Database} {line said text : Bytes} {reads : List LineRead}
      (answered : db.Serves (cstr line) .next said next) (rest : Session next reads text last) :
      Session db (.stored line :: reads) (said ++ (prompt ++ text)) last
  | left {db next : Database} {line said : Bytes} {reads : List LineRead}
      (answered : db.Serves (cstr line) .leave said next) :
      Session db (.stored line :: reads) said next

/-- What a session prints first. -/
def greeting : Bytes :=
  str "SQL Engine CLI" ++ newline ++
    (str "Type 'help' for available commands." ++ newline) ++ prompt

/-! ## Meta commands on a directory -/

/-- A directory holds the tables of an abstract database. -/
def Shows (db : Database) (w : World) : Prop := ∃ store, Represents db store ∧ Directory store w

/-- There may be so many rows more, and no table has more than an `int` counts. -/
structure Database.Room (db : Database) (more : Nat) : Prop where
  few : more ≤ INT_MAX
  rows : ∀ tableName records, db tableName = some records → records.length + more ≤ INT_MAX

/-- A database with room for more records has tables that an `int` can count. -/
theorem Represents.small (represents : Represents db store) {more : Nat} (room : db.Room more) :
    store.Small := by
  intro tableName bytes _ there
  obtain ⟨records, found, shown⟩ := represents.present there
  rw [shown, List.length_map]
  exact Nat.le_trans (Nat.le_add_right _ _) (room.rows _ _ found)

private theorem create_status (represents : Represents db store) (directory : Directory store w) :
    wp (Steps .none) (fun _ => True) (storageCreateTable tableName) (fun status _ =>
      (status = .ok ↔ storageValidTableName tableName = true ∧ store tableName = none) →
        status = db.creation tableName) w := by
  unfold Database.creation
  by_cases long : SQL_MAX_TABLE_NAME_LENGTH < tableName.length
  · rw [if_pos long]
    unfold storageCreateTable
    rw [if_pos long]
    exact ⟨trivial, fun _ => rfl⟩
  rw [if_neg long]
  cases valid : storageValidTableName tableName with
  | false =>
    rw [if_pos rfl]
    unfold storageCreateTable
    rw [if_neg long, valid]
    exact ⟨trivial, fun _ => rfl⟩
  | true =>
    rw [if_neg (by decide)]
    cases there : store tableName with
    | none =>
      rw [represents.absent.mp there]
      exact wp_mono (create_follows directory) (fun _ _ => trivial) fun status _ _ _ succeeds =>
        succeeds.mpr ⟨rfl, rfl⟩
    | some bytes =>
      obtain ⟨records, found, _⟩ := represents.present there
      obtain ⟨file, _, present, _⟩ := file_present directory valid there
      rw [found]
      unfold storageCreateTable
      rw [if_neg long, valid, storageTablePath_valid valid, storageJournalPath_valid valid]
      refine wp_createFile trivial (fun gone => ?_) (fun _ => ⟨trivial, fun _ => rfl⟩) nofun
      rw [present] at gone
      cases gone

/-- A creation does on a directory what it does on the abstract database. -/
theorem create_shows (shows : Shows db w) :
    wp (Steps .none) (fun _ => True) (storageCreateTable tableName) (fun status v =>
      status = db.creation tableName ∧ v.output = w.output ∧ Shows (db.create tableName) v) w := by
  obtain ⟨store, represents, directory⟩ := shows
  refine wp_mono (wp_both (create_follows directory) (create_status represents directory))
    (fun _ _ => trivial) ?_
  rintro status v _ ⟨⟨succeeds, printed, after⟩, decided⟩
  obtain rfl := decided succeeds
  refine ⟨rfl, printed, _, ?_, after⟩
  unfold Database.create Store.create
  by_cases creates : storageValidTableName tableName = true ∧ store tableName = none
  · rw [if_pos (succeeds.mpr creates), if_pos creates]
    have blank : shownRows (headerBytes 0) = ([] : List Record).map Record.row := by
      unfold shownRows
      rw [acceptedCount_blank]
      rfl
    exact represents.update blank (by simp)
  · rw [if_neg fun ok => creates (succeeds.mp ok), if_neg creates]
    exact represents

private theorem rebuild_absent (valid : storageValidTableName tableName = true)
    (gone : w.file (tablePath tableName) = none) :
    wp (Steps .none) (fun _ => True) (indexRebuild tableName)
      (fun status _ => status = .notFound) w := by
  unfold indexRebuild
  rw [valid, storageTablePath_valid valid, storageIndexPath_valid valid]
  change wp (Steps .none) _ (indexRebuildFromTable (tablePath tableName) (indexPath tableName)) _ w
  unfold indexRebuildFromTable
  rw [tableNameFromPath_valid valid]
  refine wp_seq (storageOpenTableReadonly_spec valid) (fun _ _ => trivial) ?_
  intro result u _ opened
  cases opened with
  | absent => exact ⟨trivial, rfl⟩
  | opened found =>
    rw [gone] at found
    cases found
  | pending present =>
    rw [gone] at present
    cases present
  | refused found =>
    rw [gone] at found
    cases found
  | failed calls => cases calls

/-- A rebuild succeeds exactly on the tables that exist. -/
theorem rebuild_shows (shows : Shows db w) (room : db.Room 0) :
    wp (Steps .none) (fun _ => True) (indexRebuild tableName) (fun status v =>
      status = db.rebuilding tableName ∧ v.output = w.output ∧ Shows db v) w := by
  obtain ⟨store, represents, directory⟩ := shows
  have status : wp (Steps .none) (fun _ => True) (indexRebuild tableName)
      (fun status _ => status = db.rebuilding tableName) w := by
    unfold Database.rebuilding
    cases valid : storageValidTableName tableName with
    | false =>
      unfold indexRebuild
      rw [valid]
      exact ⟨trivial, rfl⟩
    | true =>
      rw [if_neg (by decide)]
      cases there : store tableName with
      | none =>
        rw [represents.absent.mp there]
        exact rebuild_absent valid (file_absent directory valid there)
      | some bytes =>
        obtain ⟨records, known, _⟩ := represents.present there
        obtain ⟨file, count, found, rfl, accepted, shown⟩ := file_present directory valid there
        rw [known]
        have openable : Openable tableName w :=
          ⟨valid, ⟨file, count, found, accepted⟩, directory.settled _ valid⟩
        refine wp_mono (indexRebuild_spec (.inr (directory.room _ valid).1)) (fun _ _ => trivial) ?_
        rintro status v _ ⟨_, ends⟩
        rcases ends.decided.resolve_left Bool.false_ne_true openable with
            done | twice | ⟨rows, shows, many⟩
        · exact done
        · obtain ⟨rows, shows, same⟩ := ends.refuses twice
          rw [shows.rows found accepted, ← shown] at same
          exact absurd (directory.sound _ _ valid there).distinct same
        · have small := represents.small room _ _ valid there
          rw [shows.rows found accepted, ← shown] at many
          have most : INT_MAX ≤ UINT32_MAX := by decide
          omega
  refine wp_mono (wp_both (rebuild_follows directory) status) (fun _ _ => trivial) ?_
  rintro result v _ ⟨⟨printed, after⟩, rfl⟩
  exact ⟨rfl, printed, store, represents, after⟩

/-! ## Lines on a directory -/

/-- A program printed a text, and left the tables of an abstract database. -/
structure Answers (w : World) (text : Bytes) (next : Database) (v : World) : Prop where
  printed : v.output = w.output ++ text
  shows : Shows next v

private theorem Answers.print {before : Bytes} (answered : Answers w before next v) (text : Bytes) :
    Answers w (before ++ text) next (v.printed text) := by
  obtain ⟨printed, store, represents, directory⟩ := answered
  exact ⟨(congrArg (· ++ text) printed).trans (List.append_assoc ..), store, represents,
    directory.still rfl⟩

private theorem Shows.answers (shows : Shows db w) :
    Answers w [] db w := ⟨(List.append_nil _).symm, shows⟩

private theorem Shows.print (shows : Shows db w) (text : Bytes) :
    Answers w text db (w.printed text) := shows.answers.print text

theorem Database.Room.fewer {more less : Nat} (room : db.Room more) (fewer : less ≤ more) :
    db.Room less :=
  ⟨Nat.le_trans fewer room.few, fun tableName records there =>
    Nat.le_trans (Nat.add_le_add_left fewer _) (room.rows tableName records there)⟩

theorem Database.Room.less {more : Nat} (room : db.Room (more + 1)) :
    db.Room more := room.fewer (Nat.le_succ _)

/-- A creation adds no record. -/
theorem Database.Room.create {more : Nat} (room : db.Room more) :
    (db.create tableName).Room more := by
  refine ⟨room.few, fun other records there => ?_⟩
  unfold Database.create at there
  split at there
  · by_cases same : other = tableName
    · rw [same, Function.update_self, Option.some.injEq] at there
      rw [← there, List.length_nil, Nat.zero_add]
      exact room.few
    · rw [Function.update_of_ne same] at there
      exact room.rows other records there
  · exact room.rows other records there

/-- An operation adds at most one record. -/
theorem Database.Room.step {more : Nat} {operation : Operation} {outcome : Outcome}
    (room : db.Room (more + 1)) (step : db.Step operation outcome text next) :
    next.Room more := by
  refine ⟨Nat.le_of_succ_le room.few, fun other others there => ?_⟩
  rcases step.length_le there with rfl | ⟨records, found, grown⟩
  · rw [List.length_nil, Nat.zero_add]
    exact Nat.le_of_succ_le room.few
  · have bound := room.rows _ _ found
    omega

private theorem wp_say {inv : World → Prop} {post : Unit → World → Prop} (holds : inv w)
    (printed : inv (w.printed text) ∧ post () (w.printed text)) :
    wp (Steps .none) inv (Posix.print text) post w := by
  rw [← bind_pure (Posix.print text)]
  exact wp_print holds printed

private theorem handleCreateTable_shows (shows : Shows db w) (named : tableName ≠ []) :
    wp (Steps .none) (fun _ => True) (handleCreateTable tableName)
      (fun _ => Answers w (creationText tableName (db.creation tableName))
        (db.create tableName)) w := by
  have program : handleCreateTable tableName =
      storageCreateTable tableName >>=
        fun status => Posix.print (creationText tableName status) := by
    unfold handleCreateTable
    rw [if_neg named]
    refine congrArg (storageCreateTable tableName >>= ·) (funext fun status => ?_)
    cases status <;> rfl
  rw [program]
  refine wp_seq (create_shows shows) (fun _ _ => trivial) ?_
  rintro status v _ ⟨rfl, printed, after⟩
  refine wp_say trivial ⟨trivial, ?_⟩
  have said := after.print (creationText tableName (db.creation tableName))
  exact ⟨said.printed.trans (congrArg (· ++ _) printed), said.shows⟩

private theorem handleRebuildIndex_shows (shows : Shows db w) (room : db.Room 0)
    (named : tableName ≠ []) :
    wp (Steps .none) (fun _ => True) (handleRebuildIndex tableName)
      (fun _ => Answers w (rebuildText tableName (db.rebuilding tableName)) db) w := by
  have program : handleRebuildIndex tableName =
      indexRebuild tableName >>= fun status => Posix.print (rebuildText tableName status) := by
    unfold handleRebuildIndex rebuildText
    rw [if_neg named]
    refine congrArg (indexRebuild tableName >>= ·) (funext fun status => ?_)
    split <;> rfl
  rw [program]
  refine wp_seq (rebuild_shows shows room) (fun _ _ => trivial) ?_
  rintro status v _ ⟨rfl, printed, after⟩
  refine wp_say trivial ⟨trivial, ?_⟩
  have said := after.print (rebuildText tableName (db.rebuilding tableName))
  exact ⟨said.printed.trans (congrArg (· ++ _) printed), said.shows⟩

private theorem handleMetaCommand_obeys {more : Nat} (shows : Shows db w)
    (room : db.Room (more + 1))
    (stays : ¬ (commandWord line = str "exit" ∨ commandWord line = str "quit")) :
    wp (Steps .none) (fun _ => True) (handleMetaCommand line) (fun outcome v => ∃ text next,
      db.Obeys (commandWord line) (argumentWord line) outcome text next ∧ Answers w text next v ∧
        next.Room more) w := by
  unfold handleMetaCommand
  dsimp only
  split
  · rename_i word
    by_cases unnamed : argumentWord line = []
    · unfold handleCreateTable
      rw [if_pos unnamed]
      refine wp_print trivial ⟨trivial, _, db, .usage (.inl word) unnamed, ?_, room.less⟩
      rw [word]
      exact shows.print _
    · refine wp_seq (handleCreateTable_shows shows unnamed) (fun _ _ => trivial)
        fun _ v _ answered => ?_
      exact ⟨trivial, _, _, .created word unnamed, answered, room.less.create⟩
  split
  · rename_i word
    by_cases unnamed : argumentWord line = []
    · unfold handleRebuildIndex
      rw [if_pos unnamed]
      refine wp_print trivial ⟨trivial, _, db, .usage (.inr word) unnamed, ?_, room.less⟩
      rw [word]
      exact shows.print _
    · refine wp_seq (handleRebuildIndex_shows shows (room.fewer (Nat.zero_le _)) unnamed)
        (fun _ _ => trivial) fun _ v _ answered => ?_
      exact ⟨trivial, _, _, .rebuilt word unnamed, answered, room.less⟩
  split
  · rename_i word
    exact wp_print trivial ⟨trivial, _, db, .helped word, shows.print _, room.less⟩
  rename_i create rebuild help
  have unknown : commandWord line ∉
    [str "create_table", str "rebuild_index", str "help", str "exit", str "quit"] := by
    simp only [List.mem_cons, List.not_mem_nil, or_false, create, rebuild, help, false_or]
    exact stays
  exact wp_print trivial
    (wp_print trivial ⟨trivial, _, db, .unknown unknown, (shows.print _).print _, room.less⟩)

private theorem commandWord_skipSpaces (line : Bytes) :
    commandWord (line.dropWhile isSpace) = commandWord line := by
  unfold commandWord scanWord63
  rw [List.dropWhile_idempotent]

private theorem argumentWord_skipSpaces (line : Bytes) :
    argumentWord (line.dropWhile isSpace) = argumentWord line := by
  unfold argumentWord scanWord63
  rw [List.dropWhile_idempotent]

private theorem cliHandleLine_executes {more : Nat} {input : CString} (shows : Shows db w)
    (room : db.Room (more + 1)) (reads : ReadsAs input.bytes ast) :
    wp (Steps .none) (fun _ => True) (cliHandleLine input) (fun outcome v => ∃ text next,
      db.Serves input.bytes outcome text next ∧ Answers w text next v ∧ next.Room more) w := by
  obtain ⟨tokens, lexes, statement⟩ := reads
  have few : tokens.length ≤ 63 := Nat.le_of_succ_le_succ (statement_fits statement)
  have tokenized := (tokenize_ok_iff input 63 _).mpr ⟨tokens, lexes, few, rfl⟩
  have parsed := (parseTokens_lexed lexes).mpr statement
  have producible : Producible ast := ⟨_, _, _, tokenized, parsed⟩
  obtain ⟨store, represents, directory⟩ := shows
  have small := represents.small room
  rw [cliHandleLine_statement tokenized parsed]
  refine wp_seq (execute_follows producible directory small) (fun _ _ => trivial) ?_
  rintro status v _ ⟨rfl, printed, after⟩
  obtain ⟨next, step, represents'⟩ := execute_simulates producible represents directory small after
  exact ⟨trivial, _, next, .statement ⟨tokens, lexes, statement⟩ step,
    ⟨printed, _, represents', after⟩, room.step step⟩

private theorem handleSqlInput_refuses {input : CString}
    (routed : isSqlStatement input.bytes = true) (unread : ∀ ast, ¬ ReadsAs input.bytes ast)
    (shows : Shows db w) :
    wp (Steps .none) (fun _ => True) (handleSqlInput input.skipSpaces)
      (fun _ v => ∃ text, Refusal input.bytes text ∧ Answers w text db v) w := by
  obtain ⟨status, buffer, tokenized, refused⟩ := tokenize_ends input.skipSpaces 63
  unfold handleSqlInput
  rw [show tokenize input.skipSpaces MAX_TOKENS = some (status, buffer) from tokenized]
  have unlexed : status ≠ .ok → ∀ tokens, Lexes input.bytes tokens →
      MAX_TOKENS ≤ tokens.length := by
    intro failed tokens lexes
    by_contra few
    have again := (tokenize_ok_iff input.skipSpaces 63 _).mpr
      ⟨tokens, lexes_skipSpaces lexes, Nat.le_of_lt_succ (Nat.lt_of_not_le few), rfl⟩
    rw [tokenized, Option.some.injEq, Prod.mk.injEq] at again
    exact failed again.1
  cases status with
  | ok =>
    obtain ⟨tokens, lexes, _, rfl⟩ := (tokenize_ok_iff input.skipSpaces 63 buffer).mp tokenized
    have whole : Lexes input.bytes tokens := lexes_of_dropped lexes
    obtain ⟨kw, rest, rfl, kind⟩ := (isSqlStatement_lexes whole input.nulFree).mp routed
    have started : ¬ ((kw :: rest).length + 1 = 0 ∨
        (parserPeek (parserInit
          { data := some (kw :: rest ++ [eofToken]), count := (kw :: rest).length + 1 })).type =
            .eof) := by
      rintro (none | ended)
      · cases none
      · have same : kw.type = .eof := by simpa [parserPeek, parserInit] using ended
        rw [same] at kind
        rcases kind with select | insert
        · cases select
        · cases insert
    dsimp only
    rw [if_neg started]
    cases parsed :
      parseTokens { data := some (kw :: rest ++ [eofToken]), count := (kw :: rest).length + 1 } with
    | ok ast => exact absurd ⟨_, whole, (parseTokens_lexed lexes).mp parsed⟩ (unread ast)
    | error status =>
      have fault : SyntaxFault (kw :: rest) status := by
        rw [← statement_of_lexes whole]
        exact (parseTokens_error_iff (valid_of_tokens _)).mp parsed
      refine wp_say trivial ⟨trivial, _, .syntactic status whole (fun ast statement => ?_) fault,
        shows.print _⟩
      exact unread ast ⟨_, whole, statement⟩
  | _ =>
    have failed := unlexed fun same => TokenizeStatus.noConfusion same
    have null := refused fun same => TokenizeStatus.noConfusion same
    rw [null] at tokenized
    have fault : LexFault (MAX_TOKENS - 1) input.bytes _ :=
      (lexFault_of_tokenize tokenized).of_dropped
    exact wp_say trivial ⟨trivial, _, .lexical _ failed fault, shows.print _⟩

/-- The step lemma: a line on a directory is a line of the console. -/
theorem cliHandleLine_serves {more : Nat} (input : CString) (shows : Shows db w)
    (room : db.Room (more + 1)) :
    wp (Steps .none) (fun _ => True) (cliHandleLine input) (fun outcome v => ∃ text next,
      db.Serves input.bytes outcome text next ∧ Answers w text next v ∧ next.Room more) w := by
  by_cases read : ∃ ast, ReadsAs input.bytes ast
  · obtain ⟨ast, reads⟩ := read
    exact cliHandleLine_executes shows room reads
  have unread : ∀ ast, ¬ ReadsAs input.bytes ast := fun ast reads => read ⟨ast, reads⟩
  unfold cliHandleLine
  dsimp only
  rw [isSqlStatement_skipSpaces]
  by_cases empty : input.skipSpaces.bytes = []
  · rw [if_pos empty]
    exact ⟨trivial, _, db, .blank (List.dropWhile_eq_nil_iff.mp empty), shows.answers, room.less⟩
  rw [if_neg empty]
  cases routed : isSqlStatement input.bytes with
  | true =>
    refine wp_seq (handleSqlInput_refuses routed unread shows) (fun _ _ => trivial) ?_
    rintro _ v _ ⟨text, refusal, answered⟩
    exact ⟨trivial, text, db, .refused routed refusal, answered, room.less⟩
  | false =>
    have something : ∃ c ∈ input.bytes, isSpace c = false := by
      by_contra none
      refine empty (List.dropWhile_eq_nil_iff.mpr fun c among => ?_)
      by_contra solid
      exact none ⟨c, among, Bool.not_eq_true _ ▸ solid⟩
    have command : commandWord input.skipSpaces.bytes = commandWord input.bytes :=
      commandWord_skipSpaces input.bytes
    have argument : argumentWord input.skipSpaces.bytes = argumentWord input.bytes :=
      argumentWord_skipSpaces input.bytes
    simp only [Bool.not_false, ↓reduceIte]
    split
    · rename_i word
      rw [command] at word
      exact ⟨trivial, [], db, .command something routed (.left word), shows.answers, room.less⟩
    · rename_i stays
      have obeys : wp (Steps .none) _ (handleMetaCommand input.skipSpaces.bytes) _ w :=
        handleMetaCommand_obeys shows room stays
      rw [command, argument] at obeys
      refine wp_mono obeys (fun _ _ => trivial) ?_
      rintro outcome v _ ⟨text, next, obeyed, answered, room⟩
      exact ⟨text, next, .command something routed obeyed, answered, room⟩

/-! ## Sessions on a directory -/

private theorem Answers.trans {u : World} {before : Bytes} {between : Database}
    (first : Answers w before between u) (second : Answers u text next v) :
    Answers w (before ++ text) next v :=
  ⟨by rw [second.printed, first.printed, List.append_assoc], second.shows⟩

private theorem serveLines_session {reads : List LineRead} (found : .eof ∉ reads)
    (shows : Shows db w) (room : db.Room reads.length) :
    wp (Steps .none) (fun _ => True) (serveLines reads)
      (fun outcome v => outcome = .leave ∧ ∃ text last, db.Session reads text last ∧
        Answers w text last v) w := by
  -- The run lemma, by induction on the lines that are read.
  induction reads generalizing db w with
  | nil => exact ⟨trivial, rfl, [], db, .ended, shows.answers⟩
  | cons read reads ih =>
    obtain ⟨here, rest⟩ := not_or.mp (List.mem_cons.not.mp found)
    -- a prompt, and the rest of the lines
    have goes_on : ∀ {between : Database} {u : World} {said : Bytes}, Answers w said between u →
        between.Room reads.length →
        wp (Steps .none) (fun _ => True) (Posix.print prompt >>= fun _ => serveLines reads)
          (fun outcome v => outcome = .leave ∧
          ∃ text last, between.Session reads text last ∧
            Answers w (said ++ (prompt ++ text)) last v) u := by
      intro between u said answered room
      refine wp_print trivial
        (wp_mono (ih rest (answered.shows.print prompt).shows room) (fun _ _ => trivial) ?_)
      rintro outcome v _ ⟨left, text, last, session, printed⟩
      exact ⟨left, text, last, session,
        answered.trans ((answered.shows.print prompt).trans printed)⟩
    cases read with
    | eof => exact absurd rfl here
    | tooLong =>
      refine wp_print trivial (wp_mono (goes_on (shows.print _) room.less) (fun _ _ => trivial) ?_)
      rintro outcome v _ ⟨left, text, last, session, printed⟩
      exact ⟨left, _, last, .tooLong session, printed⟩
    | stored line =>
      refine wp_seq (cliHandleLine_serves (CString.ofArray line) shows room) (fun _ _ => trivial) ?_
      rintro outcome u _ ⟨said, next, served, answered, room⟩
      cases outcome with
      | next =>
        refine wp_mono (goes_on answered room) (fun _ _ => trivial) ?_
        rintro outcome v _ ⟨left, text, last, session, printed⟩
        exact ⟨left, _, last, .served served session, printed⟩
      | leave => exact ⟨trivial, rfl, said, next, .left served, answered⟩
      | exited =>
        cases served with
        | command _ _ obeyed => cases obeyed

/-- A session of the command line is a session of the console: on any input that has no more
bytes than every table has room for rows, and with no call that fails, it prints what the
console prints for the lines of the input, and leaves the tables that the console leaves.
There is such a session. -/
theorem session_refined {stdin : Bytes} (shows : Shows db w) (room : db.Room stdin.length) :
    (∃ outcome v, Returns (Steps .none) (cliRun stdin) w outcome v) ∧
      ∀ outcome v, Returns (Steps .none) (cliRun stdin) w outcome v →
        ∃ text last, db.Session (cliReads (stdin.length + 1) stdin) text last ∧
          v.output = w.output ++ (greeting ++ text) ∧ Shows last v := by
  have few : db.Room (cliReads (stdin.length + 1) stdin).length := room.fewer (cliReads_length _ _)
  have verified :
      wp (Steps .none) (fun _ => True) (cliRun stdin) (fun outcome v => outcome = .leave ∧
      ∃ text last, db.Session (cliReads (stdin.length + 1) stdin) text last ∧
        Answers w (greeting ++ text) last v) w := by
    unfold cliRun
    rw [cliLoop_serves]
    have greeted : Answers w greeting db _ :=
      ((shows.print (str "SQL Engine CLI" ++ newline)).print
        (str "Type 'help' for available commands." ++ newline)).print prompt
    refine wp_print trivial (wp_print trivial (wp_print trivial
      (wp_mono (serveLines_session (cliReads_found _ _) greeted.shows few)
        (fun _ _ => trivial) ?_)))
    rintro outcome v _ ⟨left, text, last, session, printed⟩
    exact ⟨left, text, last, session, greeted.trans printed⟩
  refine ⟨wp_progress verified, fun outcome v ran => ?_⟩
  obtain ⟨_, _, text, last, session, answered⟩ := wp_returns verified ran
  exact ⟨text, last, session, answered.printed, answered.shows⟩

private def sevenKept : Bytes :=
  str "create_table t\nINSERT INTO t VALUES (7, \"a\");\nSELECT name FROM t;\nexit\n"

/-- A table is made in an empty directory, gets a row, and is read. -/
theorem session_refined_once :
    ∃ outcome v text last, Returns (Steps .none) (cliRun sevenKept) World.empty outcome v ∧
    Database.Session (fun _ => none) (cliReads (sevenKept.length + 1) sevenKept) text last ∧
      v.output = greeting ++ text ∧ Shows last v := by
  have nothing : Shows (fun _ => none) World.empty :=
    ⟨fun _ => none, ⟨fun _ => rfl, nofun⟩, directory_empty fun _ => rfl⟩
  have room : Database.Room (fun _ => none) sevenKept.length := ⟨by decide +kernel, nofun⟩
  obtain ⟨⟨outcome, v, ran⟩, every⟩ := session_refined nothing room
  obtain ⟨text, last, session, printed, shows⟩ := every outcome v ran
  exact ⟨outcome, v, text, last, ran, session, printed, shows⟩

end SqlEngine
