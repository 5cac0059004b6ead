import SqlEngine.IndexIndependence

/-! An abstract database, which maps names of tables to lists of ids and names, and the
simulation: what a run of the engine returns and prints, the abstract database answers.
Pages, headers, journals and index files are no part of it. -/
namespace SqlEngine

open Library Program World Posix

variable {store : Store} {w v : World} {bytes : Bytes} {tableName text : Bytes}

/-! ## The abstract database -/

/-- What one INSERT stores. -/
structure Record where
  id : Int32
  name : Bytes
  deriving DecidableEq, Repr

/-- To each table its records, in the order of their insertion. -/
abbrev Database := Bytes → Option (List Record)

/-- The WHERE equality. -/
def Record.satisfies (query : SelectQuery) (record : Record) : Bool :=
  if !query.hasWhere then true
  else
    match columnFromName query.whereColumn with
    | .id => utilParseInt32 query.whereValue == some record.id
    | .name => record.name == query.whereValue
    | _ => false

/-- A field of a record as text. -/
def Record.field (record : Record) (column : Bytes) : Bytes :=
  match columnFromName column with
  | .id => decimal record.id
  | .name => record.name.flatMap escapedChar
  | _ => []

/-- The projection of a record, as a line. -/
def Record.line (query : SelectQuery) (record : Record) : Bytes :=
  if query.selectAll then
    padTo10 (decimal record.id) ++ str " " ++ record.name.flatMap escapedChar ++ newline
  else ((query.columns.map record.field).intersperse (str " ")).flatten ++ newline

/-- The data lines for some records, in order, behind a header if there are any. -/
def dataText (query : SelectQuery) (records : List Record) : Bytes :=
  if records = [] then [] else headerText query ++ records.flatMap (Record.line query)

/-- What a SELECT prints: the records that satisfy its WHERE clause, and how many they are. -/
def answerText (query : SelectQuery) (records : List Record) : Bytes :=
  dataText query (records.filter (Record.satisfies query)) ++ countText
    (records.filter (Record.satisfies query)).length

/-- What an operation returns and prints on an abstract database, and the database behind
it. Of a creation that is refused only that it does not return `ok` is said, and of a
rebuild nothing. -/
inductive Database.Step : Database → Operation → Outcome → Bytes → Database → Prop where
  | created {db : Database} {tableName : Bytes} (valid : storageValidTableName tableName = true)
      (new : db tableName = none) :
      Step db (.create tableName) (.created .ok) [] (Function.update db tableName (some []))
  | notCreated {db : Database} {tableName : Bytes} {status : TableCreateStatus}
      (refused : ¬ (storageValidTableName tableName = true ∧ db tableName = none))
        (failed : status ≠ .ok) :
      Step db (.create tableName) (.created status) [] db
  | rebuilt {db : Database} {tableName : Bytes} {status : IndexStatus} :
      Step db (.rebuild tableName) (.rebuilt status) [] db
  | rejected {db : Database} {ast : AST} (invalid : semanticValidate ast ≠ .ok) :
      Step db (.execute ast) (.executed .semanticError)
        (str "Error: Semantic error: " ++ semanticStatusString
          (semanticValidate ast) ++ str "." ++ newline) db
  | absent {db : Database} {ast : AST} (valid : semanticValidate ast = .ok)
      (missing : db ast.tableName = none) :
      Step db (.execute ast) (.executed .tableNotFound) (absentText ast.tableName) db
  | inserted {db : Database} {query : InsertQuery} {records : List Record}
      (there : db query.tableName = some records)
      (new : query.id ∉ records.map Record.id) :
      Step db (.execute (.insert query)) (.executed .ok) (insertedText query.id)
        (Function.update db query.tableName
          (some (records ++ [{ id := query.id, name := query.name }])))
  | taken {db : Database} {query : InsertQuery} {records : List Record}
      (there : db query.tableName = some records)
      (old : query.id ∈ records.map Record.id) :
      Step db (.execute (.insert query)) (.executed .duplicateId) (takenText query.id) db
  | selected {db : Database} {query : SelectQuery} {records : List Record}
      (valid : semanticValidate (.select query) = .ok)
      (there : db query.tableName = some records) :
      Step db (.execute (.select query)) (.executed .ok) (answerText query records) db

/-- Operations one after the other on an abstract database, and what each returned and
printed. -/
inductive Database.Run : Database → List Operation → List (Outcome × Bytes) → Database → Prop where
  | done {db : Database} : Run db [] [] db
  | operation {db between after : Database} {operation : Operation} {operations : List Operation}
      {outcome : Outcome}
      {text : Bytes} {answers : List (Outcome × Bytes)}
        (step : db.Step operation outcome text between)
      (rest : Run between operations answers after) :
      Run db (operation :: operations) ((outcome, text) :: answers) after

/-- Operations of the engine one after the other, without a call that fails: what each
returned and printed. Every table has fewer than 2^31 rows in front of each of them. -/
inductive Operated : List Operation → World → List (Outcome × Bytes) → World → Prop where
  | done {w : World} : Operated [] w [] w
  | operation {operation : Operation} {operations : List Operation} {w u v : World}
      {outcome : Outcome} {text : Bytes}
      {answers : List (Outcome × Bytes)} (few : FewRowsEach w)
        (ran : Returns (Steps .none) operation.run w outcome u)
      (printed : u.output = w.output ++ text) (rest : Operated operations u answers v) :
      Operated (operation :: operations) w ((outcome, text) :: answers) v

/-- Of a table that exists, its ids decide what an INSERT does. -/
theorem Database.Step.insert_exists {db next : Database} {query : InsertQuery}
    {records : List Record} {outcome : Outcome}
    (step : db.Step (.execute (.insert query)) outcome text next)
    (there : db query.tableName = some records) :
    if query.id ∈ records.map Record.id then
      outcome = .executed .duplicateId ∧ text = takenText query.id ∧ next = db
    else
      outcome = .executed .ok ∧ text = insertedText query.id ∧
        next = Function.update db query.tableName
          (some (records ++ [{ id := query.id, name := query.name }])) := by
  cases step with
  | rejected invalid => exact absurd rfl invalid
  | absent valid missing => exact absurd (missing.symm.trans there) nofun
  | inserted found new =>
    obtain rfl := Option.some.inj (found.symm.trans there)
    rw [if_neg new]
    exact ⟨rfl, rfl, rfl⟩
  | taken found old =>
    obtain rfl := Option.some.inj (found.symm.trans there)
    rw [if_pos old]
    exact ⟨rfl, rfl, rfl⟩

/-- A SELECT that is accepted reads the records of its table. -/
theorem Database.Step.select_exists {db next : Database} {query : SelectQuery}
    {records : List Record} {outcome : Outcome}
    (step : db.Step (.execute (.select query)) outcome text next)
    (valid : semanticValidate (.select query) = .ok) (there : db query.tableName = some records) :
    outcome = .executed .ok ∧ text = answerText query records ∧ next = db := by
  cases step with
  | rejected invalid => exact absurd valid invalid
  | absent valid missing => exact absurd (missing.symm.trans there) nofun
  | selected valid found =>
    obtain rfl := Option.some.inj (found.symm.trans there)
    exact ⟨rfl, rfl, rfl⟩

/-- A creation succeeds if its name is valid and new. -/
theorem Database.Step.create_new {db next : Database} {outcome : Outcome}
    (step : db.Step (.create tableName) outcome text next)
    (valid : storageValidTableName tableName = true) (new : db tableName = none) :
    outcome = .created .ok ∧ text = [] ∧ next = Function.update db tableName (some []) := by
  cases step with
  | created valid new => exact ⟨rfl, rfl, rfl⟩
  | notCreated refused failed => exact absurd ⟨valid, new⟩ refused

/-! ## Records and rows -/

variable {record : Record} {records : List Record} {query : SelectQuery}

/-- The row that a record is stored as: NUL bytes fill its name up. -/
def Record.row (record : Record) : Row :=
  { id := record.id, name := record.name.takeD STORAGE_NAME_SIZE 0,
    name_size := List.takeD_length _ _ _ }

/-- A name that the row of a record holds. -/
structure Record.Storable (record : Record) : Prop where
  short : record.name.length ≤ 31
  nulFree : 0 ∉ record.name

theorem takeD_short {n : Nat} (short : bytes.length ≤ n) :
    bytes.takeD n 0 = bytes ++ List.replicate (n - bytes.length) 0 := by
  induction n generalizing bytes with
  | zero => rw [List.eq_nil_of_length_eq_zero (Nat.le_zero.mp short)]; rfl
  | succ n ih =>
    cases bytes with
    | nil => rw [List.takeD_nil]; rfl
    | cons first rest =>
      rw [List.length_cons, Nat.add_le_add_iff_right] at short
      rw [List.takeD_succ, List.tail_cons, ih short, List.length_cons, Nat.add_sub_add_right]
      rfl

theorem Record.Storable.name (storable : record.Storable) :
    record.row.name = record.name ++ List.replicate (32 - record.name.length) 0 :=
  takeD_short (Nat.le_succ_of_le storable.short)

/-- The row of a storable record is stored without loss. -/
theorem Record.Storable.visible (storable : record.Storable) :
    visibleRow record.row = record.row := by
  refine visibleRow_eq ?_
  have short := storable.short
  rw [storable.name, List.getD_append_right _ _ _ _ short, List.getD_replicate]
  omega

theorem Record.Storable.cstr (storable : record.Storable) : cstr record.row.name = record.name := by
  have nonzero : ∀ c ∈ record.name, (c != 0) = true := by
    intro c member
    rw [bne_iff_ne]
    rintro rfl
    exact storable.nulFree member
  rw [storable.name, SqlEngine.cstr, List.takeWhile_append_of_pos nonzero]
  simp

theorem Record.Storable.escaped (storable : record.Storable) :
    escapedField record.row.name = record.name.flatMap escapedChar := by
  have kept : record.name.reverse.dropWhile (· == 0) = record.name.reverse := by
    cases reversed : record.name.reverse with
    | nil => rfl
    | cons last front =>
      have member : last ∈ record.name :=
        by rw [← List.mem_reverse, reversed]; exact List.mem_cons_self
      refine List.dropWhile_cons_of_neg ?_
      rw [beq_iff_eq]
      rintro rfl
      exact storable.nulFree member
  rw [storable.name, escapedField, List.reverse_append, List.reverse_replicate,
    List.dropWhile_append_of_pos (by simp), kept, List.reverse_reverse]

/-- A SELECT treats a row as the record that it stores. -/
theorem rowMatchesWhere_row (storable : record.Storable) :
    rowMatchesWhere record.row query = record.satisfies query := by
  unfold rowMatchesWhere Record.satisfies
  rw [storable.cstr]
  cases utilParseInt32 query.whereValue with
  | none => rfl
  | some wantedId =>
    have byId : (record.row.id == wantedId) = (some wantedId == some record.id) := by
      rw [Bool.eq_iff_iff, beq_iff_eq, beq_iff_eq, Option.some.injEq]
      exact eq_comm
    exact congrArg (fun found =>
      if !query.hasWhere then true
      else
        match columnFromName query.whereColumn with
        | .id => found
        | .name => record.name == query.whereValue
        | _ => false) byId

private theorem rowText_row (storable : record.Storable) :
    rowText record.row query = record.line query := by
  have field : columnText record.row = record.field := by
    funext column
    unfold columnText Record.field
    rw [storable.escaped]
    rfl
  unfold rowText Record.line
  rw [storable.escaped, field]
  rfl

private theorem selectionText_rows (storable : ∀ record ∈ records, record.Storable) :
    selectionText query (records.map Record.row) = answerText query records := by
  have chosen : selectedRows query (records.map Record.row) =
      (records.filter (Record.satisfies query)).map Record.row := by
    rw [selectedRows, List.filter_map]
    congr 1
    exact List.filter_congr fun record member => rowMatchesWhere_row (storable record member)
  have lines : ((records.filter (Record.satisfies query)).map Record.row).flatMap
      (rowText · query) =
      (records.filter (Record.satisfies query)).flatMap (Record.line query) := by
    rw [List.flatMap_map]
    exact List.flatMap_congr fun record member =>
      rowText_row (storable record (List.mem_of_mem_filter member))
  unfold selectionText answerText linesText dataText
  rw [chosen, lines, List.length_map]
  simp only [List.map_eq_nil_iff]

/-! ## The simulation -/

/-- The tables of a store show the records of an abstract database. -/
structure Represents (db : Database) (store : Store) : Prop where
  shows : ∀ tableName, (store tableName).map shownRows = (db tableName).map (List.map Record.row)
  storable : ∀ tableName records, db tableName = some records → ∀ record ∈ records, record.Storable

variable {db : Database}

/-- A table is missing in the directory exactly when it is in the database. -/
theorem Represents.absent (represents : Represents db store) :
    store tableName = none ↔ db tableName = none := by
  rw [← Option.map_eq_none_iff (f := shownRows), represents.shows, Option.map_eq_none_iff]

/-- A table of the directory shows the records of the database. -/
theorem Represents.present (represents : Represents db store)
    (there : store tableName = some bytes) :
    ∃ records, db tableName = some records ∧ shownRows bytes = records.map Record.row := by
  have same := represents.shows tableName
  rw [there, Option.map_some] at same
  obtain ⟨records, found, shown⟩ := Option.map_eq_some_iff.mp same.symm
  exact ⟨records, found, shown.symm⟩

/-- A table gets other records. -/
theorem Represents.update (represents : Represents db store)
    (shown : shownRows bytes = records.map Record.row)
    (storable : ∀ record ∈ records, record.Storable) :
    Represents (Function.update db tableName (some records))
      (Function.update store tableName (some bytes)) := by
  refine ⟨fun other => ?_, fun other others found => ?_⟩
  · by_cases same : other = tableName
    · rw [same, Function.update_self, Function.update_self, Option.map_some, Option.map_some, shown]
    · rw [Function.update_of_ne same, Function.update_of_ne same]
      exact represents.shows other
  · by_cases same : other = tableName
    · rw [same, Function.update_self, Option.some.injEq] at found
      exact found ▸ storable
    · rw [Function.update_of_ne same] at found
      exact represents.storable other others found

private theorem newRow_record {query : InsertQuery} (short : query.name.length ≤ 31) :
    newRow query.id query.name = some (Record.row { id := query.id, name := query.name }) :=
  newRow_short _ short

private theorem select_simulates (represents : Represents db store)
    (valid : semanticValidate (.select query) = .ok) :
    db.Step (.execute (.select query)) (.executed (store.select query).1)
      (store.select query).2.1 db ∧
      (store.select query).2.2 = store := by
  unfold Store.select
  cases there : store query.tableName with
  | none => exact ⟨.absent valid (represents.absent.mp there), rfl⟩
  | some bytes =>
    obtain ⟨records, found, shown⟩ := represents.present there
    dsimp only
    rw [shown, selectionText_rows (represents.storable _ _ found)]
    exact ⟨.selected valid found, rfl⟩

private theorem insert_simulates {query : InsertQuery}
    (storable : Record.Storable { id := query.id, name := query.name })
    (represents : Represents db store) (directory : Directory store w) (small : store.Small)
    (valid : storageValidTableName query.tableName = true)
    (after : Directory (store.insert query).2.2 v) :
    ∃ next, db.Step (.execute (.insert query)) (.executed (store.insert query).1)
      (store.insert query).2.1 next ∧
      Represents next (store.insert query).2.2 := by
  unfold Store.insert at after ⊢
  cases there : store query.tableName with
  | none => exact ⟨db, .absent rfl (represents.absent.mp there), represents⟩
  | some bytes =>
    obtain ⟨records, found, shown⟩ := represents.present there
    have ids : (shownRows bytes).map Row.id = records.map Record.id := by
      rw [shown, List.map_map]
      rfl
    rw [there] at after
    dsimp only at after ⊢
    by_cases among : query.id ∈ records.map Record.id
    · rw [if_pos (ids ▸ among)]
      exact ⟨db, .taken found among, represents⟩
    · rw [if_neg (ids ▸ among), newRow_record storable.short] at after ⊢
      dsimp only at after ⊢
      -- the table file behind the statement has a length that a file can have
      have now := after.files _ valid
      rw [Function.update_self] at now
      obtain ⟨file, _, image⟩ := Option.map_eq_some_iff.mp now
      obtain ⟨_, grown⟩ :=
        shownRows_inserted (directory.sound _ _ valid there) (small _ _ valid there) image
      rw [image, shown, storable.visible] at grown
      refine ⟨_, .inserted found among,
        represents.update (by rw [grown, List.map_append, List.map_singleton]) ?_⟩
      intro record member
      rcases List.mem_append.mp member with old | new
      · exact represents.storable _ _ found record old
      · rwa [List.mem_singleton.mp new]

/-- A statement does on the tables what it does on the abstract database. -/
theorem execute_simulates {ast : AST} (producible : Producible ast)
    (represents : Represents db store) (directory : Directory store w) (small : store.Small)
    (after : Directory (store.execute ast).2.2 v) :
    ∃ next, db.Step (.execute ast) (.executed (store.execute ast).1) (store.execute ast).2.1 next ∧
      Represents next (store.execute ast).2.2 := by
  have named := producible.named.valid
  by_cases valid : semanticValidate ast = .ok
  · unfold Store.execute at after ⊢
    rw [valid] at after ⊢
    cases ast with
    | select query =>
      obtain ⟨step, same⟩ := select_simulates represents valid
      refine ⟨db, step, ?_⟩
      change Represents db (store.select query).2.2
      rwa [same]
    | insert query =>
      obtain ⟨short, nulFree⟩ := producible.stored
      exact insert_simulates ⟨short, nulFree⟩ represents directory small named after
  · have rejected : store.execute ast = (.semanticError, str "Error: Semantic error: " ++
        semanticStatusString (semanticValidate ast) ++ str "." ++ newline, store) := by
      unfold Store.execute
      cases checked : semanticValidate ast with
      | ok => exact absurd checked valid
      | _ => rfl
    rw [rejected]
    exact ⟨db, .rejected valid, represents⟩

/-- An operation does what it does on the abstract database. -/
theorem operation_simulates {operation : Operation} (parsed : operation.Parsed)
    (represents : Represents db store) (directory : Directory store w) (small : store.Small) :
    wp (Steps .none) (fun _ => True) operation.run (fun outcome v => ∃ text next nextStore,
      v.output = w.output ++ text ∧ db.Step operation outcome text next ∧
        Represents next nextStore ∧
        Directory nextStore v) w := by
  cases operation with
  | create tableName =>
    refine wp_seq (create_follows directory) (fun _ _ => trivial) ?_
    rintro status v _ ⟨succeeds, printed, after⟩
    refine ⟨trivial, [], ?_⟩
    rw [List.append_nil]
    by_cases creates : storageValidTableName tableName = true ∧ store tableName = none
    · obtain rfl := succeeds.mpr creates
      have blank : shownRows (headerBytes 0) = ([] : List Record).map Record.row := by
        unfold shownRows
        rw [acceptedCount_blank]
        rfl
      rw [Store.create, if_pos creates] at after
      exact ⟨_, _, printed, .created creates.1 (represents.absent.mp creates.2),
        represents.update blank (by simp), after⟩
    · have failed : status ≠ .ok := fun ok => creates (succeeds.mp ok)
      rw [Store.create, if_neg creates] at after
      rw [represents.absent] at creates
      exact ⟨_, _, printed, .notCreated creates failed, represents, after⟩
  | rebuild tableName =>
    refine wp_seq (rebuild_follows directory) (fun _ _ => trivial) ?_
    rintro status v _ ⟨printed, after⟩
    exact ⟨trivial, [], db, store, printed.trans (List.append_nil _).symm, .rebuilt,
      represents, after⟩
  | execute ast =>
    refine wp_seq (execute_follows parsed directory small) (fun _ _ => trivial) ?_
    rintro status v _ ⟨rfl, printed, after⟩
    obtain ⟨next, step, shows⟩ := execute_simulates parsed represents directory small after
    exact ⟨trivial, _, next, _, printed, step, shows, after⟩

/-- The operations of a run do what they do on the abstract database. -/
theorem operated_simulates {operations : List Operation} {answers : List (Outcome × Bytes)}
    (parsed : ∀ operation ∈ operations, operation.Parsed) (represents : Represents db store)
    (directory : Directory store w)
    (run : Operated operations w answers v) :
    ∃ last lastStore, db.Run operations answers last ∧ Represents last lastStore ∧
      Directory lastStore v := by
  induction run generalizing db store with
  | done => exact ⟨db, store, .done, represents, directory⟩
  | @operation operation operations w u v outcome text answers few ran printed rest ih =>
    have simulates : wp (Steps .none) _ operation.run _ w :=
      operation_simulates (parsed operation List.mem_cons_self) represents directory
        (directory.small few)
    obtain ⟨_, text', next, nextStore, output, step, represents', directory'⟩ :=
      wp_returns simulates ran
    obtain rfl : text = text' := List.append_cancel_left (printed.symm.trans output)
    obtain ⟨last, lastStore, steps, ends⟩ :=
      ih (fun other member => parsed other (List.mem_cons_of_mem _ member)) represents' directory'
    exact ⟨last, lastStore, .operation step steps, ends⟩

/-- An empty directory has no tables. -/
theorem directory_empty (empty : ∀ path, w.file path = none) : Directory (fun _ => none) w where
  files tableName _ := by rw [empty]; rfl
  settled tableName _ := empty _
  sound := nofun
  room tableName _ := ⟨⟨str "aaaaaa", by decide, empty _⟩, str "aaaaaa", by decide, empty _⟩

/-- A run of the engine that starts from an empty directory, without a call that fails, is
a run of the abstract database: what each operation returned and printed, the abstract
database answers, and in the end the table files show its records. Behind every run the
next operation returns. -/
theorem database_refined {operations : List Operation} {answers : List (Outcome × Bytes)}
    (empty : ∀ path, w.file path = none) (parsed : ∀ operation ∈ operations, operation.Parsed)
    (run : Operated operations w answers v) :
    (∃ db, Database.Run (fun _ => none) operations answers db ∧
      ∀ tableName, storageValidTableName tableName = true →
      (v.file (tablePath tableName)).map (fun file => shownRows file.bytes) =
        (db tableName).map (List.map Record.row)) ∧
      ∀ operation : Operation, operation.Parsed → FewRowsEach v →
        ∃ outcome u, Returns (Steps .none) operation.run v outcome u := by
  have nothing : Represents (fun _ => none) (fun _ => none) := ⟨fun _ => rfl, nofun⟩
  obtain ⟨db, store, steps, represents, directory⟩ :=
    operated_simulates parsed nothing (directory_empty empty) run
  refine ⟨⟨db, steps, fun tableName valid => ?_⟩, fun operation parsed few => ?_⟩
  · rw [← represents.shows, ← directory.files _ valid, Option.map_map]
    rfl
  · have simulates : wp (Steps .none) _ operation.run _ v :=
      operation_simulates parsed represents directory (directory.small few)
    exact wp_progress simulates

/-- An operation adds at most one record to a table. -/
theorem Database.Step.length_le {next : Database} {operation : Operation} {outcome : Outcome}
    {others : List Record} (step : db.Step operation outcome text next)
    (there : next tableName = some others) :
    others = [] ∨ ∃ records, db tableName = some records ∧ others.length ≤ records.length + 1 := by
  cases step with
  | @created made valid new =>
    by_cases same : tableName = made
    · rw [same, Function.update_self, Option.some.injEq] at there
      exact .inl there.symm
    · rw [Function.update_of_ne same] at there
      exact .inr ⟨others, there, Nat.le_succ _⟩
  | @inserted query records found new =>
    by_cases same : tableName = query.tableName
    · rw [same, Function.update_self, Option.some.injEq] at there
      rw [same, ← there, List.length_append]
      exact .inr ⟨records, found, Nat.le_refl _⟩
    · rw [Function.update_of_ne same] at there
      exact .inr ⟨others, there, Nat.le_succ _⟩
  | _ => exact .inr ⟨others, there, Nat.le_succ _⟩

private theorem operated_possible {operations : List Operation}
    (parsed : ∀ operation ∈ operations, operation.Parsed)
    (represents : Represents db store) (directory : Directory store w)
    (possible : operations.length ≤ INT_MAX)
    (room : ∀ tableName records, db tableName = some records →
      records.length + operations.length ≤ INT_MAX) :
    ∃ answers v, Operated operations w answers v := by
  induction operations generalizing db store w with
  | nil => exact ⟨[], w, .done⟩
  | cons operation operations ih =>
    have small : store.Small := by
      intro tableName bytes _ there
      obtain ⟨records, found, shown⟩ := represents.present there
      rw [shown, List.length_map]
      exact Nat.le_trans (Nat.le_add_right _ _) (room _ _ found)
    have simulates : wp (Steps .none) _ operation.run _ w :=
      operation_simulates (parsed operation List.mem_cons_self) represents directory small
    obtain ⟨outcome, u, ran⟩ := wp_progress simulates
    obtain ⟨_, text, next, nextStore, output, step, represents', directory'⟩ :=
      wp_returns simulates ran
    rw [List.length_cons] at possible
    have fewer : ∀ tableName records, next tableName = some records →
        records.length + operations.length ≤ INT_MAX := by
      intro tableName others there
      rcases step.length_le there with rfl | ⟨records, found, grown⟩
      · rw [List.length_nil]
        omega
      · have bound := room _ _ found
        rw [List.length_cons] at bound
        omega
    obtain ⟨answers, v, rest⟩ := ih
      (fun other member => parsed other (List.mem_cons_of_mem _ member)) represents' directory'
      (by omega) fewer
    exact ⟨(outcome, text) :: answers, v, .operation (directory.few small) ran output rest⟩

private def rowAdded : AST := .insert { tableName := str "t", id := 7, name := str "a" }

private def namesSelected : AST := .select
  { tableName := str "t", selectAll := false, columns := [str "name"], hasWhere := false,
    whereColumn := [],
    whereValue := [], whereValueType := .number }

/-- A table is created, a row inserted twice, and its name selected. -/
theorem database_refined_once : ∃ v, Operated
    [.create (str "t"), .execute rowAdded, .execute rowAdded, .execute namesSelected] World.empty
    [(.created .ok, []), (.executed .ok, insertedText 7), (.executed .duplicateId, takenText 7),
      (.executed .ok, str "name\na\n\n(1 row(s) returned)\n")] v := by
  have nothing : Represents (fun _ => none) (fun _ => none) := ⟨fun _ => rfl, nofun⟩
  have adds : Producible rowAdded := 
    producible_of_read ⟨str "INSERT INTO t VALUES(7,\"a\");", by decide⟩ (by decide +kernel)
  have selects : Producible namesSelected := 
    producible_of_read ⟨str "SELECT name FROM t;", by decide⟩ (by decide +kernel)
  have parsed : ∀ operation ∈ [Operation.create (str "t"), .execute rowAdded, .execute rowAdded,
    .execute namesSelected],
      operation.Parsed := by
    simp [Operation.Parsed, adds, selects]
  have few : 4 ≤ INT_MAX := by unfold INT_MAX; omega
  obtain ⟨answers, v, run⟩ := operated_possible parsed nothing
    (directory_empty (w := World.empty) fun _ => rfl) few nofun
  obtain ⟨⟨db, steps, _⟩, _⟩ := database_refined (fun _ => rfl) parsed run
  obtain _ | ⟨created, _ | ⟨added, _ | ⟨again, _ | ⟨asked, ⟨⟩⟩⟩⟩⟩ := steps
  obtain ⟨rfl, rfl, rfl⟩ := created.create_new (by decide) rfl
  obtain ⟨rfl, rfl, rfl⟩ := added.insert_exists rfl
  obtain ⟨rfl, rfl, rfl⟩ := again.insert_exists rfl
  obtain ⟨rfl, rfl, rfl⟩ := asked.select_exists (by decide) rfl
  exact ⟨v, run⟩

end SqlEngine
