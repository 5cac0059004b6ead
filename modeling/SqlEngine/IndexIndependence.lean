import SqlEngine.Library.Replay
import SqlEngine.TableStore

/-! Two directories with the same tables and any index files: the same statements have the
same statuses, print the same and leave the same tables, as long as no call fails. -/
namespace SqlEngine

open Library Program World Posix

variable {w u v : World} {store : Store} {asts : List AST} {answers : List (ExecStatus × Bytes)}

/-- No table of a directory has 2^31 rows. -/
def FewRowsEach (w : World) : Prop :=
  ∀ tableName, storageValidTableName tableName = true → FewRows tableName w

/-- Statements one after the other without a call that fails: the status of each, and what
it prints. Every table has fewer than 2^31 rows in front of each of them. -/
inductive Session : List AST → World → List (ExecStatus × Bytes) → World → Prop where
  | done {w : World} : Session [] w [] w
  | statement {ast : AST} {asts : List AST} {w u v : World} {status : ExecStatus} {text : Bytes}
      {answers : List (ExecStatus × Bytes)} (few : FewRowsEach w)
        (ran : Returns (Steps .none) (execute ast) w status u)
      (printed : u.output = w.output ++ text) (rest : Session asts u answers v) :
      Session (ast :: asts) w ((status, text) :: answers) v

/-- Two directories with the same table files, each of which opens with distinct ids, and
without journals. Nothing is said about their index files. -/
structure SameTables (w v : World) : Prop where
  tables : ∀ tableName, storageValidTableName tableName = true →
    (v.file (tablePath tableName)).map File.bytes = (w.file (tablePath tableName)).map File.bytes
  sound : ∀ tableName file, storageValidTableName tableName = true →
    w.file (tablePath tableName) = some file →
    Sound file.bytes
  settled : ∀ tableName, storageValidTableName tableName = true →
    w.file (journalPath tableName) = none ∧ v.file (journalPath tableName) = none
  /-- A temporary file finds a name: otherwise `mkstemp` fails. -/
  room : ∀ tableName, storageValidTableName tableName = true →
    (Spare (indexPath tableName) w ∧ Spare (journalPath tableName) w) ∧
      Spare (indexPath tableName) v ∧ Spare (journalPath tableName) v

/-- The tables of a directory. -/
private def tablesOf (w : World) : Store :=
  fun tableName => (w.file (tablePath tableName)).map File.bytes

private theorem SameTables.directories (same : SameTables w v) :
    Directory (tablesOf w) w ∧ Directory (tablesOf w) v := by
  have sound : ∀ tableName bytes, storageValidTableName tableName = true →
      tablesOf w tableName = some bytes →
      Sound bytes := by
    intro tableName bytes valid there
    obtain ⟨file, found, rfl⟩ := Option.map_eq_some_iff.mp there
    exact same.sound tableName file valid found
  exact ⟨⟨fun _ _ => rfl, fun _ valid => (same.settled _ valid).1, sound, fun _ valid =>
    (same.room _ valid).1⟩,
    ⟨same.tables, fun _ valid => (same.settled _ valid).2, sound, fun _ valid =>
      (same.room _ valid).2⟩⟩

/-- The tables of a directory are small where its files count few rows. -/
theorem Directory.small (directory : Directory store w) (few : FewRowsEach w) : store.Small := by
  intro tableName bytes valid there
  have now := directory.files tableName valid
  rw [there] at now
  obtain ⟨file, found, rfl⟩ := Option.map_eq_some_iff.mp now
  obtain ⟨count, accepted⟩ := (directory.sound tableName _ valid there).accepted
  unfold shownRows
  rw [accepted, length_tableRows]
  exact few tableName valid file count found accepted

theorem Directory.few (directory : Directory store w) (small : store.Small) : FewRowsEach w := by
  intro tableName valid file count found accepted
  have now := directory.files tableName valid
  rw [found] at now
  have most := small tableName _ valid now.symm
  unfold shownRows at most
  rwa [accepted, length_tableRows] at most

/-- What statements come to, one after the other. -/
def Store.run (store : Store) : List AST → List (ExecStatus × Bytes) × Store
  | [] => ([], store)
  | ast :: asts =>
    let (status, text, after) := store.execute ast
    let (answers, last) := after.run asts
    ((status, text) :: answers, last)

/-- The statements of a session do what they do to the tables. -/
theorem session_follows (parsed : ∀ ast ∈ asts, Producible ast) (directory : Directory store w)
    (run : Session asts w answers v) :
    answers = (store.run asts).1 ∧ Directory (store.run asts).2 v := by
  induction run generalizing store with
  | done => exact ⟨rfl, directory⟩
  | @statement ast asts w u v status text answers few ran printed rest ih =>
    have follows : wp (Steps .none) _ (execute ast) _ w :=
      execute_follows (parsed ast List.mem_cons_self) directory (directory.small few)
    obtain ⟨_, rfl, output, after⟩ := wp_returns follows ran
    obtain rfl : text = (store.execute ast).2.1 :=
      List.append_cancel_left (printed.symm.trans output)
    obtain ⟨rfl, last⟩ := ih (fun ast member => parsed ast (List.mem_cons_of_mem _ member)) after
    exact ⟨rfl, last⟩

/-- A session is possible from every directory with the same tables. -/
theorem session_possible (parsed : ∀ ast ∈ asts, Producible ast) (directory : Directory store w)
    (run : Session asts w answers v) (other : Directory store u) :
    ∃ x, Session asts u answers x := by
  induction run generalizing store u with
  | done => exact ⟨u, .done⟩
  | @statement ast asts w y v status text answers few ran printed rest ih =>
    have producible := parsed ast List.mem_cons_self
    have small := directory.small few
    have follows : wp (Steps .none) _ (execute ast) _ w :=
      execute_follows producible directory small
    have follows' : wp (Steps .none) _ (execute ast) _ u := execute_follows producible other small
    obtain ⟨_, rfl, output, after⟩ := wp_returns follows ran
    obtain ⟨status', x, ran'⟩ := wp_progress follows'
    obtain ⟨_, rfl, output', after'⟩ := wp_returns follows' ran'
    obtain rfl : text = (store.execute ast).2.1 :=
      List.append_cancel_left (printed.symm.trans output)
    obtain ⟨last, rest'⟩ :=
      ih (fun ast member => parsed ast (List.mem_cons_of_mem _ member)) after after'
    exact ⟨last, .statement (other.few small) ran' output' rest'⟩

private theorem select_as_scan {query : SelectQuery} {table : Table} {status scanned : ExecStatus}
    {x y : World} (valid : storageValidTableName query.tableName = true)
    (directory : Directory store w) (small : store.Small)
    (selected : Returns (Steps .none) (executeSelect query) w status x)
    (opened : Returns (Steps .none) (storageOpenTableReadonly query.tableName) w (.ok table) u)
    (scans : Returns (Steps .none) (selectScanned table query) u scanned y) :
    status = scanned ∧ x.output = y.output := by
  have follows : wp (Steps .none) _ (executeSelect query) _ w :=
    select_follows valid directory small
  obtain ⟨_, rfl, output, _⟩ := wp_returns follows selected
  obtain ⟨_, opens⟩ := wp_returns (storageOpenTableReadonly_spec valid) opened
  obtain @⟨rowCount, p, file, found, accepted, _⟩ := opens
  have there : store query.tableName = some file.bytes :=
    by rw [← directory.files _ valid, found]; rfl
  have shown : shownRows file.bytes = tableRows file.bytes rowCount.toNat := by
    unfold shownRows
    rw [accepted]
  have few : (selectedRows query (tableRows file.bytes rowCount.toNat)).length ≤ INT_MAX := by
    rw [← shown]
    exact Nat.le_trans (List.length_filter_le _ _) (small _ _ valid there)
  have whole := (acceptedCount_iff.mp accepted).2.2.2.2
  generalize opened_world : { w with next := w.next + 1 } = beside at scans
  have foundB : beside.file (tablePath query.tableName) = some file := opened_world ▸ found
  have outputB : beside.output = w.output := opened_world ▸ rfl
  generalize opened_table :
    ({ name := query.tableName, file := w.next, rowCount, writable := false } : Table) =
      table at scans
  have handle : table.file = w.next := opened_table ▸ rfl
  have counted : table.rowCount = rowCount := opened_table ▸ rfl
  rw [← counted] at whole few shown
  rw [← handle] at scans
  have scan : wp (Steps .none) _ (selectScanned table query) _
      (beside.cursor table.file (tablePath query.tableName) p) :=
    selectScanned_spec foundB whole
  obtain ⟨_, q, text, rfl, ⟨rfl, prints⟩ | ⟨_, calls⟩⟩ := wp_returns scan scans
  · have answer : store.select query =
      (.ok, selectionText query (tableRows file.bytes table.rowCount.toNat), store) := by
      unfold Store.select
      rw [there, ← shown]
    rw [answer] at output ⊢
    refine ⟨rfl, ?_⟩
    rw [output, output_printed, output_cursor, outputB, prints few]
  · cases calls

/-- Two runs of the same statements from directories that differ in their index files have
the same answers and end with the same table files; a SELECT prints what a scan of its
table prints. -/
theorem index_independent {w' : World} (same : SameTables w v)
    (parsed : ∀ ast ∈ asts, Producible ast) (run : Session asts w answers w') :
    (∃ v', Session asts v answers v') ∧
      (∀ answers' v', Session asts v answers' v' → answers' = answers ∧
        ∀ tableName, storageValidTableName tableName = true →
          (v'.file (tablePath tableName)).map File.bytes =
            (w'.file (tablePath tableName)).map File.bytes) ∧
      ∀ (query : SelectQuery) table u status scanned x y,
        storageValidTableName query.tableName = true → FewRowsEach w' →
        Returns (Steps .none) (executeSelect query) w' status x →
        Returns (Steps .none) (storageOpenTableReadonly query.tableName) w' (.ok table) u →
        Returns (Steps .none) (selectScanned table query) u scanned y →
          status = scanned ∧ x.output = y.output := by
  obtain ⟨first, second⟩ := same.directories
  obtain ⟨rfl, last⟩ := session_follows parsed first run
  refine ⟨session_possible parsed first run second, fun answers' v' run' => ?_, ?_⟩
  · obtain ⟨rfl, last'⟩ := session_follows parsed second run'
    exact ⟨rfl, fun tableName valid =>
      (last'.files tableName valid).trans (last.files tableName valid).symm⟩
  · intro query table u status scanned x y valid few selected opened scans
    exact select_as_scan valid last (last.small few) selected opened scans

/-- A directory with an empty table, and an index file or none. -/
private def withIndex (index : Option File) : World :=
  (World.empty.setEntry (tablePath (str "t")) { now := some rowlessFile, before := [] }).setEntry
    (indexPath (str "t"))
    { now := index, before := [] }

private def junkFile : File := { bytes := [1, 2, 3], older := [], fits := by decide }

private def sevenAdded : AST := .insert { tableName := str "t", id := 7, name := str "a" }

private theorem withIndex_file {path : Path} (index : Option File)
    (off : path ≠ indexPath (str "t")) :
    (withIndex index).file path = if path = tablePath (str "t") then some rowlessFile
      else none := by
  by_cases same : path = tablePath (str "t")
  · rw [if_pos same, withIndex, World.file, entries_setEntry_ne off, same, entries_setEntry]
  · rw [if_neg same, withIndex, World.file, entries_setEntry_ne off, entries_setEntry_ne same]
    rfl

private theorem withIndex_same : SameTables (withIndex none) (withIndex (some junkFile)) := by
  have noDot : 46 ∉ str "t" := by decide
  have table : ∀ tableName, storageValidTableName tableName = true →
      tablePath tableName ≠ indexPath (str "t") :=
    fun tableName valid same =>
      (indexPath_apart (storageValidTableName_parts valid).noDot noDot).2.2
        (same ▸ List.prefix_refl _)
  have settled : ∀ tableName index, storageValidTableName tableName = true →
      (withIndex index).file (journalPath tableName) = none := by
    intro tableName index valid
    have clean := (storageValidTableName_parts valid).noDot
    rw [withIndex_file, if_neg]
    · intro same
      have front : journalPath tableName <+: tablePath (str "t") := same ▸ List.prefix_refl _
      exact absurd (path_front clean noDot front).2 (by decide)
    · intro same
      exact (indexPath_apart clean noDot).2.2 (same ▸ tablePath_prefix_journalPath tableName)
  have room : ∀ path index, Spare path (withIndex index) := by
    intro path index
    have last : (path ++ str ".tmp." ++ str "aaaaaa").getLast? = some 97 := by simp [str]
    refine ⟨str "aaaaaa", by decide, ?_⟩
    rw [withIndex_file, if_neg]
    · intro same
      rw [same] at last
      exact absurd last (by decide)
    · intro same
      rw [same] at last
      exact absurd last (by decide)
  refine ⟨fun tableName valid => ?_, fun tableName file valid found => ?_, fun tableName valid =>
    ⟨settled tableName none valid, settled tableName _ valid⟩, fun tableName valid =>
    ⟨⟨room _ none, room _ none⟩, room _ _, room _ _⟩⟩
  · rw [withIndex_file none (table tableName valid), withIndex_file _ (table tableName valid)]
  · rw [withIndex_file none (table tableName valid)] at found
    split at found
    · cases found
      exact sound_blank
    · cases found

private theorem withIndex_few (index : Option File) : FewRowsEach (withIndex index) := by
  intro tableName valid file count found accepted
  have off : tablePath tableName ≠ indexPath (str "t") := fun same =>
    (indexPath_apart (storageValidTableName_parts valid).noDot (show 46 ∉ str "t" by decide)).2.2
      (same ▸ List.prefix_refl _)
  rw [withIndex_file index off] at found
  split at found
  · cases found
    rw [show acceptedCount rowlessFile.bytes = .ok 0 from acceptedCount_blank] at accepted
    cases accepted
    exact Nat.zero_le _
  · cases found

private def sevenChoices : List Choice := List.replicate 130 { suffix := str "aaaaaa" }

/-- An INSERT, with no index file and with one that is not an index. -/
theorem index_independent_junk :
    ∃ v, Session [sevenAdded] (withIndex (some junkFile)) [(.ok, insertedText 7)] v := by
  have parsed : ∀ ast ∈ [sevenAdded], Producible ast := by
    intro ast member
    rw [List.mem_singleton.mp member]
    exact ⟨⟨str "INSERT INTO t VALUES(7,\"a\");", by decide⟩, 64, _, rfl, rfl⟩
  have ran : Returns (Steps .none) (execute sevenAdded) (withIndex none) .ok
      (replayed .none (execute sevenAdded) sevenChoices (withIndex none)) :=
        replayed_returns (by decide +kernel)
  have printed : (replayed .none (execute sevenAdded) sevenChoices (withIndex none)).output =
      (withIndex none).output ++ insertedText 7 := by decide +kernel
  exact (index_independent withIndex_same parsed
    (.statement (withIndex_few none) ran printed .done)).1

end SqlEngine
