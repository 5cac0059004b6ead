import SqlEngine.Library.Replay
import SqlEngine.TableRecovery
import SqlEngine.TableScan

/-! Runs of insertions with failing calls and crashes: every table that opens shows a
subsequence of the rows that were tried, with every row whose insertion was reported. -/
namespace SqlEngine

open Library Program World Posix

/-- A table that has just been created under a name that was not in use. -/
def FreshTable (faults : Faults) (tableName : Bytes) (w : World) : Prop :=
  ∃ u, u.entries (tablePath tableName) = { now := none, before := [] } ∧
    u.entries (journalPath tableName) = { now := none, before := [] } ∧
    Returns (Steps faults) (storageCreateTable tableName) u .ok w

/-- A run on one table through one handle at a time: the rows that were tried, those
whose insertion returned with success, and the handle that is open. A crash may come at
any point of an operation. -/
inductive InsertRun (faults : Faults) (permit : World → Table → Prop) (tableName : Bytes)
    (start : World) :
    List Row → List Row → World → Option Table → Prop where
  | start : InsertRun faults permit tableName start [] [] start none
  | opened (run : InsertRun faults permit tableName start attempted acked w none)
      (ran : Returns (Steps faults) (storageOpenTable tableName) w (.ok table) v) :
      InsertRun faults permit tableName start attempted acked v (some table)
  | refused (run : InsertRun faults permit tableName start attempted acked w none)
      (ran : Returns (Steps faults) (storageOpenTable tableName) w (.error status) v) :
      InsertRun faults permit tableName start attempted acked v none
  | openCrashed (run : InsertRun faults permit tableName start attempted acked w none)
      (stopped : Stops (Steps faults) (storageOpenTable tableName) w u) (crash : Crash u v) :
      InsertRun faults permit tableName start attempted acked v none
  | inserted (run : InsertRun faults permit tableName start attempted acked w (some table))
      (permitted : permit w table) (ran :
        Returns (Steps faults) (storageInsertRow table row) w (.ok (offset, after)) v) :
      InsertRun faults permit tableName start (attempted ++ [row]) (acked ++ [row]) v (some after)
  | failed (run : InsertRun faults permit tableName start attempted acked w (some table))
      (permitted : permit w table) (ran :
        Returns (Steps faults) (storageInsertRow table row) w (.error status) v) :
      InsertRun faults permit tableName start (attempted ++ [row]) acked v (some table)
  | insertCrashed (run : InsertRun faults permit tableName start attempted acked w (some table))
      (permitted : permit w table) (stopped : Stops (Steps faults) (storageInsertRow table row) w u)
      (crash : Crash u v) :
        InsertRun faults permit tableName start (attempted ++ [row]) acked v none
  | closed (run : InsertRun faults permit tableName start attempted acked w (some table))
      (ran : Returns (Steps faults) (storageCloseTable table) w () v) :
      InsertRun faults permit tableName start attempted acked v none
  | closeCrashed (run : InsertRun faults permit tableName start attempted acked w (some table))
      (stopped : Stops (Steps faults) (storageCloseTable table) w u) (crash : Crash u v) :
      InsertRun faults permit tableName start attempted acked v none

/-- The journal is there, or the header counts what the handle counts: not so behind an
insertion that failed once its journal was removed. -/
def HandleCurrent (w : World) (table : Table) : Prop :=
  (w.file (journalPath table.name)).isSome = true ∨
    ∃ file, w.file (tablePath table.name) = some file ∧ (headerOf file.bytes).count = table.rowCount

/-- The circumstances of such a run: crashes, and the rows that were tried. -/
def attemptRegime (attempted : List Row) : Regime :=
  { crashes := true, overlook := false, tail := 0, fine := fun rows => rows.Sublist attempted }

variable {faults : Faults} {tableName : Bytes} {attempted acked rows : List Row} {row : Row}
    {kept : Nat}
  {w v start : World} {table : Table} {handle : Option Table}

/-! ## The invariant -/

/-- What is known of the open handle. -/
structure HandleInv (tableName : Bytes) (rows : List Row) (w : World) (table : Table) : Prop where
  name : table.name = tableName
  writable : table.writable = true
  old : table.file < w.next
  held : Held true tableName (rowsShape (rowsEnd (rows.length + 1)) rows) rows.length table.file w
  counts : HandleCurrent w table → table.rowCount.toNat = rows.length

/-- What is known of the table between two operations. -/
structure RunInv (tableName : Bytes) (attempted acked rows : List Row) (kept : Nat) (w : World)
    (handle : Option Table) : Prop where
  inv : TableInv (attemptRegime attempted) tableName w rows kept
  acked : acked.Sublist (rows.take kept)
  handle : ∀ table, handle = some table → HandleInv tableName rows w table

private theorem before_eq (attempted rows : List Row) :
    (attemptRegime attempted).before rows = rowsShape (rowsEnd (rows.length + 1)) rows := by
  simp [attemptRegime, Regime.before, Regime.limit, rowsShape]

private theorem attempt_more (inv : TableInv (attemptRegime attempted) tableName w rows kept)
    (row : Row) :
    TableInv (attemptRegime (attempted ++ [row])) tableName w rows kept where
  small := inv.small
  fine := inv.fine.trans (List.sublist_append_left ..)
  acked := inv.acked
  phase := by
    obtain ⟨shape, phase, fits⟩ := inv.phase
    refine ⟨shape, ?_, fits⟩
    cases phase with
    | before => exact .before
    | after fine => exact .after (fine.trans (List.sublist_append_left ..))
  missing := inv.missing
  earlier := inv.earlier
  journals := inv.journals
  present := inv.present
  counts := inv.counts

private theorem finer (rows : List Row) (n : Nat) (fine : (attemptRegime attempted).fine rows) :
    (attemptRegime attempted).fine (rows.take n) := (List.take_sublist n rows).trans fine

private theorem held_settled {position : Nat}
    (inv : TableInv (attemptRegime attempted) tableName w rows kept)
    (settled : w.file (journalPath tableName) = none)
    (there : (w.file (tablePath tableName)).isSome = true)
    (stream : w.streams h = some { path := tablePath tableName, position, pending := [] }) :
    Held true tableName (rowsShape (rowsEnd (rows.length + 1)) rows) rows.length h w :=
  before_eq attempted rows ▸ inv.held settled there stream

private theorem runInv_crashed (inv : TableInv (attemptRegime attempted) tableName w rows kept)
    (has : acked.Sublist (rows.take kept)) (crash : Crash w v) :
    ∃ rows, RunInv tableName attempted acked rows kept v none := by
  obtain ⟨n, least, _, after⟩ := inv.crashed rfl finer crash
  refine ⟨rows.take n, after, ?_, nofun⟩
  rwa [List.take_take, Nat.min_eq_left least]

/-! ## Steps -/

private theorem runInv_opened (valid : storageValidTableName tableName = true)
    (holds : RunInv tableName attempted acked rows kept w none)
    (ran : Returns (Steps faults) (storageOpenTable tableName) w (.ok table) v) :
    RunInv tableName attempted acked rows kept v (some table) ∧ table.file = w.next ∧
      ∃ file position, v.file (tablePath tableName) = some file ∧
        acceptedCount file.bytes = .ok table.rowCount ∧
        v.streams table.file = some { path := tablePath tableName, position, pending := [] } ∧
        tableRows file.bytes table.rowCount.toNat = rows.map visibleRow := by
  obtain ⟨_, within, shape, counted, below, settled, _, ⟨file, found, accepted⟩,
      position, stream⟩ :=
    wp_returns (storageOpenTable_spec valid holds.inv) ran
  have name : table.name = tableName := by rw [shape]
  have handle : table.file = w.next := by rw [shape]
  have writable : table.writable = true := by rw [shape]
  rw [← handle] at stream
  refine ⟨⟨within.inv, holds.acked, ?_⟩, handle, file, position, found, accepted, stream,
    (within.inv.accepted settled found accepted).2⟩
  rintro _ ⟨⟩
  exact ⟨name, writable, by omega, held_settled within.inv settled (found ▸ rfl) stream,
    fun _ => counted⟩

private theorem runInv_refused (valid : storageValidTableName tableName = true)
    (holds : RunInv tableName attempted acked rows kept w none)
    (ran : Returns (Steps faults) (storageOpenTable tableName) w (.error status) v) :
    RunInv tableName attempted acked rows kept v none := by
  obtain ⟨_, within, _⟩ := wp_returns (storageOpenTable_spec valid holds.inv) ran
  exact ⟨within.inv, holds.acked, nofun⟩

private theorem insert_ready (valid : storageValidTableName tableName = true)
    (holds : RunInv tableName attempted acked rows kept w (some table))
    (current : HandleCurrent w table) (row : Row) :
    wp (Steps .syncable) (InsertInv (attemptRegime (attempted ++ [row])) tableName rows row kept w)
      (storageInsertRow table row)
      (InsertPost .syncable (attemptRegime (attempted ++ [row])) table rows row kept w) w := by
  obtain ⟨rfl, writable, old, held, counts⟩ := holds.handle table rfl
  refine storageInsertRow_spec valid (attempt_more holds.inv row) writable
    (counts current) old ?_ ?_ (fun _ => rfl)
    (.inl rfl)
  · rw [before_eq]
    exact held
  · exact holds.inv.fine.append (List.Sublist.refl [row])

private theorem runInv_inserted (valid : storageValidTableName tableName = true)
    (holds : RunInv tableName attempted acked rows kept w (some table))
    (current : HandleCurrent w table)
    (ran : Returns (Steps .syncable) (storageInsertRow table row) w (.ok (offset, after)) v) :
    RunInv tableName (attempted ++ [row]) (acked ++ [row]) (rows ++ [row]) (rows.length + 1) v
      (some after) := by
  obtain ⟨_, _, _, inserted⟩ := wp_returns (insert_ready valid holds current row) ran
  obtain ⟨rfl, writable, old, _, _⟩ := holds.handle table rfl
  obtain ⟨shape, counted⟩ := inserted.result
  have length : (rows ++ [row]).length = rows.length + 1 := List.length_append
  obtain ⟨position, stream⟩ := inserted.stream
  have file : after.file = table.file := by rw [shape]
  refine ⟨inserted.inv, ?_, ?_⟩
  · rw [List.take_of_length_le (Nat.le_of_eq length)]
    exact (holds.acked.trans (List.take_sublist _ _)).append (List.Sublist.refl [row])
  · rintro _ ⟨⟩
    have held := held_settled inserted.inv inserted.journal inserted.there stream
    refine ⟨by rw [shape], by rw [shape]; exact writable, ?_, file ▸ held, fun _ =>
      length ▸ counted⟩
    rw [file]
    exact Nat.lt_of_lt_of_le old inserted.next

private theorem sublist_take_append (has : acked.Sublist (rows.take kept)) (row : Row) :
    acked.Sublist ((rows ++ [row]).take kept) := by
  rw [List.take_append]
  exact has.trans (List.sublist_append_left ..)

private theorem runInv_failed (valid : storageValidTableName tableName = true)
    (holds : RunInv tableName attempted acked rows kept w (some table))
    (current : HandleCurrent w table)
    (ran : Returns (Steps .syncable) (storageInsertRow table row) w (.error status) v) :
    ∃ rows, RunInv tableName (attempted ++ [row]) acked rows kept v (some table) := by
  obtain ⟨_, _, next, _, refused⟩ := wp_returns (insert_ready valid holds current row) ran
  obtain ⟨rfl, writable, old, _, counts⟩ := holds.handle table rfl
  have counted := counts current
  cases refused with
  | undone inv phase held =>
    refine ⟨rows, inv, holds.acked, ?_⟩
    rintro _ ⟨⟩
    exact ⟨rfl, writable, by omega, before_eq (attempted ++ [row]) rows ▸ held.before rfl phase,
      fun _ => counted⟩
  | stands inv settled written stream =>
    obtain ⟨file, _, _, found, _, _⟩ := written
    refine ⟨rows ++ [row], inv, sublist_take_append holds.acked row, ?_⟩
    rintro _ ⟨⟩
    refine ⟨rfl, writable, by omega, held_settled inv settled (found ▸ rfl) stream, ?_⟩
    -- the header counts one row more than the handle
    rintro (journal | ⟨file, found, same⟩)
    · rw [settled] at journal
      cases journal
    · have fits := (inv.counts (.inl settled.symm)).bytes found
      rw [← same]
      exact count_of_fits (fun i b fixed => fits.byte i b (.inr fixed)) inv.small

private theorem runInv_insertCrashed (valid : storageValidTableName tableName = true)
    (holds : RunInv tableName attempted acked rows kept w (some table))
    (current : HandleCurrent w table)
    (stopped : Stops (Steps .syncable) (storageInsertRow table row) w u) (crash : Crash u v) :
    ∃ rows, RunInv tableName (attempted ++ [row]) acked rows kept v none := by
  obtain ⟨_, inv | inv⟩ := wp_stops (insert_ready valid holds current row) stopped
  · exact runInv_crashed inv holds.acked crash
  · exact runInv_crashed inv (sublist_take_append holds.acked row) crash

private theorem close_ready (holds : RunInv tableName attempted acked rows kept w (some table)) :
    wp (Steps .syncable) (fun v => TableInv (attemptRegime attempted) tableName v rows kept)
      (storageCloseTable table) (fun _ _ => True) w := by
  obtain ⟨rfl, _, _, held, _⟩ := holds.handle table rfl
  refine wp_mono (storageCloseTable_spec holds.inv .before ?_) (fun _ stopped => stopped.2)
    fun _ _ _ _ => trivial
  rw [before_eq]
  exact held

private theorem runInv_holds (valid : storageValidTableName tableName = true)
    (fresh : FreshTable .syncable tableName start)
    (run : InsertRun .syncable HandleCurrent tableName start attempted acked w handle) :
    ∃ rows kept, RunInv tableName attempted acked rows kept w handle := by
  -- The invariant holds along every run.
  induction run with
  | start =>
    obtain ⟨u, noTable, noJournal, ran⟩ := fresh
    have absent : TableInv (attemptRegime []) tableName u [] 0 :=
      tableInv_absent (List.Sublist.refl []) (congrArg Entry.now noTable)
        (congrArg Entry.now noJournal)
        (congrArg Entry.before noTable) (congrArg Entry.before noJournal)
    obtain ⟨_, within, _⟩ := wp_returns (storageCreateTable_spec valid absent) ran
    exact ⟨[], 0, within.inv, List.nil_sublist _, nofun⟩
  | opened run ran ih =>
    obtain ⟨rows, kept, holds⟩ := ih
    exact ⟨rows, kept, (runInv_opened valid holds ran).1⟩
  | refused run ran ih =>
    obtain ⟨rows, kept, holds⟩ := ih
    exact ⟨rows, kept, runInv_refused valid holds ran⟩
  | openCrashed run stopped crash ih =>
    obtain ⟨rows, kept, holds⟩ := ih
    obtain ⟨_, inv⟩ := wp_stops (storageOpenTable_spec valid holds.inv) stopped
    obtain ⟨rows, holds⟩ := runInv_crashed inv holds.acked crash
    exact ⟨rows, kept, holds⟩
  | inserted run current ran ih =>
    obtain ⟨rows, kept, holds⟩ := ih
    exact ⟨_, _, runInv_inserted valid holds current ran⟩
  | failed run current ran ih =>
    obtain ⟨rows, kept, holds⟩ := ih
    obtain ⟨rows, holds⟩ := runInv_failed valid holds current ran
    exact ⟨rows, kept, holds⟩
  | insertCrashed run current stopped crash ih =>
    obtain ⟨rows, kept, holds⟩ := ih
    obtain ⟨rows, holds⟩ := runInv_insertCrashed valid holds current stopped crash
    exact ⟨rows, kept, holds⟩
  | closed run ran ih =>
    obtain ⟨rows, kept, holds⟩ := ih
    exact ⟨rows, kept, (wp_returns (close_ready holds) ran).1, holds.acked, nofun⟩
  | closeCrashed run stopped crash ih =>
    obtain ⟨rows, kept, holds⟩ := ih
    have inv := wp_stops (close_ready holds) stopped
    obtain ⟨rows, holds⟩ := runInv_crashed inv holds.acked crash
    exact ⟨rows, kept, holds⟩

/-- Behind every run, a table that opens shows a subsequence of the rows that were
tried, in order and as they were given, with every row whose insertion was reported. -/
def InsertsAtomic (faults : Faults) (permit : World → Table → Prop) : Prop :=
  ∀ tableName start attempted acked w table v, FreshTable faults tableName start →
    InsertRun faults permit tableName start attempted acked w none →
    Returns (Steps faults) (storageOpenTable tableName) w (.ok table) v →
    (∃ shown status, ScanRun .none (storageScanBegin table) v shown status) ∧
    ∀ shown status, ScanRun .none (storageScanBegin table) v shown status → status = .end ∧
      ∃ rows, shown = rows.map visibleRow ∧ rows.Sublist attempted ∧ acked.Sublist rows

/-- Insertions are atomic and durable where the directory can be synced, and where no
handle is used again behind an insertion that failed without its journal. -/
theorem inserts_atomic : InsertsAtomic .syncable HandleCurrent := by
  intro tableName start attempted acked w table v fresh run ran
  obtain ⟨_, _, _, created⟩ := id fresh
  have valid := created_valid created
  obtain ⟨rows, kept, holds⟩ := runInv_holds valid fresh run
  obtain ⟨after, _, file, position, found, accepted, stream, shows⟩ := runInv_opened valid holds ran
  have whole := (acceptedCount_iff.mp accepted).2.2.2.2
  have scans := @scanRun_shows _ _ table _ position found whole
  rw [World.cursor, setStream_self stream] at scans
  refine ⟨scans.1, fun shown status scan => ?_⟩
  obtain ⟨ended, same⟩ := scans.2 shown status scan
  exact ⟨ended, rows, same.trans shows, after.inv.fine, after.acked.trans (List.take_sublist _ _)⟩

/-- An insertion that is reported puts its row behind the rows that the table shows. -/
def InsertsAppend (permit : World → Table → Prop) : Prop :=
  ∀ tableName start attempted acked w table row offset after v file count written later,
    FreshTable .syncable tableName start →
    InsertRun .syncable permit tableName start attempted acked w (some table) → permit w table →
    Returns (Steps .syncable) (storageInsertRow table row) w (.ok (offset, after)) v →
    w.file (journalPath tableName) = none →
    w.file (tablePath tableName) = some file → acceptedCount file.bytes = .ok count →
    v.file (tablePath tableName) = some written → acceptedCount written.bytes = .ok later →
    tableRows written.bytes later.toNat = tableRows file.bytes count.toNat ++ [visibleRow row]

/-- On a handle that counts what the header counts, a reported row is a new row. -/
theorem inserts_append : InsertsAppend HandleCurrent := by
  intro tableName start attempted acked w table row offset after v file count written later fresh
    run current ran
    settled found accepted found' accepted'
  obtain ⟨_, _, _, created⟩ := id fresh
  have valid := created_valid created
  obtain ⟨rows, kept, holds⟩ := runInv_holds valid fresh run
  obtain ⟨_, _, _, inserted⟩ := wp_returns (insert_ready valid holds current row) ran
  obtain ⟨rfl, _⟩ := holds.handle table rfl
  rw [(holds.inv.accepted settled found accepted).2,
    (inserted.inv.accepted inserted.journal found' accepted').2,
    List.map_append, List.map_singleton]

/-! ## Three runs -/

private def handleOf (file : Nat) (rowCount : UInt64) : Table :=
  { name := str "t", file, rowCount, writable := true }

private def createdT (faults : Faults) : World :=
  replayed faults (storageCreateTable (str "t")) [] World.empty

private def openedT (faults : Faults) : World :=
  replayed faults (storageOpenTable (str "t")) [] (createdT faults)

private def tempChoice : Choice := { suffix := str "aaaaaa" }

private def insertedT : World :=
  replayed .syncable (storageInsertRow (handleOf 1 0) (Row.nameless 7)) [tempChoice]
    (openedT .syncable)

/-- The next insertion is stopped behind the sync of its header. -/
private def stoppedT : World :=
  stoppedAt .syncable (storageInsertRow (handleOf 1 1) (Row.nameless 8))
    (tempChoice :: List.replicate 26 { : Choice }) insertedT

private def crashedT : World := revert (fun _ => 0) stoppedT

private def recoveredT : World := replayed .syncable (storageOpenTable (str "t")) [] crashedT

private theorem handleCurrent_of
    (counts : (w.file (tablePath table.name)).map (fun file => (headerOf file.bytes).count) =
      some table.rowCount) :
    HandleCurrent w table := by
  obtain ⟨file, found, same⟩ := Option.map_eq_some_iff.mp counts
  exact .inr ⟨file, found, same⟩

/-- A row that was reported, and one whose insertion was cut off by a crash. -/
theorem inserts_atomic_one :
    ∃ shown rows, ScanRun .none (storageScanBegin (handleOf 4 1)) recoveredT shown .end ∧
    shown = rows.map visibleRow ∧ rows.Sublist [Row.nameless 7, Row.nameless 8] ∧
      [Row.nameless 7].Sublist rows := by
  have fresh : FreshTable .syncable (str "t") (createdT .syncable) :=
    ⟨World.empty, rfl, rfl, replayed_returns (by decide +kernel)⟩
  have opened : Returns (Steps .syncable) (storageOpenTable (str "t")) (createdT .syncable)
      (.ok (handleOf 1 0))
      (openedT .syncable) := replayed_returns (by decide +kernel)
  have inserted : Returns (Steps .syncable) (storageInsertRow (handleOf 1 0) (Row.nameless 7))
      (openedT .syncable)
      (.ok (64, handleOf 1 1)) insertedT := replayed_returns (by decide +kernel)
  have reopened : Returns (Steps .syncable) (storageOpenTable (str "t")) crashedT
      (.ok (handleOf 4 1)) recoveredT :=
    replayed_returns (by decide +kernel)
  have run : InsertRun .syncable HandleCurrent (str "t")
    (createdT .syncable) [Row.nameless 7, Row.nameless 8] [Row.nameless 7]
      crashedT none :=
    .insertCrashed
      (.inserted (.opened .start opened) (handleCurrent_of (by decide +kernel)) inserted)
      (handleCurrent_of (by decide +kernel)) stoppedAt_stops (crash_revert _ _)
  obtain ⟨⟨shown, status, scan⟩, promised⟩ := inserts_atomic _ _ _ _ _ _ _ fresh run reopened
  obtain ⟨rfl, rows, same, tried, kept⟩ := promised shown status scan
  exact ⟨shown, rows, scan, same, tried, kept⟩

/-- The last sync of the directory answers that it is not supported. -/
private def unsyncedChoices : List Choice :=
  tempChoice :: List.replicate 28 { : Choice } ++ [{ error := some .einval }]

private def unsyncedT : World :=
  replayed .any (storageInsertRow (handleOf 1 0) (Row.nameless 7)) unsyncedChoices (openedT .any)

/-- The journal comes back. -/
private def revertedT : World :=
  revert (fun path => if path = journalPath (str "t") then 1 else 0) unsyncedT

private def reopenedT : World := replayed .any (storageOpenTable (str "t")) [] revertedT

/-- Where the sync of the directory is not supported, a row that was reported is lost:
its journal comes back and undoes it. -/
theorem inserts_not_atomic : ¬ InsertsAtomic .any fun _ _ => True := by
  intro atomic
  have fresh : FreshTable .any (str "t") (createdT .any) :=
    ⟨World.empty, rfl, rfl, replayed_returns (by decide +kernel)⟩
  have opened : Returns (Steps .any) (storageOpenTable (str "t")) (createdT .any)
      (.ok (handleOf 1 0))
      (openedT .any) :=
    replayed_returns (by decide +kernel)
  have inserted : Returns (Steps .any) (storageInsertRow (handleOf 1 0) (Row.nameless 7))
      (openedT .any)
      (.ok (64, handleOf 1 1)) unsyncedT := replayed_returns (by decide +kernel)
  have reopened : Returns (Steps .any) (storageOpenTable (str "t")) revertedT
      (.ok (handleOf 3 0)) reopenedT :=
    replayed_returns (by decide +kernel)
  have run : InsertRun .any (fun _ _ => True) (str "t")
      (createdT .any) [Row.nameless 7] [Row.nameless 7] revertedT none :=
    .closeCrashed (.inserted (.opened .start opened) trivial inserted) .here (crash_revert _ _)
  obtain ⟨_, promised⟩ := atomic _ _ _ _ _ _ _ fresh run reopened
  obtain ⟨_, rows, shown, _, kept⟩ := promised [] .end (.stopped .pure)
  obtain rfl := List.map_eq_nil_iff.mp shown.symm
  cases kept

/-- The sync of the directory behind the removal of the journal fails. -/
private def refusedT : World :=
  replayed .syncable (storageInsertRow (handleOf 1 0) (Row.nameless 7))
    (tempChoice :: List.replicate 28 { : Choice } ++ [{ error := some .eio }]) (openedT .syncable)

private def retriedT : World :=
  replayed .syncable (storageInsertRow (handleOf 1 0) (Row.nameless 8)) [tempChoice] refusedT

private def shownIds (w : World) : Option (List Int32) :=
  (w.file (tablePath (str "t"))).map fun file => (tableRows file.bytes 1).map Row.id

/-- A retry on the handle of an insertion that failed once its journal was removed: the row
that has failed is shown by then, and the retry is reported and writes over it. -/
theorem inserts_not_append : ¬ InsertsAppend fun _ _ => True := by
  intro append
  have fresh : FreshTable .syncable (str "t") (createdT .syncable) :=
    ⟨World.empty, rfl, rfl, replayed_returns (by decide +kernel)⟩
  have opened : Returns (Steps .syncable) (storageOpenTable (str "t")) (createdT .syncable)
      (.ok (handleOf 1 0))
      (openedT .syncable) := replayed_returns (by decide +kernel)
  have refused : Returns (Steps .syncable) (storageInsertRow (handleOf 1 0) (Row.nameless 7))
      (openedT .syncable)
      (.error .durabilityError) refusedT := replayed_returns (by decide +kernel)
  have retried :
      Returns (Steps .syncable) (storageInsertRow (handleOf 1 0) (Row.nameless 8)) refusedT
      (.ok (64, handleOf 1 1)) retriedT := replayed_returns (by decide +kernel)
  have run : InsertRun .syncable (fun _ _ => True) (str "t") (createdT .syncable)
      [Row.nameless 7] [] refusedT
      (some (handleOf 1 0)) := .failed (.opened .start opened) trivial refused
  have first : shownIds refusedT = some [7] := by decide +kernel
  have second : shownIds retriedT = some [8] := by decide +kernel
  obtain ⟨file, found, shown⟩ := Option.map_eq_some_iff.mp first
  obtain ⟨written, found', shown'⟩ := Option.map_eq_some_iff.mp second
  have counted : (refusedT.file (tablePath (str "t"))).map (fun file => acceptedCount file.bytes) =
      some (.ok 1) := by
    decide +kernel
  have counted' : (retriedT.file (tablePath (str "t"))).map (fun file => acceptedCount file.bytes) =
      some (.ok 1) := by
    decide +kernel
  rw [found, Option.map_some, Option.some.injEq] at counted
  rw [found', Option.map_some, Option.some.injEq] at counted'
  have appended := append _ _ _ _ _ _ _ _ _ _ file 1 written 1 fresh run trivial retried
      (by decide +kernel) found counted
    found' counted'
  have lengths := congrArg List.length appended
  rw [List.length_append, length_tableRows, length_tableRows] at lengths
  exact absurd lengths (by decide)

end SqlEngine
