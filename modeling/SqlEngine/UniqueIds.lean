import SqlEngine.Library.Replay
import SqlEngine.Operations

/-! Distinct ids behind failing calls, crashes and replaced index files: whatever a table
that opens shows, an INSERT has checked it against the rows in front of it. -/
namespace SqlEngine

open Library Program World Posix

/-- What one process after the other can reach from an empty directory, with failing calls,
with a crash at any point of an operation, and with other index files between operations. -/
inductive FaultyRun (faults : Faults) : World → Prop where
  | empty {w : World} (empty : ∀ path, w.entries path = { now := none, before := [] }) :
      FaultyRun faults w
  | operation {w v : World} {operation : Operation} {outcome : Outcome} (run : FaultyRun faults w)
      (parsed : operation.Parsed) (ran : Returns (Steps faults) operation.run w outcome v) :
        FaultyRun faults v
  | crashed {w u v : World} {operation : Operation} (run : FaultyRun faults w)
      (parsed : operation.Parsed)
      (stopped : Stops (Steps faults) operation.run w u) (crash : Crash u v) : FaultyRun faults v
  | replaced {w v : World} (run : FaultyRun faults w)
      (others : ∀ path, ¬ str ".idx" <:+ path → v.entries path = w.entries path) :
        FaultyRun faults v

/-- An open table shows rows with distinct ids. -/
def ShowsDistinct (table : Table) (v : World) : Prop :=
  ∃ file, v.file (tablePath table.name) = some file ∧
    acceptedCount file.bytes = .ok table.rowCount ∧
    ((tableRows file.bytes table.rowCount.toNat).map Row.id).Nodup

/-- Wherever a run has got to, between two operations or inside of one: a table that opens,
for writing or for reading, shows rows with distinct ids. -/
def UniqueIds (faults : Faults) : Prop :=
  ∀ w (operation : Operation) u tableName table v, FaultyRun faults w → operation.Parsed →
    Stops (Steps faults) operation.run w u →
    Returns (Steps faults) (storageOpenTable tableName) u (.ok table) v ∨
      Returns (Steps faults) (storageOpenTableReadonly tableName) u (.ok table) v →
    ShowsDistinct table v

/-- Crashes, tables that are opened for reading beside a journal, and rows with distinct ids. -/
def uniqueRegime : Regime :=
  { crashes := true, overlook := true, tail := 0, fine := fun rows => (rows.map Row.id).Nodup }

variable {faults : Faults} {tableName : Bytes} {rows : List Row} {row : Row} {kept : Nat}
    {w u v : World} {table : Table}
  {file : File} {count : UInt64}

private theorem unique_regulates : Regulates .syncable uniqueRegime fun _ _ _ => True where
  tracks := tracks_trivially .syncable
  fine rows row distinct absent := by
    change ((rows ++ [row]).map Row.id).Nodup
    rw [List.map_append, List.nodup_append]
    refine ⟨distinct, List.nodup_singleton _, ?_⟩
    rintro id among _ new rfl
    rw [List.map_singleton, List.mem_singleton] at new
    exact absent (new ▸ among)
  durable _ := rfl

private theorem unique_front (rows : List Row) (n : Nat) (fine : uniqueRegime.fine rows) :
    uniqueRegime.fine (rows.take n) :=
  ((List.take_sublist n rows).map _).nodup fine

private theorem TableInv.distinct (inv : TableInv uniqueRegime tableName w rows kept)
    (found : w.file (tablePath tableName) = some file)
    (accepted : acceptedCount file.bytes = .ok count) :
    ((tableRows file.bytes count.toNat).map Row.id).Nodup := by
  -- Also beside a journal a table that is accepted shows rows that were checked: it counts the
  -- rows of before as long as the new one is not durable.
  obtain ⟨shape, phase, throughout⟩ := inv.phase
  have fits := throughout.bytes found
  obtain ⟨_, _, counted, _, whole⟩ := acceptedCount_iff.mp accepted
  have shown : ∃ front : List Row, (front.map Row.id).Nodup ∧
      tableRows file.bytes count.toNat = front.map visibleRow := by
    cases phase with
    | before =>
      have same : count.toNat = rows.length := by
        rw [counted]
        exact count_of_fits (fun i b fixed => fits.byte i b (.inr ⟨rfl, fixed⟩)) inv.small
      have shows := tableRows_of_fits (inv.holds.bytes found) (Nat.le_refl _)
      rw [List.take_length] at shows
      exact ⟨rows, inv.fine, same ▸ shows⟩
    | @after row fine =>
      have short : file.bytes.length ≤ max 0 (rowsEnd (rows.length + 1)) := fits.length
      have few : count.toNat ≤ (rows ++ [row]).length := by
        rw [List.length_append, List.length_singleton]
        by_contra more
        have longer : rowsEnd (rows.length + 1 + 1) ≤ rowsEnd count.toNat := rowsEnd_mono (by omega)
        have ends := rowsEnd_le_rowOffset (rows.length + 1)
        rw [rowsEnd_succ] at longer
        omega
      exact ⟨_, unique_front (rows ++ [row]) count.toNat fine, tableRows_of_fits fits few⟩
  obtain ⟨front, distinct, shows⟩ := shown
  rw [shows, visibleRow_ids]
  exact distinct

/-! ## Runs -/

/-- Neither the table nor its journal is an index file. -/
theorem not_index (tableName : Bytes) :
    ¬ str ".idx" <:+ tablePath tableName ∧ ¬ str ".idx" <:+ journalPath tableName := by
  constructor
  · rintro ⟨front, same⟩
    have last := congrArg List.getLast? same
    simp [tablePath, str] at last
  · rintro ⟨front, same⟩
    have last := congrArg List.getLast? same
    simp [journalPath, str] at last

private theorem FaultyRun.tracked (run : FaultyRun .syncable w) :
    AllTracked uniqueRegime (fun _ _ _ => True) w := by
  induction run with
  | empty empty =>
    intro tableName _
    refine ⟨[], 0, tableInv_absent List.nodup_nil ?_ ?_ ?_ ?_, fun _ _ => trivial⟩
    · exact congrArg Entry.now (empty _)
    · exact congrArg Entry.now (empty _)
    · exact congrArg Entry.before (empty _)
    · exact congrArg Entry.before (empty _)
  | operation run parsed ran ih =>
    exact (wp_returns (operation_keeps unique_regulates rfl parsed ih) ran).1
  | crashed run parsed stopped crash ih =>
    intro tableName valid
    obtain ⟨rows, kept, tracked⟩ :=
      wp_stops (operation_keeps unique_regulates rfl parsed ih) stopped tableName valid
    obtain ⟨n, _, _, inv⟩ := tracked.inv.crashed rfl unique_front crash
    exact ⟨rows.take n, kept, inv, fun _ _ => trivial⟩
  | replaced run others ih =>
    intro tableName valid
    obtain ⟨rows, kept, tracked⟩ := ih tableName valid
    obtain ⟨offTable, offJournal⟩ := not_index tableName
    exact ⟨rows, kept, tracked.inv.of_kept (.of_eq (others _ offTable))
      (.of_eq (others _ offJournal)),
      fun _ _ => trivial⟩

/-- Where the directory can be synced, ids are unique. -/
theorem ids_unique : UniqueIds .syncable := by
  intro w operation u tableName table v run parsed stopped opens
  have tracked := wp_stops (operation_keeps unique_regulates rfl parsed run.tracked) stopped
  rcases opens with writable | readonly
  · have valid := storageOpenTableMode_valid writable
    obtain ⟨rows, kept, now, _⟩ := tracked tableName valid
    obtain ⟨_, within, shape, _, _, _, _, ⟨file, found, accepted⟩, _⟩ :=
      wp_returns (storageOpenTable_spec valid now) writable
    have named : table.name = tableName := by rw [shape]
    exact ⟨file, named ▸ found, accepted, within.inv.distinct found accepted⟩
  · have valid := storageOpenTableMode_valid readonly
    obtain ⟨rows, kept, now, _⟩ := tracked tableName valid
    obtain ⟨_, opened⟩ := wp_returns (storageOpenTableReadonly_spec valid) readonly
    obtain @⟨rowCount, p, file, found, accepted, _⟩ := opened
    exact ⟨file, found, accepted, now.distinct found accepted⟩

/-! ## Two runs -/

private def under (faults : Faults) (rule : Call → Choice) (operation : Operation)
    (w : World) : World :=
  replayed faults operation.run (chosen rule operation.run w) w

private theorem under_returns {rule : Call → Choice} {operation : Operation} {outcome : Outcome}
    (ran : (replay faults operation.run (chosen rule operation.run w) w).map Prod.fst =
      some outcome) :
    Returns (Steps faults) operation.run w outcome (under faults rule operation w) :=
  replayed_returns ran

private def creation : Operation := .create (str "t")

private def insertion (id : Int32) : Operation :=
  .execute (.insert { tableName := str "t", id, name := str "a" })

/-- Every call succeeds. -/
private def plainRule : Call → Choice
  | .mkstemp _ => { suffix := str "aaaaaa" }
  | _ => {}

/-- The index file cannot be put in its place. -/
private def stuckRule : Call → Choice
  | .rename _ path => if path = indexPath (str "t") then { error := some .eio } else {}
  | other => plainRule other

private def oneRow : World :=
  under .syncable plainRule (insertion 1) (under .syncable plainRule creation World.empty)

private def twoRows : World := under .syncable stuckRule (insertion 2) oneRow

/-- The next insertion is stopped with its row in place and its journal beside it. -/
private def rowStopped : World :=
  stoppedAt .syncable (insertion 3).run
    ((chosen plainRule (insertion 3).run twoRows).take 145) twoRows

private def junkIndex : File := { bytes := [1, 2], older := [], fits := by decide }

/-- Behind the crash the index file is replaced. -/
private def junkIndexed : World :=
  (revert (fun _ => 0) rowStopped).setEntry (indexPath (str "t"))
    { now := some junkIndex, before := [] }

private def refusedRow : World := under .syncable plainRule (insertion 1) junkIndexed

private def lastRow : World := under .syncable plainRule (insertion 4) refusedRow

private def lastTable : Table := { name := str "t", file := 35, rowCount := 3, writable := true }

/-- Two rows, the second without its index, a third that a crash cuts off, a file that is no
index, an id that is refused behind it, and a last row. -/
theorem ids_unique_refused :
    Returns (Steps .syncable) (insertion 1).run junkIndexed (.executed .duplicateId) refusedRow ∧
    (lastRow.file (tablePath (str "t"))).map (fun file => (tableRows file.bytes 3).map Row.id) =
      some [1, 2, 4] ∧
    ShowsDistinct lastTable (replayed .syncable (storageOpenTable (str "t")) [] lastRow) := by
  have first : (insertion 1).Parsed :=
    producible_of_read ⟨str "INSERT INTO t VALUES(1,\"a\");", by decide⟩ (by decide +kernel)
  have second : (insertion 2).Parsed :=
    producible_of_read ⟨str "INSERT INTO t VALUES(2,\"a\");", by decide⟩ (by decide +kernel)
  have third : (insertion 3).Parsed :=
    producible_of_read ⟨str "INSERT INTO t VALUES(3,\"a\");", by decide⟩ (by decide +kernel)
  have fourth : (insertion 4).Parsed :=
    producible_of_read ⟨str "INSERT INTO t VALUES(4,\"a\");", by decide⟩ (by decide +kernel)
  have created : Returns (Steps .syncable) creation.run World.empty (.created .ok)
      (under .syncable plainRule creation World.empty) := under_returns (by decide +kernel)
  have one : Returns (Steps .syncable) (insertion 1).run
      (under .syncable plainRule creation World.empty)
      (.executed .ok) oneRow := under_returns (by decide +kernel)
  have two : Returns (Steps .syncable) (insertion 2).run oneRow
      (.executed .indexPersistFailed) twoRows :=
    under_returns (by decide +kernel)
  have refused : Returns (Steps .syncable) (insertion 1).run junkIndexed
      (.executed .duplicateId) refusedRow :=
    under_returns (by decide +kernel)
  have added : Returns (Steps .syncable) (insertion 4).run refusedRow (.executed .ok) lastRow :=
    under_returns (by decide +kernel)
  have opened : Returns (Steps .syncable) (storageOpenTable (str "t")) lastRow (.ok lastTable)
      (replayed .syncable (storageOpenTable (str "t")) [] lastRow) :=
        replayed_returns (by decide +kernel)
  have filled : FaultyRun .syncable twoRows :=
    .operation (.operation
      (.operation (.empty fun _ => rfl) (show creation.Parsed from trivial) created) first one)
      second two
  have crashed : FaultyRun .syncable (revert (fun _ => 0) rowStopped) :=
    .crashed filled third stoppedAt_stops (crash_revert _ _)
  have others : ∀ path, ¬ str ".idx" <:+ path →
      junkIndexed.entries path = (revert (fun _ => 0) rowStopped).entries path := by
    intro path other
    unfold junkIndexed
    rw [entries_setEntry_ne]
    rintro rfl
    exact other (List.suffix_append _ _)
  have run : FaultyRun .syncable lastRow :=
    .operation (.operation (.replaced crashed others) first refused) fourth added
  exact ⟨refused, by decide +kernel,
    ids_unique lastRow creation _ _ _ _ run trivial .here (.inl opened)⟩

/-- A sync of the directory answers that it is not supported. -/
private def unsyncedRule : Call → Choice
  | .fsyncDirectory => { error := some .einval }
  | other => plainRule other

/-- Whether a file is there cannot be told. -/
private def blindRule : Call → Choice
  | .access _ => { error := some .eio }
  | other => plainRule other

private def unsyncedTable : World := under .any unsyncedRule creation World.empty

private def unsyncedRows : World :=
  under .any unsyncedRule (insertion 3)
    (under .any unsyncedRule (insertion 2) (under .any unsyncedRule (insertion 1) unsyncedTable))

/-- The table is lost, and the journal of the last row comes back. -/
private def lostTable : World :=
  revert (fun path => if path = tablePath (str "t") ∨ path = journalPath (str "t") then 1
    else 0) unsyncedRows

private def journaledTable : World := under .any blindRule creation lostTable

private def zeroRows : Table := { name := str "t", file := 20, rowCount := 2, writable := true }

private def zeroTable : World := replayed .any (storageOpenTable (str "t")) [] journaledTable

/-- Where the sync of the directory is not supported, a crash may take a table and leave
its journal. If `access` fails as well a table of that name is created beside the journal,
and recovery makes it as long as the lost one: every id is zero. -/
theorem ids_not_unique : ¬ UniqueIds .any := by
  intro unique
  have first : (insertion 1).Parsed :=
    producible_of_read ⟨str "INSERT INTO t VALUES(1,\"a\");", by decide⟩ (by decide +kernel)
  have second : (insertion 2).Parsed :=
    producible_of_read ⟨str "INSERT INTO t VALUES(2,\"a\");", by decide⟩ (by decide +kernel)
  have third : (insertion 3).Parsed :=
    producible_of_read ⟨str "INSERT INTO t VALUES(3,\"a\");", by decide⟩ (by decide +kernel)
  have created : Returns (Steps .any) creation.run World.empty (.created .ok) unsyncedTable :=
    under_returns (by decide +kernel)
  have one : Returns (Steps .any) (insertion 1).run unsyncedTable (.executed .ok)
      (under .any unsyncedRule (insertion 1) unsyncedTable) :=
    under_returns (by decide +kernel)
  have two : Returns (Steps .any) (insertion 2).run
      (under .any unsyncedRule (insertion 1) unsyncedTable)
    (.executed .ok)
      (under .any unsyncedRule (insertion 2)
        (under .any unsyncedRule (insertion 1) unsyncedTable)) :=
    under_returns (by decide +kernel)
  have three : Returns (Steps .any) (insertion 3).run
      (under .any unsyncedRule (insertion 2) (under .any unsyncedRule (insertion 1) unsyncedTable))
        (.executed .ok) unsyncedRows :=
    under_returns (by decide +kernel)
  have again : Returns (Steps .any) creation.run lostTable (.created .ok) journaledTable :=
    under_returns (by decide +kernel)
  have opened : Returns (Steps .any) (storageOpenTable (str "t")) journaledTable
      (.ok zeroRows) zeroTable :=
    replayed_returns (by decide +kernel)
  have named : creation.Parsed := trivial
  have filled : FaultyRun .any unsyncedRows :=
    .operation (.operation (.operation (.operation (.empty fun _ => rfl) named created) first one)
      second two) third three
  have run : FaultyRun .any journaledTable :=
    .operation (.crashed filled named .here (crash_revert _ _)) named again
  obtain ⟨file, found, _, distinct⟩ :=
    unique journaledTable creation _ _ _ _ run named .here (.inl opened)
  have ids : (zeroTable.file (tablePath (str "t"))).map
      (fun file => (tableRows file.bytes 2).map Row.id) = some [0, 0] := by
    decide +kernel
  rw [show zeroTable.file (tablePath (str "t")) = some file from found, Option.map_some,
    Option.some.injEq] at ids
  rw [show zeroRows.rowCount.toNat = 2 from rfl, ids] at distinct
  exact absurd distinct (by decide)

end SqlEngine
