import SqlEngine.Library.Replay
import SqlEngine.TableRecovery

/-! What successful insertions leave of a table, over any number of sessions: the rows in
the order of the calls, each at the offset its call returned, and every other byte of the
file as it was. -/
namespace SqlEngine

open Library Program World Posix

/-- A table that `storage_create_table` has made, where neither it nor a journal was. -/
def TableMade (tableName : Bytes) (w : World) : Prop :=
  ∃ u, u.file (tablePath tableName) = none ∧ u.file (journalPath tableName) = none ∧
    Returns (Steps .any) (storageCreateTable tableName) u .ok w

/-- Sessions on a table whose calls succeed: each inserted row with the offset that its
insertion returned, and the handle that is open. Rows may be read in between. -/
inductive Appends (tableName : Bytes) (start : World) : List (Row × UInt64) → World →
    Option Table → Prop where
  | start : Appends tableName start [] start none
  | opened {calls : List (Row × UInt64)} {w v : World} {table : Table}
      (run : Appends tableName start calls w none)
      (ran : Returns (Steps .any) (storageOpenTable tableName) w (.ok table) v) :
      Appends tableName start calls v (some table)
  | openedReadonly {calls : List (Row × UInt64)} {w v : World} {table : Table}
      (run : Appends tableName start calls w none)
      (ran : Returns (Steps .any) (storageOpenTableReadonly tableName) w (.ok table) v) :
      Appends tableName start calls v (some table)
  | inserted {calls : List (Row × UInt64)} {w v : World} {table after : Table} {row : Row}
      {offset : UInt64}
      (run : Appends tableName start calls w (some table))
      (ran : Returns (Steps .any) (storageInsertRow table row) w (.ok (offset, after)) v) :
      Appends tableName start (calls ++ [(row, offset)]) v (some after)
  | read {calls : List (Row × UInt64)} {w v : World} {table : Table} {offset : UInt64}
      {result : Except TableStatus Row} (run : Appends tableName start calls w (some table))
      (ran : Returns (Steps .any) (storageReadRowAtOffset table offset) w result v) :
      Appends tableName start calls v (some table)
  | closed {calls : List (Row × UInt64)} {w v : World} {table : Table}
      (run : Appends tableName start calls w (some table))
      (ran : Returns (Steps .any) (storageCloseTable table) w () v) :
        Appends tableName start calls v none

variable {faults : Faults} {w u v : World} {tableName : Bytes} {table : Table} {file : File}
    {path : Path}
  {rows : List Row} {row : Row} {calls : List (Row × UInt64)} {handle : Option Table}
  {position i n : Nat}

/-! ## All rows -/

private theorem fillRows_spec (found : w.file path = some file)
    (whole : rowsEnd table.rowCount.toNat ≤ file.bytes.length) {missing : Nat}
    (left : i + missing = table.rowCount.toNat) :
    wp (Steps faults) (Still w) (fillRows missing (scanAt table i) (tableRows file.bytes i))
      (fun result v => (∃ p, v = w.cursor table.file path p) ∧
        (result = .ok (tableRows file.bytes table.rowCount.toNat) ∨
          faults.calls = true ∧ result = .error .ioError))
      (w.cursor table.file path position) := by
  induction missing generalizing i position with
  | zero =>
    rw [Nat.add_zero] at left
    exact ⟨rfl, ⟨_, rfl⟩, .inl (left ▸ rfl)⟩
  | succ missing ih =>
    unfold fillRows
    refine wp_seq (storageScanNext_spec found whole (by omega)) (fun _ still => still) ?_
    rintro result _ _ ⟨⟨p, rfl⟩, ⟨done, _⟩ | ⟨inside, rfl⟩ | ⟨calls, rfl⟩⟩
    · omega
    · have front : tableRows file.bytes i ++ [rowAt file.bytes i] =
          tableRows file.bytes (i + 1) := by
        simp [tableRows, List.range_succ]
      dsimp only
      rw [front]
      exact ih (by omega)
    · exact ⟨rfl, ⟨p, rfl⟩, .inr ⟨calls, rfl⟩⟩

/-- Selecting all rows shows the rows of the table, or a call has failed. -/
theorem storageSelectAllRows_spec (found : w.file path = some file)
    (whole : rowsEnd table.rowCount.toNat ≤ file.bytes.length) :
    wp (Steps faults) (Still w) (storageSelectAllRows table)
      (fun result v => (∃ p, v = w.cursor table.file path p) ∧
        (result = .ok (tableRows file.bytes table.rowCount.toNat) ∨
          faults.calls = true ∧ ∃ status, result = .error status))
      (w.cursor table.file path position) := by
  unfold storageSelectAllRows
  by_cases empty : table.rowCount = 0
  · rw [if_pos empty]
    exact ⟨rfl, ⟨_, rfl⟩, .inl (by rw [empty]; rfl)⟩
  · have room : utilMulSize table.rowCount.toNat SIZEOF_ROW =
        some (table.rowCount.toNat * SIZEOF_ROW) := by
      have bound : 36 * table.rowCount.toNat ≤ SIZE_MAX := by
        have fits := file.fits
        have slots : 36 * table.rowCount.toNat ≤ rowsEnd table.rowCount.toNat := by
          unfold rowsEnd rowOffset
          split <;> omega
        unfold maxFileSize at fits
        unfold SIZE_MAX
        omega
      have positive : 0 < table.rowCount.toNat :=
        Nat.pos_of_ne_zero fun zero => empty (UInt64.toNat_inj.mp zero)
      have enough : SIZEOF_ROW ≤ SIZE_MAX / table.rowCount.toNat :=
        (Nat.le_div_iff_mul_le positive).mpr bound
      rw [utilMulSize, if_neg fun exceeds => absurd exceeds.2 (Nat.not_lt.mpr enough)]
    rw [if_neg empty, room]
    refine wp_allocate rfl ?_ fun calls => ⟨rfl, ⟨_, rfl⟩, .inr ⟨calls, _, rfl⟩⟩
    refine wp_mono (fillRows_spec found whole (Nat.zero_add _)) (fun _ still => still) ?_
    rintro result _ _ ⟨still, outcome⟩
    exact ⟨still, outcome.imp id fun ⟨calls, failed⟩ => ⟨calls, _, failed⟩⟩

/-! ## The file of a table -/

/-- The circumstances of such sessions: no crash, and any rows. -/
def appendRegime : Regime :=
  { crashes := false, overlook := false, tail := 0, fine := fun _ => True }

/-- A file with so many rows: its size and its header. -/
structure Counted (bytes : Bytes) (count : Nat) : Prop where
  length : bytes.length = rowsEnd count
  header : ∀ i < 64, bytes.getD i 0 = (headerBytes (.ofNat count)).getD i 0

private theorem getD_headerBytes_apart (first second : UInt64) (apart : i < 24 ∨ 32 ≤ i) :
    (headerBytes first).getD i 0 = (headerBytes second).getD i 0 := by
  obtain ⟨front, length, split⟩ : ∃ front : Bytes, front.length = 24 ∧
      ∀ count, headerBytes count = front ++ (putU64Le count ++ List.replicate (64 - 32) 0) :=
    ⟨_, rfl, fun count => List.append_assoc ..⟩
  rcases apart with before | behind
  · rw [split, split, List.getD_append _ _ _ _ (by omega), List.getD_append _ _ _ _ (by omega)]
  · have tail : ∀ count, (headerBytes count).getD i 0 = (List.replicate (64 - 32) 0).getD
        (i - 24 - 8) 0 := by
      intro count
      have size := length_putU64Le count
      rw [split, List.getD_append_right _ _ _ _ (by omega), length,
        List.getD_append_right _ _ _ _ (by omega), size]
    rw [tail, tail]

private theorem Counted.inserted {bytes written : Bytes} {rowCount : UInt64}
    (counted : Counted bytes n)
    (next : rowCount.toNat = n + 1)
    (same : written = patch (patch bytes (rowOffset n) (storageSerializeRow row)) 0
      (headerBytes rowCount)) :
    Counted written (n + 1) ∧ ∀ i, i < 24 ∨ 32 ≤ i → i < rowOffset n ∨ rowOffset n + 36 ≤ i →
      written.getD i 0 = bytes.getD i 0 := by
  have least := rowOffset_ge n
  have size := length_headerBytes rowCount
  have slot := length_storageSerializeRow row
  have named : rowCount = .ofNat (n + 1) := by rw [← next, UInt64.ofNat_toNat]
  have headed : ∀ i < 64, written.getD i 0 = (headerBytes rowCount).getD i 0 := by
    intro i inside
    rw [same, getD_patch, if_pos (by omega), Nat.sub_zero]
  refine ⟨⟨?_, fun i inside => named ▸ headed i inside⟩, fun i count outside => ?_⟩
  · have ends := rowsEnd_le_rowOffset n
    have some_header : headerBytes rowCount ≠ [] := List.ne_nil_of_length_pos (by omega)
    have some_row : storageSerializeRow row ≠ [] := List.ne_nil_of_length_pos (by omega)
    rw [same, length_patch some_header, length_patch some_row, size, slot, counted.length,
      rowsEnd_succ]
    omega
  · by_cases header : i < 64
    · rw [headed i header, counted.header i header]
      exact getD_headerBytes_apart _ _ count
    · rw [same, getD_patch, if_neg (by omega), getD_patch, if_neg (by omega)]

/-! ## Sessions -/

/-- What is known of the handle of a session. -/
structure SessionHandle (tableName : Bytes) (count : Nat) (w : World) (table : Table) : Prop where
  name : table.name = tableName
  old : table.file < w.next
  counts : table.rowCount.toNat = count
  stream : ∃ position, w.streams table.file =
    some { path := tablePath tableName, position, pending := [] }

/-- What is known between two calls. -/
structure Appended (tableName : Bytes) (calls : List (Row × UInt64)) (w : World)
    (handle : Option Table) : Prop where
  inv : TableInv appendRegime tableName w (calls.map Prod.fst) calls.length
  settled : w.file (journalPath tableName) = none
  file : ∃ file, w.file (tablePath tableName) = some file ∧ Counted file.bytes calls.length
  offsets : ∀ i call, calls[i]? = some call → call.2.toNat = rowOffset i
  handle : ∀ table, handle = some table → SessionHandle tableName calls.length w table

private theorem Appended.still (appended : Appended tableName calls w handle)
    (same : v.entries = w.entries)
    (handles : ∀ table, after = some table → SessionHandle tableName calls.length v table) :
    Appended tableName calls v after where
  inv := appended.inv.of_kept (Kept.of_eq (congrFun same _)) (Kept.of_eq (congrFun same _))
  settled := (file_congr same _).trans appended.settled
  file := by
    obtain ⟨file, found, counted⟩ := appended.file
    exact ⟨file, (file_congr same _).trans found, counted⟩
  offsets := appended.offsets
  handle := handles

private theorem Appended.opened (valid : storageValidTableName tableName = true)
    (appended : Appended tableName calls w none)
    (ran : Returns (Steps .any) (storageOpenTable tableName) w (.ok table) v) :
    Appended tableName calls v (some table) := by
  obtain ⟨_, within, shape, counted, below, _, same, _, position, stream⟩ :=
    wp_returns (storageOpenTable_spec valid appended.inv) ran
  have file : table.file = w.next := by rw [shape]
  refine appended.still (same appended.settled) ?_
  rintro _ ⟨⟩
  exact ⟨by rw [shape], by omega, by rw [counted, List.length_map], position, file ▸ stream⟩

private theorem Appended.openedReadonly (valid : storageValidTableName tableName = true)
    (appended : Appended tableName calls w none)
    (ran : Returns (Steps .any) (storageOpenTableReadonly tableName) w (.ok table) v) :
    Appended tableName calls v (some table) := by
  obtain ⟨_, opened⟩ := wp_returns (storageOpenTableReadonly_spec valid) ran
  cases opened with
  | opened found accepted =>
    have counted := (appended.inv.accepted appended.settled found accepted).1
    refine appended.still rfl ?_
    rintro _ ⟨⟩
    exact ⟨rfl, Nat.lt_succ_self _, by rw [counted, List.length_map], _, streams_cursor ..⟩

private theorem insert_ready_append (valid : storageValidTableName tableName = true)
    (appended : Appended tableName calls w (some table)) (writable : table.writable = true)
    (row : Row) :
    wp (Steps .any) (InsertInv appendRegime table.name (calls.map Prod.fst) row calls.length w)
      (storageInsertRow table row)
      (InsertPost .any appendRegime table (calls.map Prod.fst) row calls.length w) w := by
  obtain ⟨rfl, old, counted, position, stream⟩ := appended.handle table rfl
  obtain ⟨file, found, _⟩ := appended.file
  exact storageInsertRow_spec valid appended.inv writable (by rw [counted, List.length_map]) old
    (appended.inv.held appended.settled (found ▸ rfl) stream) trivial nofun (.inl rfl)

private theorem inserted_writable
    (ran : Returns (Steps faults) (storageInsertRow table row) w (.ok result) v) :
    table.writable = true := by
  cases writable : table.writable with
  | true => rfl
  | false =>
    unfold storageInsertRow at ran
    rw [writable] at ran
    cases ran

private theorem Appended.inserted {after : Table} {offset : UInt64}
    (valid : storageValidTableName tableName = true)
    (appended : Appended tableName calls w (some table))
    (ran : Returns (Steps .any) (storageInsertRow table row) w (.ok (offset, after)) v) :
    Appended tableName (calls ++ [(row, offset)]) v (some after) ∧
      offset.toNat = rowOffset calls.length ∧
      ∃ file written, w.file (tablePath tableName) = some file ∧
        v.file (tablePath tableName) = some written ∧
        Counted file.bytes calls.length ∧ Counted written.bytes (calls.length + 1) ∧
        ∀ i, i < 24 ∨ 32 ≤ i → i < rowOffset calls.length ∨ rowOffset calls.length + 36 ≤ i →
          written.bytes.getD i 0 = file.bytes.getD i 0 := by
  have ready := insert_ready_append valid appended (inserted_writable ran) row
  obtain ⟨rfl, old, _, position, stream⟩ := appended.handle table rfl
  obtain ⟨file, found, counted⟩ := appended.file
  obtain ⟨_, _, _, done⟩ := wp_returns ready ran
  have length : (calls.map Prod.fst).length = calls.length := List.length_map ..
  have length' : (calls ++ [(row, offset)]).length = calls.length + 1 := List.length_append
  have placed := length ▸ done.offset
  obtain ⟨shape, next⟩ := done.result
  obtain ⟨written, found', image⟩ := done.bytes file position found stream
  obtain ⟨counted', same⟩ := counted.inserted (length ▸ next) (length ▸ image)
  refine ⟨⟨?_, done.journal, ⟨written, found', length' ▸ counted'⟩, fun i call among => ?_, ?_⟩,
    placed,
    file, written,
    found, found', counted, counted', same⟩
  · rw [List.map_append, length', ← length]
    exact done.inv
  · by_cases old : i < calls.length
    · rw [List.getElem?_append_left old] at among
      exact appended.offsets i call among
    · have inside := (List.getElem?_eq_some_iff.mp among).1
      obtain rfl : i = calls.length := by omega
      rw [List.getElem?_concat_length, Option.some.injEq] at among
      exact among ▸ placed
  · rintro _ ⟨⟩
    have file : after.file = table.file := by rw [shape]
    refine ⟨by rw [shape], ?_, by rw [next, length, length'], file ▸ done.stream⟩
    rw [file]
    exact Nat.lt_of_lt_of_le old done.next

private theorem Appended.moved (appended : Appended tableName calls w (some table))
    (still : ∃ p, v = w.cursor table.file (tablePath tableName) p) :
    Appended tableName calls v (some table) := by
  obtain ⟨p, rfl⟩ := still
  refine appended.still rfl ?_
  rintro _ ⟨⟩
  obtain ⟨name, old, counts, _⟩ := appended.handle table rfl
  exact ⟨name, old, counts, p, streams_cursor ..⟩

private theorem Appended.cursor (appended : Appended tableName calls w (some table)) :
    ∃ file position, w.file (tablePath tableName) = some file ∧
      rowsEnd table.rowCount.toNat ≤ file.bytes.length ∧
      table.rowCount.toNat = calls.length ∧
        w = w.cursor table.file (tablePath tableName) position := by
  obtain ⟨_, _, counts, position, stream⟩ := appended.handle table rfl
  obtain ⟨file, found, counted⟩ := appended.file
  exact ⟨file, position, found, by rw [counts, counted.length], counts,
    (setStream_self stream).symm⟩

private theorem Appended.closed (appended : Appended tableName calls w (some table))
    (ran : Returns (Steps .any) (storageCloseTable table) w () v) :
    Appended tableName calls v none := by
  obtain ⟨rfl, _, _, position, stream⟩ := appended.handle table rfl
  obtain ⟨file, found, _⟩ := appended.file
  have held := appended.inv.held appended.settled (found ▸ rfl) stream
  obtain ⟨_, _, _, _, closes⟩ := wp_returns (storageCloseTable_spec appended.inv .before held) ran
  have after := closes position stream
  subst after
  exact appended.still rfl nofun

private theorem appends_holds {start : World} (valid : storageValidTableName tableName = true)
    (made : TableMade tableName start) (run : Appends tableName start calls w handle) :
    Appended tableName calls w handle := by
  induction run with
  | start =>
    obtain ⟨u, noTable, noJournal, ran⟩ := made
    have absent : TableInv appendRegime tableName u [] 0 :=
      tableInv_absent trivial noTable noJournal rfl rfl
    obtain ⟨_, within, _, _, others, file, found, image⟩ :=
      wp_returns (storageCreateTable_spec valid absent) ran
    refine ⟨within.inv, (others _ (journalPath_ne_tablePath _)).trans noJournal, ⟨file, found, ?_⟩,
      nofun, nofun⟩
    rw [image]
    exact ⟨length_headerBytes _, fun _ _ => rfl⟩
  | opened run ran ih => exact ih.opened valid ran
  | openedReadonly run ran ih => exact ih.openedReadonly valid ran
  | inserted run ran ih => exact (ih.inserted valid ran).1
  | read run ran ih =>
    obtain ⟨file, position, found, _, _, here⟩ := ih.cursor
    rw [here] at ran
    exact ih.moved (wp_returns (storageReadRowAtOffset_spec found _ _) ran).2.1
  | closed run ran ih => exact ih.closed ran

/-! ## The law -/

private theorem Appended.shown (appended : Appended tableName calls w handle)
    (terminated : ∀ call ∈ calls, call.1.name.getD 31 0 = 0)
    (found : w.file (tablePath tableName) = some file) :
    tableRows file.bytes calls.length = calls.map Prod.fst := by
  obtain ⟨_, found', counted⟩ := appended.file
  rw [found, Option.some.injEq] at found'
  subst found'
  have shows := tableRows_of_fits (n := calls.length) (appended.inv.holds.bytes found)
    (Nat.le_of_eq (List.length_map ..).symm)
  rw [shows, List.take_of_length_le (Nat.le_of_eq (List.length_map ..)), List.map_map]
  exact List.map_congr_left fun call among => visibleRow_eq (terminated call among)

/-- After any number of insertions in any number of sessions, all rows are selected in
the order of the calls; each call returned the offset of its row, where the row is read
again; and an insertion changes its own slot and the row count, and lengthens the file
with zeros up to its slot. -/
theorem table_appends {start : World} (made : TableMade tableName start)
    (run : Appends tableName start calls w (some table))
    (terminated : ∀ call ∈ calls, call.1.name.getD 31 0 = 0) :
    ((∃ result v, Returns (Steps .none) (storageSelectAllRows table) w result v) ∧
      ∀ result v, Returns (Steps .none) (storageSelectAllRows table) w result v →
        result = .ok (calls.map Prod.fst)) ∧
    (∀ r row offset, calls[r]? = some (row, offset) →
      offset.toNat = 64 + 4096 * (r / 113) + 36 * (r % 113) ∧
      (∃ result v, Returns (Steps .none) (storageReadRowAtOffset table offset) w result v) ∧
      ∀ result v, Returns (Steps .none) (storageReadRowAtOffset table offset) w result v →
        result = .ok row) ∧
    ∀ row offset after v, Returns (Steps .any) (storageInsertRow table row) w
      (.ok (offset, after)) v →
      ∃ file written, w.file (tablePath tableName) = some file ∧
        v.file (tablePath tableName) = some written ∧
        file.bytes.length ≤ offset.toNat ∧ written.bytes.length = offset.toNat + 36 ∧
        ∀ i, i < 24 ∨ 32 ≤ i → i < offset.toNat ∨ offset.toNat + 36 ≤ i →
          written.bytes.getD i 0 = file.bytes.getD i 0 := by
  obtain ⟨_, _, _, created⟩ := id made
  have valid := created_valid created
  have appended := appends_holds valid made run
  obtain ⟨file, position, found, whole, counts, here⟩ := appended.cursor
  have shown := appended.shown terminated found
  refine ⟨?_, fun r row offset among => ?_, fun row offset after v ran => ?_⟩
  · have selects : wp (Steps .none) _ (storageSelectAllRows table) _
        (w.cursor table.file (tablePath tableName) position) :=
          storageSelectAllRows_spec found whole
    rw [← here, counts, shown] at selects
    refine ⟨wp_progress selects, fun result v ran => ?_⟩
    exact (wp_returns selects ran).2.2.resolve_right fun wrong => Bool.false_ne_true wrong.1
  · have placed : offset.toNat = rowOffset r := appended.offsets r _ among
    have inside := (List.getElem?_eq_some_iff.mp among).1
    have last := rowOffset_lt_rowsEnd (counts.symm ▸ inside)
    have fits := file.fits
    unfold maxFileSize at fits
    have size : file.bytes.length.toUInt64.toNat = file.bytes.length := toNat_ofNat (by omega)
    have valid_offset :
        storageIsValidRowOffset offset file.bytes.length.toUInt64 table.rowCount = true :=
      storageIsValidRowOffset_iff.mpr ⟨r, by omega, placed, by omega, by omega⟩
    have slot : storageDeserializeRow (slice file.bytes offset.toNat 36) = row := by
      have entry : (tableRows file.bytes calls.length)[r]? = some row := by
        rw [shown, List.getElem?_map, among]
        rfl
      rw [placed]
      simpa [tableRows, inside, rowAt] using entry
    have reads : wp (Steps .none) _ (storageReadRowAtOffset table offset) _
        (w.cursor table.file (tablePath tableName) position) :=
          storageReadRowAtOffset_spec found table offset
    rw [← here, valid_offset, slot] at reads
    refine ⟨placed, wp_progress reads, fun result v ran => ?_⟩
    exact (wp_returns reads ran).2.2.resolve_right fun wrong => Bool.false_ne_true wrong.1
  · obtain ⟨_, placed, file, written, found, found', counted, counted', same⟩ :=
      appended.inserted valid ran
    rw [placed]
    refine ⟨file, written, found, found', ?_, ?_, same⟩
    · rw [counted.length]
      exact rowsEnd_le_rowOffset _
    · rw [counted'.length, rowsEnd_succ]

private def sevenRow : Row := .nameless 7

private def eightRow : Row := .nameless 8

private def handleTo (file : Nat) (rowCount : UInt64) : Table :=
  { name := str "t", file, rowCount, writable := true }

private def madeWorld : World := replayed .any (storageCreateTable (str "t")) [] World.empty

private def sessionWorld : World := replayed .any (storageOpenTable (str "t")) [] madeWorld

private def sevenAppended : World :=
  replayed .any (storageInsertRow (handleTo 1 0) sevenRow) [{ suffix := str "aaaaaa" }] sessionWorld

private def closedWorld : World := replayed .any (storageCloseTable (handleTo 1 1)) [] sevenAppended

private def laterWorld : World := replayed .any (storageOpenTable (str "t")) [] closedWorld

private def eightAppended : World :=
  replayed .any (storageInsertRow (handleTo 3 1) eightRow) [{ suffix := str "aaaaaa" }] laterWorld

/-- Two rows in two sessions: both are selected, and the first is read where it was put. -/
theorem table_appends_two :
    (∃ v, Returns (Steps .none) (storageSelectAllRows (handleTo 3 2)) eightAppended
      (.ok [sevenRow, eightRow]) v) ∧
      ∃ v, Returns (Steps .none) (storageReadRowAtOffset (handleTo 3 2) 64) eightAppended
        (.ok sevenRow) v := by
  have made : TableMade (str "t") madeWorld :=
    ⟨World.empty, rfl, rfl, replayed_returns (by decide +kernel)⟩
  have opened : Returns (Steps .any) (storageOpenTable (str "t")) madeWorld
      (.ok (handleTo 1 0)) sessionWorld :=
    replayed_returns (by decide +kernel)
  have first : Returns (Steps .any) (storageInsertRow (handleTo 1 0) sevenRow) sessionWorld
      (.ok (64, handleTo 1 1))
      sevenAppended := replayed_returns (by decide +kernel)
  have closed : Returns (Steps .any) (storageCloseTable (handleTo 1 1)) sevenAppended
      () closedWorld :=
    replayed_returns (by decide +kernel)
  have reopened : Returns (Steps .any) (storageOpenTable (str "t")) closedWorld
      (.ok (handleTo 3 1)) laterWorld :=
    replayed_returns (by decide +kernel)
  have second : Returns (Steps .any) (storageInsertRow (handleTo 3 1) eightRow) laterWorld
      (.ok (100, handleTo 3 2))
      eightAppended := replayed_returns (by decide +kernel)
  have run : Appends (str "t") madeWorld [(sevenRow, 64), (eightRow, 100)] eightAppended
      (some (handleTo 3 2)) :=
    .inserted (.opened (.closed (.inserted (.opened .start opened) first) closed) reopened) second
  obtain ⟨⟨⟨result, v, selects⟩, all⟩, placed, _⟩ := table_appends made run (by decide)
  obtain ⟨_, ⟨read, x, reads⟩, each⟩ := placed 0 sevenRow 64 rfl
  exact ⟨⟨v, all result v selects ▸ selects⟩, x, each read x reads ▸ reads⟩

end SqlEngine
