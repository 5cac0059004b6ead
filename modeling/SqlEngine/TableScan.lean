import SqlEngine.TableReads

/-! Which table files are accepted, and what a scan of an accepted file returns: for every
content of the file, also one that no engine wrote. -/
namespace SqlEngine

open Library Program World

/-- The table files that open: a full header of this version, and every row it counts
within the file, at offsets of 64 bits. -/
structure AcceptedFile (bytes : Bytes) : Prop where
  full : 64 ≤ bytes.length
  current : (headerOf bytes).Current
  representable : rowsEnd (headerOf bytes).count.toNat < 2 ^ 64
  whole : rowsEnd (headerOf bytes).count.toNat ≤ bytes.length

private theorem acceptedCount_ok {bytes : Bytes} {count : UInt64} :
    acceptedCount bytes = .ok count ↔ AcceptedFile bytes ∧ count = (headerOf bytes).count := by
  rw [acceptedCount_iff]
  constructor
  · rintro ⟨full, current, rfl, representable, whole⟩
    exact ⟨⟨full, current, representable, whole⟩, rfl⟩
  · rintro ⟨accepted, rfl⟩
    exact ⟨accepted.full, accepted.current, rfl, accepted.representable, accepted.whole⟩

/-- Successive calls of `storage_scan_next` up to the first that returns no row: the
rows, and the status of that call. -/
inductive ScanRun (faults : Faults) : RowScanner → World → List Row → ScanStatus → Prop where
  | stopped (ran : Returns (Steps faults) (storageScanNext scan) w (.error status) v) :
      ScanRun faults scan w [] status
  | row (ran : Returns (Steps faults) (storageScanNext scan) w (.ok (row, offset, following)) v)
      (rest : ScanRun faults following v rows status) : ScanRun faults scan w (row :: rows) status

/-- A table is opened for reading and scanned: the status of a refusal, or the rows and
the status at their end. -/
inductive Scanned (faults : Faults) (tableName : Bytes) (w : World) :
    Except TableStatus (List Row × ScanStatus) → Prop where
  | refused (ran :
      Returns (Steps faults) (storageOpenTableReadonly tableName) w (.error status) v) :
      Scanned faults tableName w (.error status)
  | rows (ran : Returns (Steps faults) (storageOpenTableReadonly tableName) w (.ok table) v)
      (scan : ScanRun faults (storageScanBegin table) v rows status) :
      Scanned faults tableName w (.ok (rows, status))

variable {w v : World} {tableName : Bytes} {file : File}

/-! ## Runs -/

private theorem scanRun_step {table : Table} {path : Path} {row position : Nat}
    (found : w.file path = some file)
    (whole : rowsEnd table.rowCount.toNat ≤ file.bytes.length)
    (reached : row ≤ table.rowCount.toNat)
    (ran : Returns (Steps .none) (storageScanNext (scanAt table row))
      (w.cursor table.file path position) result v) :
    (∃ p, v = w.cursor table.file path p) ∧
      (row = table.rowCount.toNat ∧ result = .error .end ∨
        row < table.rowCount.toNat ∧ result = .ok (rowAt file.bytes row, offsetOf row,
          scanAt table (row + 1))) := by
  obtain ⟨_, still, done | more | ⟨calls, _⟩⟩ :=
  wp_returns (storageScanNext_spec found whole reached) ran
  · exact ⟨still, .inl done⟩
  · exact ⟨still, .inr more⟩
  · cases calls

private theorem scanRun_rows {table : Table} {path : Path} {row position : Nat}
    (found : w.file path = some file) (whole : rowsEnd table.rowCount.toNat ≤ file.bytes.length)
    (reached : row ≤ table.rowCount.toNat)
    (scan : ScanRun .none (scanAt table row) (w.cursor table.file path position) rows status) :
    status = .end ∧ rows = (List.range' row (table.rowCount.toNat - row)).map
      (rowAt file.bytes) := by
  generalize start : scanAt table row = scanner at scan
  generalize here : w.cursor table.file path position = state at scan
  induction scan generalizing row position with
  | stopped ran =>
    subst start here
    obtain ⟨_, ⟨rfl, same⟩ | ⟨_, wrong⟩⟩ := scanRun_step found whole reached ran
    · cases same
      simp
    · cases wrong
  | row ran rest ih =>
    subst start here
    obtain ⟨⟨p, rfl⟩, ⟨_, wrong⟩ | ⟨inside, same⟩⟩ := scanRun_step found whole reached ran
    · cases wrong
    · cases same
      obtain ⟨ended, rows⟩ := ih inside rfl rfl
      refine ⟨ended, ?_⟩
      rw [rows, show table.rowCount.toNat - row = table.rowCount.toNat - (row + 1) + 1 by omega,
        List.range'_succ]
      rfl

private theorem scanNext_returns {table : Table} {path : Path} {row : Nat} (position : Nat)
    (found : w.file path = some file) (whole : rowsEnd table.rowCount.toNat ≤ file.bytes.length)
    (reached : row ≤ table.rowCount.toNat) :
    ∃ result v, Returns (Steps .none) (storageScanNext (scanAt table row))
      (w.cursor table.file path position)
      result v :=
  wp_progress (storageScanNext_spec found whole reached)

private theorem scanRun_exists {table : Table} {path : Path} {row : Nat} (position : Nat)
    (found : w.file path = some file) (whole : rowsEnd table.rowCount.toNat ≤ file.bytes.length)
    (reached : row ≤ table.rowCount.toNat) :
    ∃ rows status, ScanRun .none (scanAt table row)
      (w.cursor table.file path position) rows status := by
  induction left : table.rowCount.toNat - row generalizing row position with
  | zero =>
    obtain ⟨result, v, ran⟩ := scanNext_returns position found whole reached
    obtain ⟨_, ⟨_, rfl⟩ | ⟨inside, _⟩⟩ := scanRun_step found whole reached ran
    · exact ⟨[], .end, .stopped ran⟩
    · omega
  | succ left ih =>
    obtain ⟨result, v, ran⟩ := scanNext_returns position found whole reached
    obtain ⟨⟨p, rfl⟩, ⟨done, _⟩ | ⟨inside, rfl⟩⟩ := scanRun_step found whole reached ran
    · omega
    · obtain ⟨rows, status, rest⟩ := @ih (row + 1) p inside (by omega)
      exact ⟨_, status, .row ran rest⟩

/-- A scan of an open table shows the rows in the slots of its count. -/
theorem scanRun_shows {table : Table} {path : Path} {position : Nat}
    (found : w.file path = some file) (whole : rowsEnd table.rowCount.toNat ≤ file.bytes.length) :
    (∃ rows status, ScanRun .none (storageScanBegin table)
      (w.cursor table.file path position) rows status) ∧
      ∀ rows status, ScanRun .none (storageScanBegin table)
        (w.cursor table.file path position) rows status →
        status = .end ∧ rows = tableRows file.bytes table.rowCount.toNat := by
  refine ⟨scanRun_exists position found whole (Nat.zero_le _), fun rows status scan => ?_⟩
  obtain ⟨ended, shown⟩ := scanRun_rows found whole (Nat.zero_le _) scan
  refine ⟨ended, ?_⟩
  rw [shown, Nat.sub_zero, ← List.range_eq_range']
  rfl

private theorem scanned_exact (valid : storageValidTableName tableName = true)
    (found : w.file (tablePath tableName) = some file)
    (settled : w.file (journalPath tableName) = none)
    (scanned : Scanned .none tableName w outcome) :
    (AcceptedFile file.bytes ∧
      outcome = .ok (tableRows file.bytes (headerOf file.bytes).count.toNat, .end)) ∨
      (¬ AcceptedFile file.bytes ∧ ∃ status, outcome = .error status) := by
  cases scanned with
  | refused ran =>
    obtain ⟨_, opened⟩ := wp_returns (storageOpenTableReadonly_spec valid) ran
    refine .inr ⟨fun accepted => ?_, _, rfl⟩
    cases opened with
    | absent missing =>
      rw [found] at missing
      cases missing
    | pending _ there =>
      rw [settled] at there
      cases there
    | refused there refusal =>
      rw [found, Option.some.injEq] at there
      subst there
      rw [acceptedCount_ok.mpr ⟨accepted, rfl⟩] at refusal
      cases refusal
    | failed calls => cases calls
  | rows ran scan =>
    obtain ⟨_, opened⟩ := wp_returns (storageOpenTableReadonly_spec valid) ran
    cases opened with
    | opened there accepted =>
      rw [found, Option.some.injEq] at there
      subst there
      obtain ⟨acceptable, rfl⟩ := acceptedCount_ok.mp accepted
      obtain ⟨rfl, rfl⟩ :=
        (scanRun_shows (w := { w with next := w.next + 1 }) found acceptable.whole).2 _ _ scan
      exact .inl ⟨acceptable, rfl⟩

private theorem scanned_exists (valid : storageValidTableName tableName = true) :
    ∃ outcome, Scanned .none tableName w outcome := by
  obtain ⟨result, v, ran⟩ :
      ∃ result v, Returns (Steps .none) (storageOpenTableReadonly tableName) w result v :=
    wp_progress (storageOpenTableReadonly_spec valid)
  obtain ⟨_, opened⟩ := wp_returns (storageOpenTableReadonly_spec valid) ran
  cases opened with
  | @opened rowCount p file found accepted =>
    let table : Table := { name := tableName, file := w.next, rowCount, writable := false }
    have whole : rowsEnd table.rowCount.toNat ≤ file.bytes.length :=
      (acceptedCount_iff.mp accepted).2.2.2.2
    obtain ⟨rows, status, scan⟩ :=
      (scanRun_shows (w := { w with next := w.next + 1 }) found whole).1
    exact ⟨_, .rows ran scan⟩
  | absent => exact ⟨_, .refused ran⟩
  | pending => exact ⟨_, .refused ran⟩
  | refused => exact ⟨_, .refused ran⟩
  | failed => exact ⟨_, .refused ran⟩

/-- Every content of a table file: opening succeeds exactly for the accepted ones, and
then the scan returns each row of the header's count, decoded from its slot, and the end.
Files that agree on the header and on these slots scan alike. -/
theorem table_file_exact (valid : storageValidTableName tableName = true)
    (found : w.file (tablePath tableName) = some file)
    (settled : w.file (journalPath tableName) = none) :
    (∃ outcome, Scanned .none tableName w outcome) ∧
    ∀ outcome, Scanned .none tableName w outcome →
      ((∃ scan, outcome = .ok scan) ↔ AcceptedFile file.bytes) ∧
      (∀ rows status, outcome = .ok (rows, status) → status = .end ∧
        (rows.map fun row => (row.id, row.name)) =
          (List.range (headerOf file.bytes).count.toNat).map fun r =>
            let slot := slice file.bytes (64 + 4096 * (r / 113) + 36 * (r % 113)) 36
            ((getU32Le slot).toInt32, slice slot 4 31 ++ [0])) ∧
      ∀ (u : World) (other : File) (again : Except TableStatus (List Row × ScanStatus)),
        u.file (tablePath tableName) = some other → u.file (journalPath tableName) = none →
        AcceptedFile file.bytes → AcceptedFile other.bytes →
          headerOf other.bytes = headerOf file.bytes →
        (∀ r < (headerOf file.bytes).count.toNat,
          slice other.bytes (rowOffset r) 36 = slice file.bytes (rowOffset r) 36) →
        Scanned .none tableName u again → again = outcome := by
  refine ⟨scanned_exists valid, fun outcome scanned => ?_⟩
  rcases scanned_exact valid found settled scanned with ⟨accepted, rfl⟩ | ⟨refused, status, rfl⟩
  · refine ⟨⟨fun _ => accepted, fun _ => ⟨_, rfl⟩⟩, ?_, ?_⟩
    · rintro rows status ⟨⟩
      refine ⟨rfl, ?_⟩
      rw [tableRows, List.map_map]
      refine List.map_congr_left fun r inside => ?_
      have last := rowOffset_lt_rowsEnd (List.mem_range.mp inside)
      have whole := accepted.whole
      have length : (slice file.bytes (rowOffset r) 36).length = 36 := by
        rw [length_slice]
        omega
      have name : ((slice file.bytes (rowOffset r) 36).drop 4).takeD (STORAGE_NAME_SIZE - 1) 0 =
          slice (slice file.bytes (rowOffset r) 36) 4 31 :=
        List.takeD_eq_take _ (by rw [List.length_drop, length]; decide)
      simp only [Function.comp_apply, rowAt, storageDeserializeRow, name]
      rfl
    · intro u other again there clear _ accepted' header slots scanned'
      rcases scanned_exact valid there clear scanned' with ⟨_, rfl⟩ | ⟨wrong, _⟩
      · rw [header]
        refine congrArg (fun rows => Except.ok (rows, ScanStatus.end)) ?_
        exact List.map_congr_left fun r inside =>
          congrArg storageDeserializeRow (slots r (List.mem_range.mp inside))
      · exact absurd accepted' wrong
  · refine ⟨⟨?_, fun accepted => absurd accepted refused⟩, ?_, ?_⟩
    · rintro ⟨_, ⟨⟩⟩
    · rintro _ _ ⟨⟩
    · intro _ _ _ _ _ accepted
      exact absurd accepted refused

private def oneRowFile : File :=
  { bytes := headerBytes 1 ++ (7 :: List.replicate 35 0), older := [], fits := by decide }

private def oneRowWorld : World :=
  World.empty.setEntry (tablePath (str "t")) { now := some oneRowFile, before := [] }

/-- A table file with one row. -/
theorem table_file_exact_one :
    ∃ rows status, Scanned .none (str "t") oneRowWorld (.ok (rows, status)) ∧
    status = .end ∧ rows.map (fun row => row.id) = [7] := by
  have accepted : AcceptedFile oneRowFile.bytes :=
    ⟨by decide, ⟨by decide, by decide, by decide, by decide, by decide,
    by decide⟩, by decide, by decide⟩
  have exact := @table_file_exact oneRowWorld (str "t") oneRowFile (by decide) (by decide)
    (by decide)
  obtain ⟨⟨outcome, scanned⟩, each⟩ := exact
  obtain ⟨opens, rows_exact, _⟩ := each outcome scanned
  obtain ⟨⟨rows, status⟩, rfl⟩ := opens.mpr accepted
  obtain ⟨ended, rows_eq⟩ := rows_exact rows status rfl
  refine ⟨rows, status, scanned, ended, ?_⟩
  have ids := congrArg (List.map Prod.fst) rows_eq
  rw [List.map_map] at ids
  refine ids.trans ?_
  decide

end SqlEngine
