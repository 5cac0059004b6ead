import SqlEngine.Library.Replay
import SqlEngine.SelectProofs
import SqlEngine.TableRecovery

/-! The row counter of a SELECT that scans its table. It is an `int`, so it counts the rows
that are printed exactly as long as there are no more of them than an `int` can hold; the
storage layer allows more. -/
namespace SqlEngine

open Library Program World Posix

/-- The loop over the rows of a scan, as far as it has got: the number of rows read, the
scanner, the state of the loop and the files. -/
inductive Iterates (body : σ → Row → UInt64 → Prog (Except ρ σ)) (scan : RowScanner) (state : σ)
    (w : World) :
    Nat → RowScanner → σ → World → Prop where
  | start : Iterates body scan state w 0 scan state w
  | row (before : Iterates body scan state w i here reached u)
      (read : Returns (Steps .any) (storageScanNext here) u (.ok (row, offset, ahead)) v)
      (did : Returns (Steps .any) (body reached row offset) v (.ok after) x) :
      Iterates body scan state w (i + 1) ahead after x

variable {w u v x : World} {query : SelectQuery} {table : Table} {file : File} {path : Path}
  {i position : Nat} {rowsPrinted : Int32} {scan : RowScanner} {row : Row}

/-- The iterations of `select_with_scan`. -/
def SelectIterates (table : Table) (query : SelectQuery) (w : World) :
    Nat → RowScanner → Int32 → World → Prop :=
  Iterates (ρ := Empty) (fun rowsPrinted row _ => return .ok (← selectRow query rowsPrinted row))
    (storageScanBegin table) 0 w

/-- In every iteration the counter is the number of rows printed, which come behind one
header, and the last line has the number of all selected rows. -/
structure CountsExactly (table : Table) (query : SelectQuery) (rows : List Row)
    (w : World) : Prop where
  iteration : ∀ i scan rowsPrinted v, SelectIterates table query w i scan rowsPrinted v →
    rowsPrinted.toInt = (selectedRows query (rows.take i)).length ∧
      v.output = w.output ++ linesText query (selectedRows query (rows.take i))
  answer : ∀ v, Returns (Steps .any) (selectScanned table query) w .ok v →
    v.output = w.output ++ selectionText query rows

/-! ## The iterations -/

private theorem selectIteration_returns {result : Except Empty Int32}
    (did : Returns (Steps .any)
      (do return Except.ok (← selectRow query rowsPrinted row)) w result v) :
    result = .ok (countedWith query rowsPrinted row) ∧
      v = w.printed (printedFor query rowsPrinted row) := by
  have body : wp (Steps .any) (Still w) (selectRow query rowsPrinted row >>= fun after =>
      Pure.pure (Except.ok (ε := Empty) after))
        (fun result v => result = .ok (countedWith query rowsPrinted row) ∧
        v = w.printed (printedFor query rowsPrinted row)) w := by
    refine wp_seq (selectRow_spec query rowsPrinted row) (fun _ still => still) ?_
    rintro _ _ still ⟨rfl, rfl⟩
    exact ⟨still, rfl, rfl⟩
  exact (wp_returns body did).2

private theorem selectIterates_exact (found : w.file path = some file)
    (whole : rowsEnd table.rowCount.toNat ≤ file.bytes.length)
    (few : (selectedRows query (tableRows file.bytes table.rowCount.toNat)).length ≤ INT_MAX)
    (iterates : SelectIterates table query
      (w.cursor table.file path position) i scan rowsPrinted v) :
    scan = scanAt table i ∧ i ≤ table.rowCount.toNat ∧
      rowsPrinted = .ofNat (selectedRows query (tableRows file.bytes i)).length ∧
      ∃ p, v = (w.cursor table.file path p).printed
        (linesText query (selectedRows query (tableRows file.bytes i))) := by
  -- As long as the counter does not overflow, it is exact in every iteration.
  unfold SelectIterates at iterates
  induction iterates with
  | start => exact ⟨rfl, Nat.zero_le _, rfl, position, (printed_nil _).symm⟩
  | @row i here reached u row offset ahead v after x before read did ih =>
    obtain ⟨rfl, reaches, rfl, p, rfl⟩ := ih
    have still : ((w.printed (linesText query
      (selectedRows query (tableRows file.bytes i)))).file path) = some file := found
    rw [← cursor_printed] at read
    obtain ⟨_, ⟨q, rfl⟩, outcome⟩ := wp_returns (storageScanNext_spec still whole reaches) read
    rcases outcome with ⟨_, wrong⟩ | ⟨inside, same⟩ | ⟨_, wrong⟩
    · cases wrong
    · rw [Except.ok.injEq, Prod.mk.injEq, Prod.mk.injEq] at same
      obtain ⟨rfl, rfl, rfl⟩ := same
      obtain ⟨counted, rfl⟩ := selectIteration_returns did
      rw [Except.ok.injEq, countedWith_succ] at counted
      have front := selectedRows_le query file.bytes reaches
      refine ⟨rfl, inside, counted, q, ?_⟩
      rw [cursor_printed, printed_printed, printedFor_succ (Nat.le_trans front few)]
    · cases wrong

private theorem selectIterates_exists (query : SelectQuery) (position : Nat)
    (found : w.file path = some file) (whole : rowsEnd table.rowCount.toNat ≤ file.bytes.length)
    (inside : i ≤ table.rowCount.toNat) :
    ∃ p text, SelectIterates table query (w.cursor table.file path position) i (scanAt table i)
      (.ofNat (selectedRows query (tableRows file.bytes i)).length)
        ((w.cursor table.file path p).printed text) := by
  unfold SelectIterates
  induction i with
  | zero => exact ⟨position, [], by rw [printed_nil]; exact .start⟩
  | succ i ih =>
    obtain ⟨p, text, before⟩ := ih (by omega)
    have still : (w.printed text).file path = some file := found
    have next : wp (Steps .none) (Still (w.printed text)) (storageScanNext (scanAt table i)) _
        ((w.printed text).cursor table.file path p) := storageScanNext_spec still whole (by omega)
    obtain ⟨result, _, read⟩ := wp_progress next
    obtain ⟨_, ⟨q, rfl⟩, outcome⟩ := wp_returns next read
    rcases outcome with ⟨ended, _⟩ | ⟨_, rfl⟩ | ⟨calls, _⟩
    · omega
    · have body : wp (Steps .any) (Still _) _ _ ((w.printed text).cursor table.file path q) :=
        selectRow_spec query (.ofNat (selectedRows query (tableRows file.bytes i)).length)
          (rowAt file.bytes i)
      obtain ⟨after, x, did⟩ := wp_progress body
      obtain ⟨_, rfl, rfl⟩ := wp_returns body did
      have more : SelectIterates table query (w.cursor table.file path position) (i + 1)
          (scanAt table (i + 1)) _ _ :=
        .row before (returns_any read) (returns_bind.mpr ⟨_, _, did, .pure⟩)
      rw [countedWith_succ, cursor_printed, printed_printed] at more
      exact ⟨q, _, more⟩
    · cases calls

private theorem few_of_exact (found : w.file path = some file)
    (whole : rowsEnd table.rowCount.toNat ≤ file.bytes.length)
    (exact_counts : CountsExactly table query (tableRows file.bytes table.rowCount.toNat)
      (w.cursor table.file path position)) :
    (selectedRows query (tableRows file.bytes table.rowCount.toNat)).length ≤ INT_MAX := by
  obtain ⟨p, text, iterates⟩ := selectIterates_exists query position found whole
    (Nat.le_refl table.rowCount.toNat)
  obtain ⟨counted, _⟩ := exact_counts.iteration _ _ _ _ iterates
  rw [tableRows_front _ (Nat.le_refl _)] at counted
  have bound :=
    Int32.toInt_lt (.ofNat (selectedRows query (tableRows file.bytes table.rowCount.toNat)).length)
  unfold INT_MAX
  omega

private theorem exact_of_few (found : w.file path = some file)
    (whole : rowsEnd table.rowCount.toNat ≤ file.bytes.length)
    (few : (selectedRows query (tableRows file.bytes table.rowCount.toNat)).length ≤ INT_MAX) :
    CountsExactly table query (tableRows file.bytes table.rowCount.toNat)
      (w.cursor table.file path position) := by
  constructor
  · intro i scan rowsPrinted v iterates
    obtain ⟨_, inside, rfl, p, rfl⟩ := selectIterates_exact found whole few iterates
    have front := selectedRows_le query file.bytes inside
    rw [tableRows_front _ inside]
    refine ⟨Int32.toInt_ofNat_of_lt ?_, ?_⟩
    · unfold INT_MAX at few
      omega
    · rw [output_printed, output_cursor, output_cursor]
  · intro v ran
    obtain ⟨_, p, text, rfl, ⟨_, printed⟩ | ⟨failed, _⟩⟩ :=
      wp_returns (selectScanned_spec found whole) ran
    · rw [output_printed, output_cursor, output_cursor, printed few]
    · exact absurd rfl failed

/-! ## Queries -/

private theorem unused_reading
    (opened : Returns (Steps .any) (storageOpenTableReadonly query.tableName) w (.ok table) u)
    (unused : Returns (Steps .any) (selectWithIndex table query) u .notUsed x) :
    ∃ file, w.file (tablePath query.tableName) = some file ∧ Reading x table query.tableName file ∧
      x.output = w.output := by
  have valid := storageOpenTableMode_valid opened
  obtain ⟨_, opens⟩ := wp_returns (storageOpenTableReadonly_spec valid) opened
  obtain @⟨rowCount, p, file, found, accepted, _⟩ := opens
  have reading : Reading ({ w with next := w.next + 1 }.cursor w.next (tablePath query.tableName) p)
      { name := query.tableName, file := w.next, rowCount,
        writable := false } query.tableName file :=
    ⟨found, accepted, Nat.lt_succ_self _, p, streams_cursor ..⟩
  obtain ⟨_, y, q, text, rfl, rebuilt, silent⟩ :=
    wp_returns (selectWithIndex_spec valid reading (.inl rfl)) unused
  obtain rfl : text = [] := silent
  have noDot := (storageValidTableName_parts valid).noDot
  rw [printed_nil]
  refine ⟨file, found, ⟨?_, accepted, ?_, q, streams_cursor ..⟩, rebuilt.around.output⟩
  · exact (rebuilt.around.frame _ (indexPath_apart noDot noDot).1).same_file.trans found
  · exact Nat.lt_of_lt_of_le (Nat.lt_succ_self _) rebuilt.around.next

/-- The counter of a query that is answered by a scan is exact in every iteration and in
the last line if and only if the rows that match can be counted in an `int`. -/
theorem rows_printed_exact_iff
    (opened : Returns (Steps .any) (storageOpenTableReadonly query.tableName) w (.ok table) u)
    (unused : Returns (Steps .any) (selectWithIndex table query) u .notUsed x)
    (found : w.file (tablePath query.tableName) = some file) :
    CountsExactly table query (tableRows file.bytes table.rowCount.toNat) x ↔
      (selectedRows query (tableRows file.bytes table.rowCount.toNat)).length ≤ INT_MAX := by
  obtain ⟨file', found', reading, _⟩ := unused_reading opened unused
  rw [found, Option.some.injEq] at found'
  obtain ⟨position, stream⟩ := (found' ▸ reading).stream
  have here : x = x.cursor table.file (tablePath query.tableName) position :=
    (setStream_self stream).symm
  have whole := (found' ▸ reading).whole
  rw [here]
  exact ⟨few_of_exact (found' ▸ reading).found whole, exact_of_few (found' ▸ reading).found whole⟩

private def everyRow : SelectQuery :=
  { selectAll := true, columns := [], tableName := str "t", hasWhere := false, whereColumn := [],
    whereValue := [],
    whereValueType := .number }

private def storedWorld (file : File) : World :=
  World.empty.setEntry (tablePath (str "t")) { now := some file, before := [] }

private theorem everyRow_scans {count : UInt64} (accepted : acceptedCount file.bytes = .ok count) :
    ∃ table u, Returns (Steps .any) (storageOpenTableReadonly everyRow.tableName) (storedWorld file)
      (.ok table) u ∧
      Returns (Steps .any) (selectWithIndex table everyRow) u .notUsed u ∧
        table.rowCount = count := by
  have found : (storedWorld file).file (tablePath everyRow.tableName) = some file := rfl
  have opens : wp (Steps .none) _ (storageOpenTableReadonly everyRow.tableName) _
      (storedWorld file) :=
    storageOpenTableReadonly_spec (by decide)
  obtain ⟨result, u, opened⟩ := wp_progress opens
  obtain ⟨_, outcome⟩ := wp_returns opens opened
  cases outcome with
  | opened found' accepted' =>
    rw [found, Option.some.injEq] at found'
    rw [← found', accepted, Except.ok.injEq] at accepted'
    exact ⟨_, _, returns_any opened, .pure, accepted'.symm⟩
  | absent missing =>
    rw [found] at missing
    cases missing
  | pending _ there => cases there
  | refused found' refusal =>
    rw [found, Option.some.injEq] at found'
    rw [← found', accepted] at refusal
    cases refusal
  | failed calls => cases calls

private def threeRows : File :=
  { bytes := headerBytes 3 ++ (7 :: List.replicate 35 0) ++ (9 :: List.replicate 35 0) ++
    (11 :: List.replicate 35 0)
    older := []
    fits := by decide +kernel }

/-- Three rows are counted exactly, and the answer ends with their number. -/
theorem rows_printed_exact_three :
    ∃ table u, Returns (Steps .any) (storageOpenTableReadonly everyRow.tableName)
      (storedWorld threeRows) (.ok table) u ∧
      CountsExactly table everyRow (tableRows threeRows.bytes table.rowCount.toNat) u ∧
      (selectedRows everyRow (tableRows threeRows.bytes table.rowCount.toNat)).map Row.id =
        [7, 9, 11] := by
  have accepted : acceptedCount threeRows.bytes = .ok 3 := by decide +kernel
  obtain ⟨table, u, opened, unused, counted⟩ := everyRow_scans accepted
  have matching : (selectedRows everyRow (tableRows threeRows.bytes (3 : UInt64).toNat)).map Row.id
      = [7, 9, 11] := by
    decide +kernel
  rw [← counted] at matching
  have few : (selectedRows everyRow (tableRows threeRows.bytes table.rowCount.toNat)).length ≤
      INT_MAX := by
    rw [← List.length_map (f := Row.id), matching]
    decide
  exact ⟨table, u, opened, (rows_printed_exact_iff opened unused rfl).mpr few, matching⟩

/-- A table of as many rows as an `int` cannot count any more. -/
private def crowdedFile : File :=
  { bytes := headerBytes 2147483648 ++ List.replicate (rowsEnd 2147483648 - 64) 0, older := []
    fits := by
      rw [List.length_append, length_headerBytes, List.length_replicate]
      decide }

private theorem crowded_length : crowdedFile.bytes.length = rowsEnd 2147483648 := by
  rw [crowdedFile, List.length_append, length_headerBytes, List.length_replicate]
  decide

/-- A query for every row of a table with one row more than an `int` can count. -/
theorem rows_printed_exact_crowded :
    ∃ table u, Returns (Steps .any) (storageOpenTableReadonly everyRow.tableName)
      (storedWorld crowdedFile) (.ok table) u ∧
      Returns (Steps .any) (selectWithIndex table everyRow) u .notUsed u ∧
      ¬ CountsExactly table everyRow (tableRows crowdedFile.bytes table.rowCount.toNat) u := by
  obtain ⟨current, count⟩ :=
    headerOf_headerBytes 2147483648 (List.replicate (rowsEnd 2147483648 - 64) 0)
  have accepted : acceptedCount crowdedFile.bytes = .ok 2147483648 :=
    acceptedCount_iff.mpr ⟨by rw [crowded_length]; decide, current, count.symm, by decide,
      by rw [crowded_length]; decide⟩
  obtain ⟨table, u, opened, unused, counted⟩ := everyRow_scans accepted
  refine ⟨table, u, opened, unused, fun exact_counts => ?_⟩
  obtain ⟨file, found, reading, _⟩ := unused_reading opened unused
  obtain rfl : crowdedFile = file := Option.some.inj found
  obtain ⟨position, stream⟩ := reading.stream
  have here : u = u.cursor table.file (tablePath everyRow.tableName) position :=
    (setStream_self stream).symm
  have few := few_of_exact reading.found reading.whole (here ▸ exact_counts)
  have all : ∀ rows, selectedRows everyRow rows = rows := fun rows =>
    List.filter_eq_self.mpr fun row _ => by simp [rowMatchesWhere, everyRow]
  rw [all, length_tableRows, counted] at few
  exact absurd few (by decide)

end SqlEngine
