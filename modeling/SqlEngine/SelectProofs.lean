import SqlEngine.ExecutorProofs

/-! SELECT: through an index that does not have to be right, or by scanning, it prints the
selected rows of its table in order, and leaves tables and journals alone. -/
namespace SqlEngine

open Library Program World Posix

variable {faults : Faults} {inv : World → Prop} {w u v x : World} {query : SelectQuery}
    {table : Table} {file : File}
  {path : Path} {position : Nat} {rows : List Row} {row : Row}

/-! ## What is printed -/

/-- The rows that satisfy the WHERE clause, in order. -/
def selectedRows (query : SelectQuery) (rows : List Row) : List Row :=
  rows.filter (rowMatchesWhere · query)

/-- The lines of some rows, behind a header if there are any. -/
def linesText (query : SelectQuery) (rows : List Row) : Bytes :=
  if rows = [] then [] else headerText query ++ rows.flatMap (rowText · query)

/-- The last line of a SELECT that prints so many rows. -/
def countText (count : Nat) : Bytes :=
  if count = 0 then str "(empty result)" ++ newline
  else newline ++ str "(" ++ decimalNat count ++ str " row(s) returned)" ++ newline

/-- What a SELECT prints for a table with some rows. -/
def selectionText (query : SelectQuery) (rows : List Row) : Bytes :=
  linesText query (selectedRows query rows) ++ countText (selectedRows query rows).length

/-- A count that an `int` can hold is printed as it is. -/
theorem rowsPrintedText_ofNat {count : Nat} (few : count ≤ INT_MAX) :
    rowsPrintedText (.ofNat count) = countText count := by
  unfold INT_MAX at few
  have number : (Int32.ofNat count).toInt = count := Int32.toInt_ofNat_of_lt (by omega)
  have digits : decimal (.ofNat count) = decimalNat count := by
    rw [decimal, number, if_neg (by omega), Int.natAbs_natCast, decimalNat]
  have zero : Int32.ofNat count = 0 ↔ count = 0 := by
    rw [← Int32.toInt_inj, number, Int32.toInt_zero]
    omega
  unfold rowsPrintedText countText
  simp only [zero, digits]

private theorem linesText_append (query : SelectQuery) (rows : List Row) (row : Row) :
    linesText query (rows ++ [row]) =
      linesText query rows ++
        ((if rows.length = 0 then headerText query else []) ++ rowText row query) := by
  cases rows with
  | nil => simp [linesText]
  | cons first rest => simp [linesText]

/-- One more row is read. -/
theorem selectedRows_succ (query : SelectQuery) (bytes : Bytes) (i : Nat) :
    selectedRows query (tableRows bytes (i + 1)) = selectedRows query (tableRows bytes i) ++
      if rowMatchesWhere (rowAt bytes i) query then [rowAt bytes i] else [] := by
  have one_more : tableRows bytes (i + 1) = tableRows bytes i ++ [rowAt bytes i] := by
    simp [tableRows, List.range_succ]
  rw [one_more, selectedRows, List.filter_append, ← selectedRows]
  cases matched : rowMatchesWhere (rowAt bytes i) query <;> simp [matched]

theorem selectedRows_le (query : SelectQuery) (bytes : Bytes) {i count : Nat} (inside : i ≤ count) :
    (selectedRows query (tableRows bytes i)).length ≤
      (selectedRows query (tableRows bytes count)).length := by
  rw [← tableRows_front bytes inside]
  exact ((List.take_sublist ..).filter _).length_le

/-- The row with the id that is asked for is the only one that is selected. -/
theorem selectedRows_unique {key : Int32} (restricted : query.hasWhere = true)
    (byId : columnFromName query.whereColumn = .id)
    (denotes : utilParseInt32 query.whereValue = some key) (distinct : (rows.map Row.id).Nodup)
    (among : row ∈ rows) (same : row.id = key) :
    selectedRows query rows = [row] := by
  have matches_id : ∀ other : Row, rowMatchesWhere other query = (other.id == key) :=
    fun other => by
    simp [rowMatchesWhere, restricted, byId, denotes]
  have only : ∀ other ∈ rows, rowMatchesWhere other query = (other == row) := by
    intro other member
    rw [matches_id, Bool.eq_iff_iff, beq_iff_eq, beq_iff_eq]
    constructor
    · intro equal
      exact List.inj_on_of_nodup_map distinct member among (equal.trans same.symm)
    · rintro rfl
      exact same
  rw [selectedRows, List.filter_congr only, List.filter_beq,
    List.count_eq_one_of_mem (distinct.of_map _) among]
  rfl

/-! ## Scanning -/

/-- What the body of the loop prints for a row. -/
def printedFor (query : SelectQuery) (rowsPrinted : Int32) (row : Row) : Bytes :=
  if rowMatchesWhere row query then
    (if rowsPrinted = 0 then headerText query else []) ++ rowText row query else []

/-- The counter behind the body of the loop. -/
def countedWith (query : SelectQuery) (rowsPrinted : Int32) (row : Row) : Int32 :=
  if rowMatchesWhere row query then rowsPrinted + 1 else rowsPrinted

/-- Each row is printed if it is selected, and counted then. -/
theorem selectRow_spec (query : SelectQuery) (rowsPrinted : Int32) (row : Row) :
    wp (Steps faults) (Still w) (selectRow query rowsPrinted row)
      (fun after v => v = w.printed (printedFor query rowsPrinted row) ∧
        after = countedWith query rowsPrinted row) w := by
  unfold selectRow printedFor countedWith
  cases matched : rowMatchesWhere row query with
  | false => exact ⟨rfl, (printed_nil w).symm, rfl⟩
  | true =>
    simp only [Bool.not_true, Bool.false_eq_true, ↓reduceIte]
    split
    · exact wp_print rfl (wp_print rfl ⟨rfl, printed_printed .., rfl⟩)
    · exact wp_print rfl ⟨rfl, rfl, rfl⟩

/-- The counter counts the rows that were printed, up to what an `int` holds. -/
theorem countedWith_succ (query : SelectQuery) (bytes : Bytes) (i : Nat) :
    countedWith query (.ofNat (selectedRows query (tableRows bytes i)).length) (rowAt bytes i) =
      .ofNat (selectedRows query (tableRows bytes (i + 1))).length := by
  rw [selectedRows_succ]
  unfold countedWith
  split
  · rw [List.length_append, List.length_singleton, Int32.ofNat_add]
    rfl
  · rw [List.append_nil]

/-- The header is in front of the first line, as long as the counter does not overflow. -/
theorem printedFor_succ {bytes : Bytes} {i : Nat}
    (few : (selectedRows query (tableRows bytes i)).length ≤ INT_MAX) :
    linesText query (selectedRows query (tableRows bytes i)) ++
        printedFor query (.ofNat (selectedRows query (tableRows bytes i)).length) (rowAt bytes i) =
      linesText query (selectedRows query (tableRows bytes (i + 1))) := by
  unfold INT_MAX at few
  have zero : Int32.ofNat (selectedRows query (tableRows bytes i)).length = 0 ↔
      (selectedRows query (tableRows bytes i)).length = 0 := by
    rw [← Int32.toInt_inj, Int32.toInt_ofNat_of_lt (by omega), Int32.toInt_zero]
    omega
  rw [selectedRows_succ]
  unfold printedFor
  simp only [zero]
  split
  · exact (linesText_append ..).symm
  · rw [List.append_nil, List.append_nil]

/-- The rows of a table that a SELECT prints are not too many for its counter. -/
def CountsRows (query : SelectQuery) (bytes : Bytes) (count : Nat) : Prop :=
  (selectedRows query (tableRows bytes count)).length ≤ INT_MAX

/-- A scan prints the selected rows, or a call has failed. -/
theorem selectWithScan_spec (found : w.file path = some file)
    (whole : rowsEnd table.rowCount.toNat ≤ file.bytes.length) :
    wp (Steps faults) (Still w) (selectWithScan table query)
      (fun result v => ∃ p text, v = (w.cursor table.file path p).printed text ∧ match result with
        | .ok rowsPrinted => (CountsRows query file.bytes table.rowCount.toNat →
              text = linesText query
                (selectedRows query (tableRows file.bytes table.rowCount.toNat))) ∧
            rowsPrinted = .ofNat
              (selectedRows query (tableRows file.bytes table.rowCount.toNat)).length
        | .error status => faults.calls = true ∧ status ≠ .ok)
      (w.cursor table.file path position) := by
  unfold selectWithScan
  rw [storageScanBegin_eq]
  refine wp_seq (forRows_spec path
    (fun i rowsPrinted v => ∃ p text, v = (w.cursor table.file path p).printed text ∧
      (CountsRows query file.bytes table.rowCount.toNat →
        text = linesText query (selectedRows query (tableRows file.bytes i))) ∧
      rowsPrinted = .ofNat (selectedRows query (tableRows file.bytes i)).length)
    (fun (hit : Empty) _ => hit.elim) (fun u v still same => same.trans still) whole ?_ ?_ ?_
      (Nat.zero_le _)
    (Nat.le_refl _) ⟨position, [], (printed_nil _).symm, fun _ => rfl, rfl⟩)
      (fun _ still => still) ?_
  · rintro i _ _ ⟨p, text, rfl, _, rfl⟩
    exact ⟨rfl, openOn_cursor found p⟩
  · rintro i _ _ p ⟨q, text, rfl, lines, rfl⟩
    exact ⟨p, text, by rw [cursor_printed, cursor_cursor], lines, rfl⟩
  · rintro i _ _ inside ⟨p, text, rfl, lines, rfl⟩
    have front := selectedRows_le query file.bytes (Nat.le_of_lt inside)
    refine wp_seq (selectRow_spec query _ (rowAt file.bytes i)) (fun _ still => still) ?_
    rintro _ _ still ⟨rfl, rfl⟩
    refine ⟨still, p, _, printed_printed .., fun few => ?_, countedWith_succ ..⟩
    rw [lines few, printedFor_succ (Nat.le_trans front few)]
  · rintro (hit | ⟨status, rowsPrinted⟩) v _ outcome
    · cases hit
    · rcases outcome with ⟨rfl, p, text, rfl, lines, rfl⟩ | ⟨calls, rfl, i, p, text, rfl, _⟩
      · exact ⟨rfl, p, text, rfl, lines, rfl⟩
      · exact wp_print rfl ⟨rfl, p, _, printed_printed .., calls, nofun⟩

/-- Where the index is not used, the selected rows are printed and counted. -/
theorem selectScanned_spec (found : w.file path = some file)
    (whole : rowsEnd table.rowCount.toNat ≤ file.bytes.length) :
    wp (Steps faults) (Still w) (selectScanned table query)
      (fun status v => ∃ p text, v = (w.cursor table.file path p).printed text ∧
        (status = .ok ∧ (CountsRows query file.bytes table.rowCount.toNat →
            text = selectionText query (tableRows file.bytes table.rowCount.toNat)) ∨
          status ≠ .ok ∧ faults.calls = true))
      (w.cursor table.file path position) := by
  unfold selectScanned
  refine wp_seq (selectWithScan_spec found whole) (fun _ still => still) ?_
  rintro (status | rowsPrinted) _ still ⟨p, text, rfl, outcome⟩
  · exact ⟨still, p, text, rfl, .inr ⟨outcome.2, outcome.1⟩⟩
  · obtain ⟨lines, rfl⟩ := outcome
    refine wp_print still ⟨still, p, _, printed_printed .., .inl ⟨rfl, fun few => ?_⟩⟩
    rw [lines few, rowsPrintedText_ofNat few, selectionText]

/-! ## Through the index -/

/-- An open table for reading, in the middle of a SELECT. -/
structure Reading (w : World) (table : Table) (tableName : Bytes) (file : File) : Prop where
  found : w.file (tablePath tableName) = some file
  accepted : acceptedCount file.bytes = .ok table.rowCount
  old : table.file < w.next
  stream : ∃ position, w.streams table.file =
    some { path := tablePath tableName, position, pending := [] }

theorem Reading.whole {tableName : Bytes} (reading : Reading w table tableName file) :
    rowsEnd table.rowCount.toNat ≤ file.bytes.length :=
  (acceptedCount_iff.mp reading.accepted).2.2.2.2

/-- What a lookup through the index prints. -/
def IndexSelected (query : SelectQuery) (bytes : Bytes) (count : Nat) (distinct : Prop)
    (text : Bytes) :
    SelectIndexResult → Prop
  | .error => ¬ distinct
  | .notUsed => text = []
  | .rowPrinted => ∃ key row r, query.hasWhere = true ∧ columnFromName query.whereColumn = .id ∧
      utilParseInt32 query.whereValue = some key ∧ RowFound bytes count key row r ∧
      text = headerText query ++ rowText row query

/-- An index entry that is not right is not used. -/
theorem selectWithIndex_spec (valid : storageValidTableName query.tableName = true)
    (reading : Reading w table query.tableName file)
    (possible : faults.calls = true ∨ Spare (indexPath query.tableName) w) :
    wp (Steps faults) (IndexKept query.tableName (Rebuilt faults query.tableName w) w)
      (selectWithIndex table query)
      (fun result v => ∃ x p text,
        v = (x.cursor table.file (tablePath query.tableName) p).printed text ∧
        IndexRebuilt faults query.tableName w x ∧
        IndexSelected query file.bytes table.rowCount.toNat
          ((tableRows file.bytes table.rowCount.toNat).map Row.id).Nodup text result) w := by
  have here : IndexKept query.tableName (Rebuilt faults query.tableName w) w w := .still rfl
  obtain ⟨found, accepted, old, position, stream⟩ := reading
  have cursor : w = (w.cursor table.file (tablePath query.tableName) position).printed [] := by
    rw [printed_nil]
    exact (setStream_self stream).symm
  have unused : wp (Steps faults) (IndexKept query.tableName (Rebuilt faults query.tableName w) w)
      (Pure.pure SelectIndexResult.notUsed) (fun result v => ∃ x p text,
        v = (x.cursor table.file (tablePath query.tableName) p).printed text ∧
        IndexRebuilt faults query.tableName w x ∧
        IndexSelected query file.bytes table.rowCount.toNat
          ((tableRows file.bytes table.rowCount.toNat).map Row.id).Nodup text result) w :=
    ⟨here, w, position, [], cursor, .quiet (.refl w), rfl⟩
  unfold selectWithIndex
  split
  · exact unused
  · rename_i restricted
    simp only [Bool.or_eq_true, Bool.not_eq_true', decide_eq_true_eq, not_or,
      Bool.not_eq_false, ne_eq,
      not_not] at restricted
    cases denotes : utilParseInt32 query.whereValue with
    | none => exact unused
    | some key =>
      refine wp_seq (indexLoadOrRebuild_spec possible) (fun _ kept => kept) ?_
      rintro result x kept ⟨rebuilt, outcome⟩
      have noDot := (storageValidTableName_parts valid).noDot
      have foundX : x.file (tablePath query.tableName) = some file :=
        (rebuilt.around.frame _ (indexPath_apart noDot noDot).1).same_file.trans found
      have streamX := (rebuilt.around.streams table.file old).trans stream
      have cursorX : ∀ text, x.printed text =
          (x.cursor table.file (tablePath query.tableName) position).printed text := fun text =>
        congrArg (World.printed · text) (setStream_self streamX).symm
      have silent : x = (x.cursor table.file (tablePath query.tableName) position).printed [] := by
        rw [← cursorX, printed_nil]
      rcases result with status | index
      · dsimp only
        split
        · rename_i twice
          refine wp_print kept ⟨kept, x, position, _, cursorX _, rebuilt, fun distinct => ?_⟩
          obtain ⟨rows, shows, repeated⟩ := outcome twice
          rw [shows.rows found accepted] at repeated
          exact repeated distinct
        · exact ⟨kept, x, position, [], silent, rebuilt, rfl⟩
      · dsimp only
        cases indexLookup index key with
        | error status => exact ⟨kept, x, position, [], silent, rebuilt, rfl⟩
        | ok offset =>
          dsimp only
          rw [show x = x.cursor table.file (tablePath query.tableName) position from
            (setStream_self streamX).symm]
          refine wp_seq (indexValidateLookup_spec foundX table key offset)
            (fun v still => kept.congr still) ?_
          rintro (status | row) _ _ ⟨⟨p, rfl⟩, believed, _⟩
          · exact ⟨kept, x, p, [], (printed_nil _).symm, rebuilt, rfl⟩
          · obtain ⟨r, there⟩ := believed row rfl
            refine wp_print kept (wp_print kept ⟨kept, x, p, _, printed_printed .., rebuilt, ?_⟩)
            exact ⟨key, row, r, restricted.1, restricted.2, denotes, there, rfl⟩

/-- From the open table on: the selected rows are printed, if the ids are distinct. -/
theorem selectFrom_spec (valid : storageValidTableName query.tableName = true)
    (reading : Reading w table query.tableName file)
    (possible : faults.calls = true ∨ Spare (indexPath query.tableName) w) :
    wp (Steps faults) (IndexKept query.tableName (Rebuilt faults query.tableName w) w)
      (selectFrom table query)
      (fun status v => ∃ x p text,
        v = (x.cursor table.file (tablePath query.tableName) p).printed text ∧
        IndexRebuilt faults query.tableName w x ∧ (faults.calls = true ∨
          (CountsRows query file.bytes table.rowCount.toNat →
            ((tableRows file.bytes table.rowCount.toNat).map Row.id).Nodup →
            status = .ok ∧ text = selectionText query (tableRows file.bytes table.rowCount.toNat))))
              w := by
  unfold selectFrom
  refine wp_seq (selectWithIndex_spec valid reading possible) (fun _ kept => kept) ?_
  rintro result _ kept ⟨x, p, text, rfl, rebuilt, printed⟩
  cases result with
  | error => exact ⟨kept, x, p, text, rfl, rebuilt, .inr fun _ distinct => absurd distinct printed⟩
  | rowPrinted =>
    obtain ⟨key, row, r, restricted, byId, denotes, there, rfl⟩ := printed
    refine wp_print kept ⟨kept, x, p, _, printed_printed .., rebuilt,
      .inr fun _ distinct => ⟨rfl, ?_⟩⟩
    have only := selectedRows_unique restricted byId denotes distinct there.among there.same_id
    have one : rowsPrintedText 1 = countText 1 := rowsPrintedText_ofNat (by decide)
    rw [selectionText, only, one]
    simp [linesText]
  | notUsed =>
    obtain rfl : text = [] := printed
    rw [printed_nil] at kept ⊢
    have noDot := (storageValidTableName_parts valid).noDot
    have foundX : x.file (tablePath query.tableName) = some file :=
      (rebuilt.around.frame _ (indexPath_apart noDot noDot).1).same_file.trans reading.found
    refine wp_mono (selectScanned_spec foundX reading.whole) (fun v still => kept.congr still) ?_
    rintro status v _ ⟨q, text, rfl, outcome⟩
    exact ⟨x, q, text, rfl, rebuilt, outcome.symm.imp And.right fun printed few _ =>
      ⟨printed.1, printed.2 few⟩⟩

/-! ## The statement -/

/-- The message for a table that does not exist. -/
def absentText (tableName : Bytes) : Bytes :=
  str "Error: Table '" ++ tableName ++ str "' does not exist." ++ newline

/-- A table that opens has no more rows than an `int` counts. -/
def FewRows (tableName : Bytes) (w : World) : Prop :=
  ∀ file count, w.file (tablePath tableName) = some file → acceptedCount file.bytes = .ok count →
    count.toNat ≤ INT_MAX

/-- What a SELECT comes to on a table with distinct ids, or on none. -/
structure Selected (faults : Faults) (query : SelectQuery) (w : World) (status : ExecStatus)
    (text : Bytes) : Prop where
  absent : w.file (tablePath query.tableName) = none →
    status = .tableNotFound ∧ text = absentText query.tableName
  shown : ∀ rows, Openable query.tableName w → ShowsRows faults query.tableName w rows →
    (rows.map Row.id).Nodup →
    status = .ok ∧ text = selectionText query rows

/-- A SELECT leaves every table and journal alone. -/
theorem executeSelect_spec (valid : storageValidTableName query.tableName = true)
    (possible : faults.calls = true ∨ Spare (indexPath query.tableName) w) :
    wp (Steps faults) (IndexKept query.tableName (Rebuilt faults query.tableName w) w)
      (executeSelect query)
      (fun status v => ∃ x text, v = x.printed text ∧ IndexRebuilt faults query.tableName w x ∧
        (faults.calls = true ∨
          (FewRows query.tableName w → Selected faults query w status text))) w := by
  unfold executeSelect
  refine wp_seq (storageOpenTableReadonly_spec valid) (fun _ still => .still still) ?_
  intro result u _ opened
  have quiet := opened.quiet
  cases result with
  | error status =>
    have here : IndexKept query.tableName (Rebuilt faults query.tableName w) w u :=
      .still quiet.entries
    -- the message tells why the table could not be opened
    have refused : ∀ status text, (faults.calls = true ∨ Selected faults query w status text) →
        wp (Steps faults) (IndexKept query.tableName (Rebuilt faults query.tableName w) w)
          (print text >>= fun _ => Pure.pure status) (fun status v => ∃ x text, v = x.printed text ∧
            IndexRebuilt faults query.tableName w x ∧
            (faults.calls = true ∨
              (FewRows query.tableName w → Selected faults query w status text))) u :=
      fun status text ends =>
        wp_print here ⟨here, u, text, rfl, .quiet quiet, ends.imp_right fun ends _ => ends⟩
    have other : status ≠ .notFound → ∀ message text, faults.calls = true ∨
        Selected faults query w message text := by
      intro known message text
      rcases opened.error_ends with calls | ⟨same, _⟩ | ⟨_, present, closed⟩
      · exact .inl calls
      · exact absurd same known
      · refine .inr ⟨fun missing => ?_, fun _ openable => absurd openable closed⟩
        rw [missing] at present
        cases present
    cases status with
    | notFound =>
      refine refused _ _ ?_
      rcases opened.error_ends with calls | ⟨_, missing⟩ | ⟨known, _⟩
      · exact .inl calls
      · refine .inr ⟨fun _ => ⟨rfl, rfl⟩, fun _ openable => ?_⟩
        obtain ⟨_, _, found, _⟩ := openable.accepted
        rw [missing] at found
        cases found
      · exact absurd rfl known
    | _ => exact refused _ _ (other nofun _ _)
  | ok table =>
    obtain @⟨rowCount, p, file, found, accepted, settled⟩ := opened
    generalize named :
      { w with next := w.next + 1 }.cursor w.next (tablePath query.tableName) p = u at quiet
    have reading :
        Reading u { name := query.tableName, file := w.next, rowCount, writable := false }
        query.tableName file :=
      ⟨named ▸ found, accepted, named ▸ Nat.lt_succ_self _, p, named ▸ streams_cursor ..⟩
    have spare := possible.imp id fun spare => spare.congr quiet.entries
    have first : AroundIndex query.tableName (Rebuilt faults query.tableName w) w u := .quiet quiet
    have counted : FewRows query.tableName w → CountsRows query file.bytes rowCount.toNat := by
      intro few
      have every := few file rowCount found accepted
      have some_rows :=
        List.length_filter_le (rowMatchesWhere · query) (tableRows file.bytes rowCount.toNat)
      rw [length_tableRows] at some_rows
      exact Nat.le_trans some_rows every
    refine wp_seq (selectFrom_spec valid reading spare) (fun v kept => kept.after quiet.entries) ?_
    rintro status _ kept ⟨x, q, text, rfl, rebuilt, printed⟩
    have around := first.trans (rebuilt.around.mono (rebuilt_congr quiet.entries))
    refine wp_closeIdle (streams_cursor ..) (kept.after quiet.entries) ?_
    have closed :
        ((x.cursor w.next (tablePath query.tableName) q).printed text).setStream w.next none =
        (x.setStream w.next none).printed text := by
      rw [setStream_printed, World.cursor, setStream_setStream]
    rw [closed]
    refine ⟨(kept.after quiet.entries).congr rfl, x.setStream w.next none, text, rfl,
      ⟨around.setStream (Nat.le_refl _) none, ?_⟩, ?_⟩
    · exact rebuilt.tidy.imp_right fun tidy path off gone =>
        tidy path off ((file_congr quiet.entries path).trans gone)
    · refine printed.imp_right fun printed few =>
        ⟨fun absent => ?_, fun rows _ shows distinct => ?_⟩
      · rw [found] at absent
        cases absent
      · rw [shows.rows found accepted] at distinct ⊢
        exact printed (counted few) distinct

end SqlEngine
