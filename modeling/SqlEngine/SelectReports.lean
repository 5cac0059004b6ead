import SqlEngine.SelectProofs

/-! What the success of a SELECT tells, whichever calls fail: a SELECT that returns `EXEC_OK`
has printed exactly the selected rows of the table file that it opened. -/
namespace SqlEngine

open Library Program World Posix

variable {faults : Faults} {w v : World} {query : SelectQuery} {table : Table} {file : File}

/-- The answer of a SELECT to some rows is right, if they are not too many and their ids are
distinct. -/
def AnswersRows (query : SelectQuery) (bytes : Bytes) (count : Nat) (text : Bytes) : Prop :=
  CountsRows query bytes count → ((tableRows bytes count).map Row.id).Nodup →
    text = selectionText query (tableRows bytes count)

private theorem selectFrom_tells (valid : storageValidTableName query.tableName = true)
    (reading : Reading w table query.tableName file) (failing : faults.calls = true) :
    wp (Steps faults) (fun _ => True) (selectFrom table query)
      (fun status v => ∃ (x : World) (p : Nat) (text : Bytes),
      v = (x.cursor table.file (tablePath query.tableName) p).printed text ∧ x.output = w.output ∧
        (status = .ok → AnswersRows query file.bytes table.rowCount.toNat text)) w := by
  unfold selectFrom
  refine wp_seq (selectWithIndex_spec valid reading (.inl failing)) (fun _ _ => trivial) ?_
  rintro result _ _ ⟨x, p, text, rfl, rebuilt, printed⟩
  have silent := rebuilt.around.output
  cases result with
  | error => exact ⟨trivial, x, p, text, rfl, silent, nofun⟩
  | rowPrinted =>
    obtain ⟨key, row, r, restricted, byId, denotes, there, rfl⟩ := printed
    refine wp_print trivial ⟨trivial, x, p, _, printed_printed .., silent, fun _ _ distinct => ?_⟩
    have only := selectedRows_unique restricted byId denotes distinct there.among there.same_id
    have one : rowsPrintedText 1 = countText 1 := rowsPrintedText_ofNat (by decide)
    rw [selectionText, only, one]
    simp [linesText]
  | notUsed =>
    obtain rfl : text = [] := printed
    rw [printed_nil]
    have noDot := (storageValidTableName_parts valid).noDot
    have foundX : x.file (tablePath query.tableName) = some file :=
      (rebuilt.around.frame _ (indexPath_apart noDot noDot).1).same_file.trans reading.found
    refine wp_mono (selectScanned_spec foundX reading.whole) (fun _ _ => trivial) ?_
    rintro status v _ ⟨q, text, rfl, outcome⟩
    refine ⟨x, q, text, rfl, silent, fun done few _ => ?_⟩
    rcases outcome with ⟨_, exactly⟩ | ⟨failed, _⟩
    · exact exactly few
    · exact absurd done failed

/-- What the success of a SELECT tells. -/
def SelectTold (faults : Faults) (query : SelectQuery) (w v : World) : Prop :=
  ∃ file count text, w.file (tablePath query.tableName) = some file ∧
    acceptedCount file.bytes = .ok count ∧
    (faults.access = true ∨ w.file (journalPath query.tableName) = none) ∧
      v.output = w.output ++ text ∧
    AnswersRows query file.bytes count.toNat text

/-- A SELECT that succeeds has printed the selected rows of its table. -/
theorem executeSelect_tells (valid : storageValidTableName query.tableName = true)
    (failing : faults.calls = true) :
    wp (Steps faults) (fun _ => True) (executeSelect query)
      (fun status v => status = .ok → SelectTold faults query w v) w := by
  unfold executeSelect
  refine wp_seq (storageOpenTableReadonly_spec valid) (fun _ _ => trivial) ?_
  intro result u _ opened
  have quiet := opened.quiet
  cases result with
  | error status =>
    have refused : ∀ (status : ExecStatus) text, status ≠ .ok → wp (Steps faults) (fun _ => True)
        (Posix.print text >>= fun _ => Pure.pure status)
          (fun status v => status = .ok → SelectTold faults query w v) u :=
      fun status text failed => wp_print trivial ⟨trivial, fun done => absurd done failed⟩
    cases status <;> exact refused _ _ nofun
  | ok table =>
    obtain @⟨rowCount, p, file, found, accepted, settled⟩ := opened
    generalize named :
      { w with next := w.next + 1 }.cursor w.next (tablePath query.tableName) p = u at quiet
    have reading :
        Reading u { name := query.tableName, file := w.next, rowCount, writable := false }
        query.tableName file :=
      ⟨named ▸ found, accepted, named ▸ Nat.lt_succ_self _, p, named ▸ streams_cursor ..⟩
    refine wp_seq (selectFrom_tells valid reading failing) (fun _ _ => trivial) ?_
    rintro status _ _ ⟨x, q, text, rfl, silent, told⟩
    refine wp_closeIdle (streams_cursor ..) trivial ⟨trivial, fun done => ?_⟩
    exact ⟨file, rowCount, text, found, accepted, settled,
      congrArg (· ++ text) (silent.trans quiet.output), told done⟩

end SqlEngine
