import SqlEngine.InsertProofs
import SqlEngine.RoundTrip

/-! The operations of the engine on a directory with any number of tables: each keeps what
is known of every table and of its index file, wherever it is stopped. -/
namespace SqlEngine

open Library Program World Posix

/-- An operation of the engine. -/
inductive Operation where
  | create (tableName : Bytes)
  | rebuild (tableName : Bytes)
  | execute (ast : AST)

/-- What an operation returns. -/
inductive Outcome where
  | created (status : TableCreateStatus)
  | rebuilt (status : IndexStatus)
  | executed (status : ExecStatus)
  deriving DecidableEq

def Operation.run : Operation → Prog Outcome
  | .create tableName => do return .created (← storageCreateTable tableName)
  | .rebuild tableName => do return .rebuilt (← indexRebuild tableName)
  | .execute ast => do return .executed (← SqlEngine.execute ast)

/-- Statements come from the parser. -/
def Operation.Parsed : Operation → Prop
  | .execute ast => Producible ast
  | _ => True

variable {faults : Faults} {regime : Regime} {sound : Bytes → List Row → Bytes → Prop}
    {tableName other : Bytes}
  {rows : List Row} {kept : Nat} {w v : World} {operation : Operation}

/-- An invalid name is refused before the first call. -/
theorem create_refused (invalid : storageValidTableName tableName = false) :
    storageCreateTable tableName = (return .nameTooLong) ∨
      storageCreateTable tableName = (return .invalidName) := by
  unfold storageCreateTable
  split
  · exact .inl rfl
  · rw [invalid]
    exact .inr rfl

/-! ## Every table -/

/-- Every table holds some rows, and its index file says what it may. -/
def AllTracked (regime : Regime) (sound : Bytes → List Row → Bytes → Prop) (w : World) : Prop :=
  ∀ tableName, storageValidTableName tableName = true →
    ∃ rows kept, Tracked regime (sound tableName) tableName w rows kept

private theorem Tracked.aside {about : List Row → Bytes → Prop}
    (valid : storageValidTableName tableName = true) (valid' : storageValidTableName other = true)
    (ne : other ≠ tableName) (tracked : Tracked regime about other w rows kept)
    (frame : StatementKept tableName w v) :
    Tracked regime about other v rows kept := by
  have noDot := (storageValidTableName_parts valid).noDot
  have noDot' := (storageValidTableName_parts valid').noDot
  obtain ⟨offTable, offJournal, _⟩ := indexPath_apart noDot noDot'
  have table := frame (tablePath other)
      (fun front => ne (tablePath_front noDot noDot' (.inl front)).symm) offTable
  have journal := frame (journalPath other)
    (fun front => ne (tablePath_front noDot noDot' (.inr front)).symm) offJournal
  have index := frame (indexPath other) (indexPath_apart noDot noDot').2.2 fun front =>
    ne (indexPath_front noDot noDot' front).symm
  exact ⟨tracked.inv.of_kept table journal, fun file there =>
    tracked.index file (index.same_file.symm.trans there)⟩

/-- What is known of the table of a statement, and nothing else is changed. -/
theorem AllTracked.step (tracked : AllTracked regime sound w)
    (valid : storageValidTableName tableName = true) (frame : StatementKept tableName w v)
    (now : ∃ rows kept, Tracked regime (sound tableName) tableName v rows kept) :
    AllTracked regime sound v := by
  intro other valid'
  by_cases same : other = tableName
  · exact same ▸ now
  · obtain ⟨rows, kept, before⟩ := tracked other valid'
    exact ⟨rows, kept, before.aside valid valid' same frame⟩

theorem AllTracked.congr (tracked : AllTracked regime sound w) (same : v.entries = w.entries) :
    AllTracked regime sound v := by
  intro tableName valid
  obtain ⟨rows, kept, before⟩ := tracked tableName valid
  exact ⟨rows, kept, before.congr same⟩

/-- What an operation may do to the rows and to the index file of a table. -/
structure Regulates (faults : Faults) (regime : Regime)
    (sound : Bytes → List Row → Bytes → Prop) : Prop where
  tracks : ∀ tableName, Tracks faults tableName (sound tableName)
  fine : ∀ rows row, regime.fine rows → row.id ∉ rows.map Row.id → regime.fine (rows ++ [row])
  durable : regime.crashes = true → faults.unsupported = false

private theorem rebuilt_keeps (regulates : Regulates faults regime sound)
    (tracked : AllTracked regime sound w) (valid : storageValidTableName tableName = true)
    (around : IndexKept tableName (Rebuilt faults tableName w) w v) :
    AllTracked regime sound v := by
  obtain ⟨rows, kept, before⟩ := tracked tableName valid
  have noDot := (storageValidTableName_parts valid).noDot
  exact tracked.step valid (.of_index around.1)
    ⟨rows, kept, before.indexed noDot around (before.rebuilt (regulates.tracks tableName))⟩

private theorem create_keeps (tracked : AllTracked regime sound w) :
    wp (Steps faults) (AllTracked regime sound) (storageCreateTable tableName)
      (fun _ v => AllTracked regime sound v) w := by
  cases valid : storageValidTableName tableName with
  | false =>
    rcases create_refused valid with refused | refused
    · rw [refused]
      exact ⟨tracked, tracked⟩
    · rw [refused]
      exact ⟨tracked, tracked⟩
  | true =>
    obtain ⟨rows, kept, before⟩ := tracked tableName valid
    have noDot := (storageValidTableName_parts valid).noDot
    have after : ∀ v, TableKept regime tableName rows kept w v → AllTracked regime sound v :=
      fun v held =>
      tracked.step valid (.of_table held.1)
        ⟨rows, kept, before.changed noDot held.1 held.2 fun _ holds => holds⟩
    exact wp_mono (storageCreateTable_spec valid before.inv) after fun _ v held _ => after v held

private theorem rebuild_keeps (regulates : Regulates faults regime sound)
    (failing : faults.calls = true) (tracked : AllTracked regime sound w) :
    wp (Steps faults) (AllTracked regime sound) (indexRebuild tableName)
      (fun _ v => AllTracked regime sound v) w := by
  cases valid : storageValidTableName tableName with
  | false =>
    unfold indexRebuild
    rw [valid]
    exact ⟨tracked, tracked⟩
  | true =>
    exact wp_mono (indexRebuild_spec (.inl failing))
      (fun v around => rebuilt_keeps regulates tracked valid around)
      fun _ v around _ => rebuilt_keeps regulates tracked valid around

private theorem execute_keeps (regulates : Regulates faults regime sound)
    (failing : faults.calls = true) {ast : AST}
    (producible : Producible ast) (tracked : AllTracked regime sound w) :
    wp (Steps faults) (AllTracked regime sound) (execute ast)
      (fun _ v => AllTracked regime sound v) w := by
  have valid := producible.named.valid
  unfold execute
  cases checked : semanticValidate ast with
  | ok =>
    cases ast with
    | select query =>
      exact wp_mono (executeSelect_spec valid (.inl failing))
        (fun v around => rebuilt_keeps regulates tracked valid around)
        fun _ v around _ => rebuilt_keeps regulates tracked valid around
    | insert query =>
      obtain ⟨rows, kept, before⟩ := tracked query.tableName valid
      have fine : ∀ after, RowAdded query rows after → regime.fine after := by
        rintro _ ⟨row, made, absent, rfl⟩
        exact regulates.fine rows row before.inv.fine (newRow_id made ▸ absent)
      have after : ∀ v, InsertStop regime (sound query.tableName) query rows w v →
          AllTracked regime sound v := by
        rintro v ⟨frame, later, kept, _, now⟩
        exact tracked.step valid frame ⟨later, kept, now⟩
      exact wp_mono (executeInsert_spec valid (regulates.tracks _) before fine regulates.durable
        (.inl failing)) after
        fun _ v stop _ => after v stop
  | _ => exact wp_print tracked ⟨tracked.congr rfl, tracked.congr rfl⟩

/-- An operation keeps what is known of every table, wherever it is stopped. -/
theorem operation_keeps (regulates : Regulates faults regime sound) (failing : faults.calls = true)
    (parsed : operation.Parsed) (tracked : AllTracked regime sound w) :
    wp (Steps faults) (AllTracked regime sound) operation.run
      (fun _ v => AllTracked regime sound v) w := by
  cases operation with
  | create tableName => exact wp_seq (create_keeps tracked) (fun _ held => held) fun _ _ held _ =>
    ⟨held, held⟩
  | rebuild tableName =>
    exact wp_seq (rebuild_keeps regulates failing tracked) (fun _ held => held) fun _ _ held _ =>
      ⟨held, held⟩
  | execute ast =>
    exact wp_seq (execute_keeps regulates failing parsed tracked)
      (fun _ held => held) fun _ _ held _ => ⟨held, held⟩

end SqlEngine
