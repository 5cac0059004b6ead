import SqlEngine.Availability
import SqlEngine.Database
import SqlEngine.InsertReports
import SqlEngine.SelectReports
import SqlEngine.UniqueIds

/-! What a user may rely on: over whole runs, with failing calls and crashes at any point, a
row that was reported as stored is in the table whenever it opens, no row is there that no
INSERT was given, and a table that was reported as made opens again. -/
namespace SqlEngine

open Library Program World Posix

/-! ## What was reported -/

/-- What is known outside of a table: whether it was reported as made, the rows that INSERTs
were given, and those that were reported as stored, in order. -/
structure Ledger where
  made : Bool
  given : List Row
  stored : List Row

/-- The table that a statement makes. -/
def Operation.creates : Operation → Bytes → Bool
  | .create other, tableName => other = tableName
  | _, _ => false

/-- The row that a statement is to add to a table. -/
def Operation.rowFor : Operation → Bytes → Option Row
  | .execute (.insert query), tableName => if query.tableName = tableName then
      newRow query.id query.name else none
  | _, _ => none

/-- The statement is reported as done. -/
def Outcome.acknowledges : Outcome → Bool
  | .created status => status = .ok
  | .rebuilt status => status = .ok
  | .executed status => status.stored

/-- The ledger of a table behind an operation. -/
def Ledger.after (ledger : Ledger) (operation : Operation) (tableName : Bytes)
    (acknowledged : Bool) : Ledger :=
  match operation.rowFor tableName with
  | some row =>
    { made := ledger.made || acknowledged
      given := ledger.given ++ [row]
      stored := if acknowledged then ledger.stored ++ [row] else ledger.stored }
  | none => { ledger with made := ledger.made || (acknowledged && operation.creates tableName) }

/-- What one process after the other can reach from an empty directory, with failing calls,
with a crash at any point of an operation, and with other index files between operations. -/
inductive LedgerRun (faults : Faults) : World → (Bytes → Ledger) → Prop where
  | empty {w : World} (empty : ∀ path, w.entries path = { now := none, before := [] }) :
      LedgerRun faults w fun _ => { made := false, given := [], stored := [] }
  | operation {w v : World} {ledgers : Bytes → Ledger} {operation : Operation} {outcome : Outcome}
      (run : LedgerRun faults w ledgers) (parsed : operation.Parsed)
      (ran : Returns (Steps faults) operation.run w outcome v) :
      LedgerRun faults v fun tableName =>
        (ledgers tableName).after operation tableName outcome.acknowledges
  | crashed {w u v : World} {ledgers : Bytes → Ledger} {operation : Operation}
      (run : LedgerRun faults w ledgers)
      (parsed : operation.Parsed) (stopped : Stops (Steps faults) operation.run w u)
        (crash : Crash u v) :
      LedgerRun faults v fun tableName => (ledgers tableName).after operation tableName false
  | replaced {w v : World} {ledgers : Bytes → Ledger} (run : LedgerRun faults w ledgers)
      (others : ∀ path, ¬ str ".idx" <:+ path → v.entries path = w.entries path) :
        LedgerRun faults v ledgers

/-! ## What holds of it -/

/-- Crashes, and rows with distinct ids. -/
def ledgerRegime : Regime :=
  { crashes := true, overlook := false, tail := 0, fine := fun rows => (rows.map Row.id).Nodup }

/-- A table and its ledger: its rows are among those that were given, and those that were
reported as stored are behind every journal. -/
structure Accounts (tableName : Bytes) (ledger : Ledger) (rows : List Row) (kept : Nat)
    (w : World) : Prop where
  known : Known ledgerRegime tableName (ledger.made = true) rows kept w
  given : rows.Sublist ledger.given
  stored : ledger.stored.Sublist (rows.take kept)

/-- Every table and its ledger. -/
def AllAccounted (ledgers : Bytes → Ledger) (w : World) : Prop :=
  ∀ tableName, storageValidTableName tableName = true →
    ∃ rows kept, Accounts tableName (ledgers tableName) rows kept w

variable {faults : Faults} {tableName other : Bytes} {ledger : Ledger} {ledgers : Bytes → Ledger}
    {rows after : List Row}
  {row : Row} {kept : Nat} {w u v : World} {table : Table} {operation : Operation}
  {acknowledged : Bool} {query : InsertQuery}

private theorem fine_front (rows : List Row) (n : Nat) (fine : ledgerRegime.fine rows) :
    ledgerRegime.fine (rows.take n) :=
  ((List.take_sublist n rows).map _).nodup fine

/-- A crash keeps the rows behind every journal. -/
theorem Accounts.crashed (accounts : Accounts tableName ledger rows kept w) (crash : Crash w v) :
    ∃ after, Accounts tableName ledger after kept v := by
  obtain ⟨n, behind, few, inv⟩ := accounts.known.inv.crashed rfl fine_front crash
  refine ⟨rows.take n, ⟨inv, fun made => ?_⟩, (List.take_sublist n rows).trans accounts.given, ?_⟩
  · exact (accounts.known.standing made).crashed crash (List.length_take_le' n rows)
  · rw [List.take_take, Nat.min_eq_left behind]
    exact accounts.stored

theorem Accounts.of_kept (accounts : Accounts tableName ledger rows kept w)
    (sameTable : Kept (w.entries (tablePath tableName)) (v.entries (tablePath tableName)))
    (sameJournal : Kept (w.entries (journalPath tableName)) (v.entries (journalPath tableName))) :
    Accounts tableName ledger rows kept v :=
  ⟨accounts.known.of_kept sameTable sameJournal, accounts.given, accounts.stored⟩

private theorem Accounts.aside (valid : storageValidTableName tableName = true)
    (valid' : storageValidTableName other = true) (ne : other ≠ tableName)
    (accounts : Accounts other ledger rows kept w) (frame : StatementKept tableName w v) :
    Accounts other ledger rows kept v := by
  have noDot := (storageValidTableName_parts valid).noDot
  have noDot' := (storageValidTableName_parts valid').noDot
  obtain ⟨offTable, offJournal, _⟩ := indexPath_apart noDot noDot'
  have table := frame (tablePath other)
      (fun front => ne (tablePath_front noDot noDot' (.inl front)).symm) offTable
  have journal := frame (journalPath other)
    (fun front => ne (tablePath_front noDot noDot' (.inr front)).symm) offJournal
  exact accounts.of_kept table journal

private theorem Ledger.after_same (noRow : operation.rowFor tableName = none)
    (noTable : operation.creates tableName = false) :
    ledger.after operation tableName acknowledged = ledger := by
  unfold Ledger.after
  rw [noRow, noTable]
  simp

private theorem AllAccounted.step (accounted : AllAccounted ledgers w)
    (valid : storageValidTableName tableName = true)
    (frame : StatementKept tableName w v)
    (others : ∀ other, other ≠ tableName →
      operation.rowFor other = none ∧ operation.creates other = false)
    (now : ∃ rows kept, Accounts tableName
      ((ledgers tableName).after operation tableName acknowledged) rows kept v) :
    AllAccounted (fun other => (ledgers other).after operation other acknowledged) v := by
  intro other valid'
  by_cases same : other = tableName
  · exact same ▸ now
  · obtain ⟨rows, kept, accounts⟩ := accounted other valid'
    obtain ⟨noRow, noTable⟩ := others other same
    dsimp only
    rw [Ledger.after_same noRow noTable]
    exact ⟨rows, kept, accounts.aside valid valid' same frame⟩

private theorem AllAccounted.same (accounted : AllAccounted ledgers w)
    (idle : ∀ tableName, operation.rowFor tableName = none ∧ operation.creates tableName = false) :
    AllAccounted (fun tableName =>
      (ledgers tableName).after operation tableName acknowledged) w := by
  intro tableName valid
  dsimp only
  rw [Ledger.after_same (idle tableName).1 (idle tableName).2]
  exact accounted tableName valid

theorem AllAccounted.congr (accounted : AllAccounted ledgers w) (same : v.entries = w.entries) :
    AllAccounted ledgers v := by
  intro tableName valid
  obtain ⟨rows, kept, accounts⟩ := accounted tableName valid
  exact ⟨rows, kept, accounts.of_kept (Kept.of_eq (congrFun same _)) (Kept.of_eq (congrFun same _))⟩

private theorem insert_accounts {m : Nat} (accounts : Accounts query.tableName ledger rows kept w)
    (either : after = rows ∨ RowAdded query rows after) (behind : kept ≤ m)
    (told : acknowledged = true → RowAdded query rows after ∧ m = after.length)
    (known : Known ledgerRegime query.tableName
      (ledger.made = true ∨ acknowledged = true) after m v) :
    Accounts query.tableName
      (ledger.after (.execute (.insert query)) query.tableName acknowledged) after m v := by
  -- An INSERT that leaves the rows as they are, or adds its row; if it is reported as stored,
  -- it has added it behind every journal.
  have front : rows.take kept = (after.take m).take kept := by
    rw [List.take_take, Nat.min_eq_left behind]
    rcases either with rfl | ⟨row, _, _, rfl⟩
    · rfl
    · rw [List.take_append_of_le_length accounts.known.inv.acked]
  have old : ledger.stored.Sublist (after.take m) :=
    accounts.stored.trans (front ▸ List.take_sublist kept _)
  have mine : (Operation.execute (.insert query)).rowFor query.tableName =
      newRow query.id query.name := if_pos rfl
  unfold Ledger.after
  rw [mine]
  cases made : newRow query.id query.name with
  | none =>
    -- the name does not fit
    have refused : ¬ RowAdded query rows after := by
      rintro ⟨row, other, _⟩
      rw [made] at other
      cases other
    have silent : acknowledged ≠ true := fun stored => refused (told stored).1
    obtain rfl := either.resolve_right refused
    refine ⟨⟨known.inv, fun stands => known.standing (.inl ?_)⟩, accounts.given, old⟩
    simpa [Bool.eq_false_iff.mpr silent] using stands
  | some row =>
    have grown : RowAdded query rows after → after = rows ++ [row] := by
      rintro ⟨other, made', _, rfl⟩
      rw [made, Option.some.injEq] at made'
      rw [made']
    refine ⟨⟨known.inv, fun stands => known.standing (by simpa using stands)⟩, ?_, ?_⟩
    · rcases either with rfl | added
      · exact accounts.given.trans (List.sublist_append_left _ _)
      · rw [grown added]
        exact accounts.given.append (.refl _)
    · cases stored : acknowledged with
      | false => exact old
      | true =>
        obtain ⟨added, rfl⟩ := told stored
        rw [List.take_length, grown added]
        exact (accounts.stored.trans (List.take_sublist _ _)).append (.refl _)

/-! ## Runs -/

private theorem create_accounts (accounted : AllAccounted ledgers w) :
    wp (Steps .syncable) (AllAccounted fun other =>
      (ledgers other).after (.create tableName) other false)
      (storageCreateTable tableName) (fun status v =>
        AllAccounted (fun other =>
          (ledgers other).after (.create tableName) other (status = .ok)) v) w := by
  have others : ∀ other, other ≠ tableName →
      (Operation.create tableName).rowFor other = none ∧
        (Operation.create tableName).creates other = false :=
    fun other ne => ⟨rfl, decide_eq_false ne.symm⟩
  cases valid : storageValidTableName tableName with
  | false =>
    have same : ∀ acknowledged, AllAccounted
        (fun other => (ledgers other).after (.create tableName) other acknowledged) w := by
      intro acknowledged other valid'
      have ne : other ≠ tableName := by
        rintro rfl
        rw [valid] at valid'
        cases valid'
      dsimp only
      rw [Ledger.after_same (others other ne).1 (others other ne).2]
      exact accounted other valid'
    rcases create_refused valid with refused | refused
    · rw [refused]
      exact ⟨same false, same _⟩
    · rw [refused]
      exact ⟨same false, same _⟩
  | true =>
    obtain ⟨rows, kept, accounts⟩ := accounted tableName valid
    have made : ∀ acknowledged,
        (ledgers tableName).after (.create tableName) tableName acknowledged =
        { ledgers tableName with made := (ledgers tableName).made || acknowledged } := by
      intro acknowledged
      simp [Ledger.after, Operation.rowFor, Operation.creates]
    refine wp_mono (storageCreateTable_known valid accounts.known rfl) (fun v stop => ?_)
      fun status v stop ends => ?_
    · refine accounted.step valid (.of_table stop.1) others ⟨rows, kept, ?_⟩
      rw [made, Bool.or_false]
      exact ⟨stop.2, accounts.given, accounts.stored⟩
    · refine accounted.step valid (.of_table stop.1) others ⟨rows, kept, ?_⟩
      rw [made]
      refine ⟨⟨ends.1.inv, fun stands => ?_⟩, accounts.given, accounts.stored⟩
      rcases Bool.or_eq_true_iff.mp stands with old | new
      · exact ends.1.standing old
      · exact (ends.2 (of_decide_eq_true new)).2.standing trivial

private theorem AllAccounted.indexed {written : Bytes → Prop} (accounted : AllAccounted ledgers w)
    (valid : storageValidTableName tableName = true) (around : IndexKept tableName written w v) :
    AllAccounted ledgers v := by
  have noDot := (storageValidTableName_parts valid).noDot
  intro other valid'
  obtain ⟨rows, kept, accounts⟩ := accounted other valid'
  have noDot' := (storageValidTableName_parts valid').noDot
  obtain ⟨offTable, offJournal, _⟩ := indexPath_apart noDot noDot'
  exact ⟨rows, kept, accounts.of_kept (around.1 _ offTable) (around.1 _ offJournal)⟩

private theorem rebuild_accounts (accounted : AllAccounted ledgers w) :
    wp (Steps .syncable) (AllAccounted ledgers) (indexRebuild tableName)
      (fun _ v => AllAccounted ledgers v) w := by
  cases valid : storageValidTableName tableName with
  | false =>
    unfold indexRebuild
    rw [valid]
    exact ⟨accounted, accounted⟩
  | true =>
    exact wp_mono (indexRebuild_spec (.inl rfl)) (fun v around => accounted.indexed valid around)
      fun _ v around _ => accounted.indexed valid around

private theorem select_same {query : SelectQuery} (accounted : AllAccounted ledgers w) :
    AllAccounted (fun other =>
      (ledgers other).after (.execute (.select query)) other acknowledged) w :=
  accounted.same fun _ => ⟨rfl, rfl⟩

private theorem insert_step (accounted : AllAccounted ledgers w)
    (valid : storageValidTableName query.tableName = true)
    (frame : StatementKept query.tableName w v)
    (now : ∃ rows kept, Accounts query.tableName
      ((ledgers query.tableName).after
        (.execute (.insert query)) query.tableName acknowledged) rows kept v) :
    AllAccounted
    (fun other => (ledgers other).after (.execute (.insert query)) other acknowledged) v :=
  accounted.step valid frame (fun _ ne => ⟨if_neg ne.symm, rfl⟩) now

private theorem RowAdded.fine (fine : ledgerRegime.fine rows) (added : RowAdded query rows after) :
    ledgerRegime.fine after := by
  obtain ⟨row, made, absent, rfl⟩ := added
  change ((rows ++ [row]).map Row.id).Nodup
  rw [List.map_append, List.map_singleton, newRow_id made]
  exact List.nodup_append.mpr ⟨fine, List.nodup_singleton _, fun id among other new same =>
    absent (List.mem_singleton.mp new ▸ same ▸ among)⟩

private theorem execute_accounts {ast : AST} (producible : Producible ast)
    (accounted : AllAccounted ledgers w) :
    wp (Steps .syncable) (AllAccounted fun other =>
      (ledgers other).after (.execute ast) other false) (execute ast)
      (fun status v => AllAccounted
        (fun other => (ledgers other).after (.execute ast) other status.stored) v) w := by
  have valid := producible.named.valid
  -- a statement that is refused has given its row and no more
  have nothing : ∀ v, v.entries = w.entries →
      AllAccounted (fun other => (ledgers other).after (.execute ast) other false) v := by
    intro v same
    cases ast with
    | select query => exact select_same (accounted.congr same)
    | insert query =>
      obtain ⟨rows, kept, accounts⟩ := accounted query.tableName valid
      have known := accounts.known.congr same
      exact insert_step accounted valid (.of_eq same)
        ⟨rows, kept, insert_accounts accounts (.inl rfl) (Nat.le_refl _) nofun
        ⟨known.inv, fun stands => known.standing (stands.resolve_right Bool.false_ne_true)⟩⟩
  unfold execute
  cases checked : semanticValidate ast with
  | ok =>
    cases ast with
    | select query =>
      exact wp_mono (executeSelect_spec valid (.inl rfl))
        (fun v around => select_same (accounted.indexed valid around))
        fun status v around _ => select_same (accounted.indexed valid around)
    | insert query =>
      obtain ⟨rows, kept, accounts⟩ := accounted query.tableName valid
      refine wp_mono (executeInsert_reports rfl valid accounts.known
        (fun _ added => added.fine accounts.known.inv.fine)
        (fun _ => rfl) rfl) (fun v underway => ?_) fun status v _ reported => ?_
      · obtain ⟨frame, after, either, known⟩ := underway
        refine insert_step accounted valid frame
          ⟨after, kept, insert_accounts accounts either (Nat.le_refl _) nofun ?_⟩
        exact ⟨known.inv, fun stands => known.standing (stands.resolve_right Bool.false_ne_true)⟩
      · obtain ⟨frame, after, m, told, behind, all, known⟩ := reported
        exact insert_step accounted valid frame
          ⟨after, m, insert_accounts accounts told.either behind
          (fun stored => ⟨told.stored stored, all stored⟩) known⟩
  | _ => exact wp_print (nothing w rfl) ⟨nothing _ rfl, nothing _ rfl⟩

/-- An operation keeps every account, also if it is stopped before it can report. -/
theorem operation_accounts (parsed : operation.Parsed) (accounted : AllAccounted ledgers w) :
    wp (Steps .syncable) (AllAccounted fun tableName =>
      (ledgers tableName).after operation tableName false) operation.run
      (fun outcome v => AllAccounted
        (fun tableName => (ledgers tableName).after operation tableName outcome.acknowledges) v) w
          := by
  cases operation with
  | create name =>
    refine wp_seq (create_accounts accounted) (fun _ stop => stop) fun status v stop done => ?_
    exact ⟨stop, done⟩
  | rebuild name =>
    have same : ∀ acknowledged v, AllAccounted ledgers v →
        AllAccounted (fun tableName =>
          (ledgers tableName).after (.rebuild name) tableName acknowledged) v :=
      fun acknowledged v accounted => accounted.same fun _ => ⟨rfl, rfl⟩
    refine wp_seq (rebuild_accounts accounted) (fun v held => same false v held)
      fun status v held _ => ?_
    exact ⟨same false v held, same _ v held⟩
  | execute ast =>
    refine wp_seq (execute_accounts parsed accounted) (fun _ stop => stop)
      fun status v stop done => ?_
    exact ⟨stop, done⟩

/-- Between operations every table is accounted for. -/
theorem LedgerRun.accounted (run : LedgerRun .syncable w ledgers) : AllAccounted ledgers w := by
  induction run with
  | empty empty =>
    intro tableName _
    refine ⟨[], 0, ⟨tableInv_absent List.nodup_nil ?_ ?_ ?_ ?_, nofun⟩, .slnil, .slnil⟩
    · exact congrArg Entry.now (empty _)
    · exact congrArg Entry.now (empty _)
    · exact congrArg Entry.before (empty _)
    · exact congrArg Entry.before (empty _)
  | operation run parsed ran ih => exact (wp_returns (operation_accounts parsed ih) ran).2
  | crashed run parsed stopped crash ih =>
    intro tableName valid
    obtain ⟨rows, kept, accounts⟩ := wp_stops (operation_accounts parsed ih) stopped tableName valid
    obtain ⟨after, left⟩ := accounts.crashed crash
    exact ⟨after, kept, left⟩
  | replaced run others ih =>
    intro tableName valid
    obtain ⟨rows, kept, accounts⟩ := ih tableName valid
    obtain ⟨offTable, offJournal⟩ := not_index tableName
    exact ⟨rows, kept, accounts.of_kept (.of_eq (others _ offTable)) (.of_eq (others _ offJournal))⟩

/-! ## What an open table shows -/

/-- A table opens for writing, and shows some rows. -/
def OpensWith (faults : Faults) (tableName : Bytes) (w : World) (shown : List Row) : Prop :=
  ∃ table v file, Returns (Steps faults) (storageOpenTable tableName) w (.ok table) v ∧
    v.file (tablePath tableName) = some file ∧ acceptedCount file.bytes = .ok table.rowCount ∧
    shown = tableRows file.bytes table.rowCount.toNat

private theorem newRow_visible {id : Int32} {name : Bytes} (made : newRow id name = some row) :
    visibleRow row = row := by
  unfold newRow at made
  split at made
  · cases made
  · rename_i copied fits
    cases made
    unfold utilCopyChecked at fits
    split at fits
    · cases fits
    · rename_i short
      cases fits
      unfold STORAGE_NAME_SIZE at short
      refine visibleRow_eq ?_
      dsimp only [STORAGE_NAME_SIZE]
      rw [takeD_short (by omega), List.getD_append_right _ _ _ _ (by omega), List.getD_replicate]
      omega

private theorem rowFor_visible (given : operation.rowFor tableName = some row) :
    visibleRow row = row := by
  unfold Operation.rowFor at given
  split at given
  · split at given
    · exact newRow_visible given
    · cases given
  · cases given

private theorem Ledger.after_visible (visible : ∀ row ∈ ledger.given, visibleRow row = row) :
    ∀ row ∈ (ledger.after operation tableName acknowledged).given, visibleRow row = row := by
  unfold Ledger.after
  split
  · rename_i added given
    intro row among
    rcases List.mem_append.mp among with old | new
    · exact visible row old
    · rw [List.mem_singleton.mp new]
      exact rowFor_visible given
  · exact visible

private theorem LedgerRun.visible (run : LedgerRun faults w ledgers) :
    ∀ row ∈ (ledgers tableName).given, visibleRow row = row := by
  induction run with
  | empty _ => exact fun _ among => absurd among List.not_mem_nil
  | operation _ _ _ ih => exact Ledger.after_visible ih
  | crashed _ _ _ _ ih => exact Ledger.after_visible ih
  | replaced _ _ ih => exact ih

private theorem OpensWith.shows {shown : List Row} (opens : OpensWith faults tableName w shown)
    (inv : TableInv ledgerRegime tableName w rows kept)
    (visible : ∀ row ∈ rows, visibleRow row = row) :
    shown = rows := by
  obtain ⟨table, v, file, ran, found, accepted, rfl⟩ := opens
  obtain ⟨_, within, _, _, _, settled, _⟩ :=
    wp_returns (storageOpenTable_spec (storageOpenTableMode_valid ran) inv) ran
  rw [(within.inv.accepted settled found accepted).2]
  exact (List.map_congr_left visible).trans (List.map_id _)

private theorem Accounts.visible (accounts : Accounts tableName ledger rows kept w)
    (visible : ∀ row ∈ ledger.given, visibleRow row = row) : ∀ row ∈ rows, visibleRow row = row :=
  fun row among => visible row (accounts.given.subset among)

/-- A table that opens behind a run shows the rows that its file counts. -/
theorem LedgerRun.opensWith (run : LedgerRun .syncable w ledgers)
    (ran : Returns (Steps faults) (storageOpenTable tableName) w (.ok table) v) :
    ∃ shown, OpensWith faults tableName w shown := by
  have valid := storageOpenTableMode_valid ran
  obtain ⟨rows, kept, accounts⟩ := run.accounted tableName valid
  obtain ⟨_, _, _, _, _, _, _, ⟨file, found, accepted⟩, _⟩ :=
    wp_returns (storageOpenTable_spec valid accounts.known.inv) ran
  exact ⟨_, table, v, file, ran, found, accepted, rfl⟩

/-- A run with a crash in the middle of an INSERT. -/
private def performed (rule : Call → Choice) (operation : Operation) (w : World) : World :=
  replayed .syncable operation.run (chosen rule operation.run w) w

private theorem performed_returns {rule : Call → Choice} {outcome : Outcome}
    (ran : (replay .syncable operation.run (chosen rule operation.run w) w).map Prod.fst =
      some outcome) :
    Returns (Steps .syncable) operation.run w outcome (performed rule operation w) :=
  replayed_returns ran

private def makeT : Operation := .create (str "t")

private def addA (id : Int32) : InsertQuery := { tableName := str "t", id, name := str "a" }

private def rowA (id : Int32) : Row :=
  { id, name := (str "a").takeD STORAGE_NAME_SIZE 0, name_size := List.takeD_length _ _ _ }

private def allSucceed : Call → Choice
  | .mkstemp _ => { suffix := str "aaaaaa" }
  | _ => {}

private def emptyT : World := performed allSucceed makeT World.empty

private def storedT : World := performed allSucceed (.execute (.insert (addA 1))) emptyT

/-- The row is durable, and its journal is still there. -/
private def cutOffT : World :=
  let choices := chosen allSucceed (Operation.execute (.insert (addA 2))).run storedT
  revert (fun _ => 0)
    (stoppedAt .syncable (Operation.execute (.insert (addA 2))).run (choices.take 74) storedT)

private def storedLedger (tableName : Bytes) : Ledger :=
  Ledger.after (Ledger.after { made := false, given := [], stored := [] } makeT tableName true)
    (.execute (.insert (addA 1))) tableName true

private theorem storedT_run : LedgerRun .syncable storedT storedLedger := by
  have adds : (Operation.execute (.insert (addA 1))).Parsed :=
    producible_of_read ⟨str "INSERT INTO t VALUES(1,\"a\");", by decide⟩ (by decide +kernel)
  have created : Returns (Steps .syncable) makeT.run World.empty (.created .ok) emptyT :=
    performed_returns (by decide +kernel)
  have stored : Returns (Steps .syncable) (Operation.execute (.insert (addA 1))).run emptyT
      (.executed .ok) storedT :=
    performed_returns (by decide +kernel)
  exact .operation
    (.operation (.empty fun _ => rfl) (show makeT.Parsed from trivial) created) adds stored

private theorem cutOffT_run : LedgerRun .syncable cutOffT fun tableName =>
    (storedLedger tableName).after (.execute (.insert (addA 2))) tableName false := by
  have adds : (Operation.execute (.insert (addA 2))).Parsed :=
    producible_of_read ⟨str "INSERT INTO t VALUES(2,\"a\");", by decide⟩ (by decide +kernel)
  exact .crashed storedT_run adds stoppedAt_stops (crash_revert _ _)

/-- In a directory that can be synced, whatever else failed and wherever the run crashed: a
table that opens shows rows that INSERTs were given, in order and with distinct ids, and
among them every row that was reported as stored. -/
theorem stored_rows_kept {shown : List Row} (run : LedgerRun .syncable w ledgers)
    (opens : OpensWith .syncable tableName w shown) :
    shown.Sublist (ledgers tableName).given ∧ (ledgers tableName).stored.Sublist shown ∧
      (shown.map Row.id).Nodup := by
  have valid : storageValidTableName tableName = true := by
    obtain ⟨table, v, _, ran, _⟩ := opens
    exact storageOpenTableMode_valid ran
  obtain ⟨rows, kept, accounts⟩ := run.accounted tableName valid
  obtain rfl := opens.shows accounts.known.inv (accounts.visible run.visible)
  exact ⟨accounts.given, accounts.stored.trans (List.take_sublist _ _), accounts.known.inv.fine⟩

/-- The second INSERT may be undone, the first is not. -/
theorem stored_rows_kept_once : ∃ shown, OpensWith .syncable (str "t") cutOffT shown ∧
    shown.Sublist [rowA 1, rowA 2] ∧ [rowA 1].Sublist shown ∧ (shown.map Row.id).Nodup := by
  have opened : Returns (Steps .syncable) (storageOpenTable (str "t")) cutOffT
      (.ok { name := str "t", file := 13, rowCount := 1, writable := true })
      (replayed .syncable (storageOpenTable (str "t")) [] cutOffT) :=
        replayed_returns (by decide +kernel)
  obtain ⟨shown, opens⟩ := cutOffT_run.opensWith opened
  exact ⟨shown, opens, stored_rows_kept cutOffT_run opens⟩

private theorem LedgerRun.made_valid (run : LedgerRun faults w ledgers)
    (made : (ledgers tableName).made = true) :
    storageValidTableName tableName = true := by
  have step : ∀ (ledger : Ledger) (operation : Operation) acknowledged, operation.Parsed →
      (ledger.made = true → storageValidTableName tableName = true) →
      (acknowledged = true → operation.creates tableName = true →
        storageValidTableName tableName = true) →
      (ledger.after operation tableName acknowledged).made = true →
        storageValidTableName tableName = true := by
    intro ledger operation acknowledged parsed old creates made
    unfold Ledger.after at made
    split at made
    · rename_i row given
      unfold Operation.rowFor at given
      split at given
      · split at given
        · rename_i same
          exact same ▸ parsed.named.valid
        · cases given
      · cases given
    · rcases Bool.or_eq_true_iff.mp made with made | made
      · exact old made
      · obtain ⟨acknowledged, creates'⟩ := Bool.and_eq_true_iff.mp made
        exact creates acknowledged creates'
  induction run with
  | empty _ => cases made
  | @operation w v ledgers operation outcome run parsed ran ih =>
    refine step _ operation _ parsed ih (fun acknowledged creates => ?_) made
    cases operation with
    | create name =>
      obtain rfl : name = tableName := of_decide_eq_true creates
      obtain ⟨status, _, created, rest⟩ := returns_bind.mp ran
      cases rest
      obtain rfl : status = .ok := of_decide_eq_true acknowledged
      exact created_valid created
    | rebuild _ => cases creates
    | execute _ => cases creates
  | crashed run parsed stopped crash ih => exact step _ _ false parsed ih nofun made
  | replaced run others ih => exact ih made

/-- In a directory that can be synced, a table that was reported as made, or that a row was
reported as stored in, opens once no call fails any more. -/
theorem made_table_opens (run : LedgerRun .syncable w ledgers)
    (made : (ledgers tableName).made = true) :
    (∃ shown, OpensWith .none tableName w shown) ∧
      ∀ result v, Returns (Steps .none) (storageOpenTable tableName) w result v →
        ∃ table, result = .ok table := by
  have valid := run.made_valid made
  obtain ⟨rows, kept, accounts⟩ := run.accounted tableName valid
  have opens : wp (Steps .none) _ (storageOpenTable tableName) _ w :=
    storageOpenTable_known rfl valid accounts.known
  have succeeds : ∀ result v, Returns (Steps .none) (storageOpenTable tableName) w result v →
      ∃ table, result = .ok table := by
    intro result v ran
    obtain ⟨_, _, _, failed⟩ := wp_returns opens ran
    cases result with
    | ok table => exact ⟨table, rfl⟩
    | error status => cases failed made status rfl
  obtain ⟨result, v, ran⟩ := wp_progress opens
  obtain ⟨table, rfl⟩ := succeeds result v ran
  exact ⟨run.opensWith ran, succeeds⟩

/-- The table of the INSERT that was cut off opens. -/
theorem made_table_opens_once : ∃ shown, OpensWith .none (str "t") cutOffT shown :=
  (@made_table_opens (str "t") _ _ cutOffT_run (by decide +kernel)).1

/-- In a directory that can be synced, what an INSERT returns tells what has become of its
table, whatever else failed and whatever had happened before: a row that is reported as
stored is there, and a statement that is refused has changed nothing. -/
theorem insert_status_tells {shown later : List Row} {status : ExecStatus}
    (run : LedgerRun .syncable w ledgers) (parsed : Producible (.insert query))
    (before : OpensWith .syncable query.tableName w shown)
    (ran : Returns (Steps .syncable) (execute (.insert query)) w status v)
    (behind : OpensWith .syncable query.tableName v later) :
    InsertTold query shown later status := by
  have valid := parsed.named.valid
  obtain ⟨rows, kept, accounts⟩ := run.accounted query.tableName valid
  have visible := accounts.visible run.visible
  obtain rfl := before.shows accounts.known.inv visible
  have stays : ∀ x, x.entries = w.entries → TableInv ledgerRegime query.tableName x shown kept :=
    fun _ same => (accounts.known.congr same).inv
  have executed : wp (Steps .syncable) (fun _ => True) (execute (.insert query)) (fun status v =>
      ∃ after m, InsertTold query shown after status ∧
        TableInv ledgerRegime query.tableName v after m) w := by
    unfold execute
    cases checked : semanticValidate (.insert query) with
    | ok =>
      refine wp_mono (executeInsert_reports rfl valid accounts.known
        (fun _ added => added.fine accounts.known.inv.fine)
        (fun _ => rfl) rfl) (fun _ _ => trivial) fun status v _ reported => ?_
      obtain ⟨_, after, m, told, _, _, known⟩ := reported
      exact ⟨after, m, told, known.inv⟩
    | _ => exact wp_print trivial ⟨trivial, shown, kept, told_same rfl nofun, stays _ rfl⟩
  obtain ⟨_, after, m, told, inv⟩ := wp_returns executed ran
  have seen : ∀ row ∈ after, visibleRow row = row := by
    rcases told.either with rfl | ⟨added, made, _, rfl⟩
    · exact visible
    · intro row among
      rcases List.mem_append.mp among with old | new
      · exact visible row old
      · exact List.mem_singleton.mp new ▸ newRow_visible made
  obtain rfl := behind.shows inv seen
  exact told

/-- The index file cannot be put in its place. -/
private def indexStuck : Call → Choice
  | .rename _ path => if path = indexPath (str "t") then { error := some .eio } else {}
  | other => allSucceed other

private def unindexedT : World := performed indexStuck (.execute (.insert (addA 2))) storedT

/-- A row whose index entry is not stored. -/
theorem insert_status_tells_once : ∃ shown later, OpensWith .syncable (str "t") unindexedT later ∧
    InsertTold (addA 2) shown later .indexPersistFailed := by
  have statement : Producible (.insert (addA 2)) :=
    producible_of_read ⟨str "INSERT INTO t VALUES(2,\"a\");", by decide⟩ (by decide +kernel)
  have ran : Returns (Steps .syncable) (Operation.execute (.insert (addA 2))).run storedT
      (.executed .indexPersistFailed)
      unindexedT := performed_returns (by decide +kernel)
  have opened : Returns (Steps .syncable) (storageOpenTable (str "t")) storedT
      (.ok { name := str "t", file := 9, rowCount := 1, writable := true })
      (replayed .syncable (storageOpenTable (str "t")) [] storedT) :=
        replayed_returns (by decide +kernel)
  have again : Returns (Steps .syncable) (storageOpenTable (str "t")) unindexedT
      (.ok { name := str "t", file := 14, rowCount := 2, writable := true })
      (replayed .syncable (storageOpenTable (str "t")) [] unindexedT) :=
        replayed_returns (by decide +kernel)
  have run := LedgerRun.operation storedT_run
      (show (Operation.execute (.insert (addA 2))).Parsed from statement) ran
  obtain ⟨shown, before⟩ := storedT_run.opensWith opened
  obtain ⟨later, behind⟩ := run.opensWith again
  obtain ⟨_, _, executed, rest⟩ := returns_bind.mp ran
  cases rest
  exact ⟨shown, later, behind, insert_status_tells storedT_run statement before executed behind⟩

/-- Every call may fail, but for the test whether a file is there. -/
def Library.Faults.seen : Faults := { calls := true, access := false, unsupported := true }

/-- Behind a run in a directory that can be synced, and with no more given rows than an `int`
counts, whichever calls of the SELECT fail: if it returns `EXEC_OK`, it has printed the
selected rows of a table that has every row that was reported as stored, and none but rows
that INSERTs were given. -/
theorem select_success_tells (run : LedgerRun .syncable w ledgers) {query : SelectQuery}
    (parsed : Producible (.select query)) (few : (ledgers query.tableName).given.length ≤ INT_MAX)
    (ran : Returns (Steps .seen) (execute (.select query)) w .ok v) :
    ∃ shown, v.output = w.output ++ selectionText query shown ∧
      shown.Sublist (ledgers query.tableName).given ∧
      (ledgers query.tableName).stored.Sublist shown ∧ (shown.map Row.id).Nodup := by
  have valid := parsed.named.valid
  obtain ⟨rows, kept, accounts⟩ := run.accounted query.tableName valid
  have executed : wp (Steps .seen) (fun _ => True) (execute (.select query))
      (fun status v => status = .ok → SelectTold .seen query w v) w := by
    unfold execute
    cases checked : semanticValidate (.select query) with
    | ok => exact executeSelect_tells valid rfl
    | _ => exact wp_print trivial ⟨trivial, nofun⟩
  obtain ⟨file, count, text, found, accepted, settled, printed, answers⟩ :=
    (wp_returns executed ran).2 rfl
  have shown : tableRows file.bytes count.toNat = rows := by
    rw [(accounts.known.inv.accepted (settled.resolve_left Bool.false_ne_true) found accepted).2]
    exact (List.map_congr_left (accounts.visible run.visible)).trans (List.map_id _)
  unfold AnswersRows CountsRows at answers
  rw [shown] at answers
  have most : (selectedRows query rows).length ≤ INT_MAX :=
    Nat.le_trans (List.length_filter_le _ _) (Nat.le_trans accounts.given.length_le few)
  obtain rfl := answers most accounts.known.inv.fine
  exact ⟨rows, printed, accounts.given, accounts.stored.trans (List.take_sublist _ _),
    accounts.known.inv.fine⟩

private def allOfT : SelectQuery :=
  { tableName := str "t", selectAll := true, columns := [], hasWhere := false, whereColumn := [],
    whereValue := [],
    whereValueType := .number }

/-- A SELECT behind a run. -/
theorem select_success_tells_once :
    ∃ (v : World) (shown : List Row), v.output = storedT.output ++ selectionText allOfT shown ∧
    shown.Sublist [rowA 1] ∧ [rowA 1].Sublist shown ∧ (shown.map Row.id).Nodup := by
  have statement : Producible (.select allOfT) :=
    producible_of_read ⟨str "SELECT * FROM t;", by decide⟩ (by decide +kernel)
  have few : (storedLedger (str "t")).given.length ≤ INT_MAX := by decide +kernel
  have ran : Returns (Steps .seen) (execute (.select allOfT)) storedT .ok
      (replayed .seen (execute (.select allOfT)) [] storedT) :=
    replayed_returns (by decide +kernel)
  obtain ⟨shown, told⟩ := select_success_tells storedT_run statement few ran
  exact ⟨_, shown, told⟩

end SqlEngine
