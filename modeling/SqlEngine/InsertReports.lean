import SqlEngine.Availability
import SqlEngine.InsertProofs

/-! What the status of an INSERT tells: a row that is reported as stored is kept from then on,
whatever happens later, and one that is refused was not added. -/
namespace SqlEngine

open Library Program World Posix

/-- The statuses of an INSERT whose row is in the table. -/
def ExecStatus.stored : ExecStatus → Bool
  | .ok | .indexError | .indexPersistFailed => true
  | _ => false

/-- What the status of an INSERT tells about the rows. -/
structure InsertTold (query : InsertQuery) (rows after : List Row)
    (status : ExecStatus) : Prop where
  either : after = rows ∨ RowAdded query rows after
  stored : status.stored = true → RowAdded query rows after
  refused : status.stored = false → status ≠ .ioError → after = rows
  taken : status = .duplicateId → query.id ∈ rows.map Row.id

variable {faults : Faults} {regime : Regime} {query : InsertQuery} {tableName : Bytes}
    {rows after : List Row} {row : Row}
  {kept : Nat} {w u v x : World} {table : Table} {file : File} {loaded : Option Index} {up : Prop}

theorem Known.of_kept (known : Known regime tableName up rows kept w)
    (sameTable : Kept (w.entries (tablePath tableName)) (v.entries (tablePath tableName)))
    (sameJournal : Kept (w.entries (journalPath tableName)) (v.entries (journalPath tableName))) :
    Known regime tableName up rows kept v :=
  ⟨known.inv.of_kept sameTable sameJournal, fun stands =>
    (known.standing stands).of_kept sameTable sameJournal⟩

theorem Known.congr (known : Known regime tableName up rows kept w) (same : v.entries = w.entries) :
    Known regime tableName up rows kept v :=
  known.of_kept (Kept.of_eq (congrFun same _)) (Kept.of_eq (congrFun same _))

/-- Fewer rows may be asked to be behind every journal. -/
theorem TableInv.behind {m : Nat} (inv : TableInv regime tableName w rows kept) (fewer : m ≤ kept) :
    TableInv regime tableName w rows m where
  small := inv.small
  fine := inv.fine
  acked := Nat.le_trans fewer inv.acked
  phase := inv.phase
  missing := inv.missing
  earlier := inv.earlier
  journals journal matters := by
    obtain ⟨whole, count, few, next, behind, rest⟩ := inv.journals journal matters
    exact ⟨whole, count, few, next, Nat.le_trans fewer behind, rest⟩
  present := inv.present
  counts := inv.counts

/-- The index file may be written. -/
theorem Known.indexed {written : Bytes → Prop} (known : Known regime tableName up rows kept w)
    (noDot : 46 ∉ tableName) (around : IndexKept tableName written w v) :
    Known regime tableName up rows kept v :=
  known.of_kept (around.1 _ (indexPath_apart noDot noDot).1)
    (around.1 _ (indexPath_apart noDot noDot).2.1)

/-- What holds wherever an INSERT is stopped: the rows are the same, or one was added. -/
def InsertUnderway (regime : Regime) (up : Prop) (query : InsertQuery) (rows : List Row)
    (kept : Nat) (w v : World) : Prop :=
  StatementKept query.tableName w v ∧ ∃ after, (after = rows ∨ RowAdded query rows after) ∧
    Known regime query.tableName up after kept v

/-- What an INSERT comes to, whatever fails. A row that is reported as stored is behind
every journal that may come back. -/
def InsertReported (regime : Regime) (up : Prop) (query : InsertQuery) (rows : List Row)
    (kept : Nat) (w : World)
    (status : ExecStatus) (v : World) : Prop :=
  StatementKept query.tableName w v ∧ ∃ after m, InsertTold query rows after status ∧ kept ≤ m ∧
    (status.stored = true → m = after.length) ∧
    Known regime query.tableName (up ∨ status.stored = true) after m v

/-- The same while the table is open. -/
def InsertReportedOpen (regime : Regime) (up : Prop) (query : InsertQuery) (rows : List Row)
    (kept h : Nat) (w : World)
    (status : ExecStatus) (v : World) : Prop :=
  StatementKept query.tableName w v ∧ ∃ after m, InsertTold query rows after status ∧ kept ≤ m ∧
    (status.stored = true → m = after.length) ∧
    KnownOpen regime query.tableName (up ∨ status.stored = true) after m h v

theorem InsertUnderway.congr (underway : InsertUnderway regime up query rows kept w u)
    (same : v.entries = u.entries) :
    InsertUnderway regime up query rows kept w v := by
  obtain ⟨frame, after, which, known⟩ := underway
  exact ⟨frame.trans (.of_eq same), after, which, known.congr same⟩

private theorem maintainIndex_stored (index : Option Index) (tableName : Bytes) (id : Int32)
    (offset : UInt64) :
    Yields (fun status : ExecStatus => status.stored = true)
      (maintainIndex index tableName id offset) := by
  -- Whatever fails, the upkeep of the index reports a row that was stored.
  have ends : ∀ text (status : ExecStatus), status.stored = true →
      Yields (fun status : ExecStatus => status.stored = true)
        (print text >>= fun _ => Pure.pure status) :=
    fun text status stored => yields_bind fun _ => stored
  have persists : ∀ after : Index, Yields (fun status : ExecStatus => status.stored = true)
      (show Prog ExecStatus from do
        if (← indexPersist after) ≠ .ok then
          print (insertWarningText id (str "persistence failed"))
          return .indexPersistFailed
        print (str "Row inserted successfully (id=" ++ decimal id ++ str ")." ++ newline)
        return .ok) := by
    intro after
    refine yields_bind fun status => ?_
    split <;> exact ends _ _ rfl
  have upkeep : ∀ base : Index, Yields (fun status : ExecStatus => status.stored = true)
      (maintainIndex (some base) tableName id offset) := by
    intro base
    unfold maintainIndex
    dsimp only [Program.pure_eq, Program.pure_bind]
    refine yields_bind fun ⟨status, after⟩ => ?_
    dsimp only
    split
    · refine yields_bind fun ⟨status, after⟩ => ?_
      dsimp only
      split
      · exact ends _ _ rfl
      · exact persists after
    · split
      · exact ends _ _ rfl
      · exact persists after
  cases index with
  | some base => exact upkeep base
  | none =>
    refine yields_bind fun created => ?_
    rcases created with _ | base
    · exact ends _ _ rfl
    · exact upkeep base

/-- A status that tells nothing about a row. -/
theorem told_same {status : ExecStatus} (silent : status.stored = false)
    (taken : status = .duplicateId → query.id ∈ rows.map Row.id) :
    InsertTold query rows rows status where
  either := .inl rfl
  stored stored := by
    rw [silent] at stored
    cases stored
  refused _ _ := rfl
  taken := taken

theorem InsertReportedOpen.printed {status : ExecStatus}
    (reported : InsertReportedOpen regime up query rows kept h w status v) (text : Bytes) :
    InsertReportedOpen regime up query rows kept h w status (v.printed text) := by
  obtain ⟨frame, after, m, told, behind, all, known, shape, phase, held⟩ := reported
  exact ⟨frame.trans (.of_eq rfl), after, m, told, behind, all, known.congr rfl, shape, phase,
    held.of_kept (.refl _) (.refl _) rfl⟩

/-- An insertion that has reported leaves what a stopped one may leave. -/
theorem InsertReportedOpen.underway {status : ExecStatus}
    (reported : InsertReportedOpen regime up query rows kept h w status v) :
    InsertUnderway regime up query rows kept w v := by
  obtain ⟨frame, after, m, told, behind, _, ⟨inv, standing⟩, _⟩ := reported
  refine ⟨frame, after, told.either, inv.behind behind, fun stands => standing (.inl stands)⟩

private theorem reported_silent {status : ExecStatus} (silent : status.stored = false)
    (frame : StatementKept query.tableName w v) (told : InsertTold query rows after status)
    (known : KnownOpen regime query.tableName up after kept h v) :
    InsertReportedOpen regime up query rows kept h w status v := by
  obtain ⟨⟨inv, standing⟩, held⟩ := known
  refine ⟨frame, after, kept, told, Nat.le_refl _, fun stored => ?_,
    ⟨inv, fun stands => standing ?_⟩, held⟩
  · rw [silent] at stored
    cases stored
  · rcases stands with stands | stored
    · exact stands
    · rw [silent] at stored
      cases stored

private theorem insertNew_reports (crashing : regime.crashes = true)
    (valid : storageValidTableName query.tableName = true)
    (inserting : Inserting regime (fun _ _ => True) query.tableName rows kept w table loaded file)
    (standing : up → Standing query.tableName rows.length w)
    (made : newRow query.id query.name = some row) (absent : query.id ∉ rows.map Row.id)
    (fine : regime.fine (rows ++ [row]))
    (durable : regime.crashes = true → faults.unsupported = false) (failing : faults.calls = true) :
    wp (Steps faults) (InsertUnderway regime up query rows kept w)
      (show Prog (ExecStatus × Table) from do
      match ← storageInsertRow table row with
      | .error .readOnly =>
        print (str "Error: Table '" ++ query.tableName ++ str "' is read-only." ++ newline)
        return (.readOnly, table)
      | .error _ =>
        print (str "Error: Could not insert row." ++ newline)
        return (.ioError, table)
      | .ok (offset, table) =>
        let result ← maintainIndex loaded query.tableName query.id offset
        return (result, table))
      (fun result v => result.2.file = table.file ∧
        InsertReportedOpen regime up query rows kept table.file w result.1 v) w := by
  obtain ⟨tracked, named, writable, old, settled, found, accepted, ⟨position, stream⟩, loads⟩ :=
    inserting
  have noDot := (storageValidTableName_parts valid).noDot
  have counts := (tracked.inv.accepted settled found accepted).1
  have adds : RowAdded query rows (rows ++ [row]) := ⟨row, made, absent, rfl⟩
  have there : (w.file (tablePath query.tableName)).isSome = true := found ▸ rfl
  have inserts : wp (Steps faults) (InsertKnown regime table.name up rows row kept w)
      (storageInsertRow table row)
      (fun result v => InsertPost faults regime table rows row kept w result v ∧
        RowKnown regime table up rows row kept result v) w :=
    storageInsertRow_known crashing (named ▸ valid)
      ⟨named ▸ tracked.inv, named ▸ standing⟩ writable counts old
      (named ▸ tracked.inv.held settled there stream) (named ▸ settled) fine durable failing
  refine wp_seq inserts (fun v known => ?_) ?_
  · obtain ⟨frame, after, which, known⟩ := known
    rw [named] at frame known
    refine ⟨.of_table frame, after, which.imp_right ?_, known⟩
    rintro rfl
    exact adds
  rintro result v ⟨frame, _⟩ ⟨⟨_, next, outcome⟩, ends⟩
  rw [named] at frame
  rcases result with status | ⟨offset, later⟩
  · obtain ⟨after, which, known⟩ := ends
    rw [named] at known
    have either : after = rows ∨ RowAdded query rows after := by
      rcases which with same | ⟨rfl, _⟩
      · exact .inl same
      · exact .inr adds
    have failed : InsertReportedOpen regime up query rows kept table.file w .ioError v :=
      reported_silent rfl (.of_table frame)
        ⟨either, nofun, fun _ other => absurd rfl other, nofun⟩ known
    cases status with
    | readOnly =>
      obtain rfl : after = rows := which.resolve_right fun grown => grown.2 rfl
      have same : InsertReportedOpen regime up query after kept table.file w .readOnly v :=
        reported_silent rfl (.of_table frame) (told_same rfl nofun) known
      exact wp_print same.underway ⟨(same.printed _).underway, rfl, same.printed _⟩
    | _ => exact wp_print failed.underway ⟨(failed.printed _).underway, rfl, failed.printed _⟩
  · -- the row is there, and is kept whatever becomes of the index
    obtain ⟨_, ⟨shape, _⟩, _, journal, ⟨p, stream'⟩, present, _⟩ := outcome
    have ends : Known regime query.tableName True (rows ++ [row]) (rows.length + 1) v :=
      named ▸ ends
    rw [named] at journal stream' present
    have file_eq : later.file = table.file := by rw [shape]
    refine wp_seq (wp_yields (maintainIndex_stored loaded query.tableName query.id offset)
      (maintainIndex_spec valid (fun base known => ?_) query.id offset (.inl failing)))
        (fun x around => ?_) ?_
    · obtain ⟨_, _, from_file⟩ := loads base known
      exact ⟨from_file.valid, from_file.named⟩
    · have known := ends.indexed noDot around
      exact ⟨(StatementKept.of_table frame).trans (.of_index around.1), _, .inr adds,
        known.inv.behind tracked.inv.acked.step,
        fun _ => known.standing trivial⟩
    rintro status x around ⟨⟨between, text, rfl, within, _⟩, stored⟩
    have known := ends.indexed noDot within.kept
    obtain ⟨offTable, offJournal, _⟩ := indexPath_apart noDot noDot
    have streamX : between.streams table.file =
        some { path := tablePath query.tableName, position := p, pending := [] } :=
      (within.streams _ (Nat.lt_of_lt_of_le old next)).trans stream'
    have gone : between.file (journalPath query.tableName) = none :=
      (within.frame _ offJournal).same_file.trans journal
    have present' : (between.file (tablePath query.tableName)).isSome = true :=
      (within.frame _ offTable).same_file ▸ present
    have reported : InsertReportedOpen regime up query rows kept table.file w status between := by
      refine ⟨(StatementKept.of_table frame).trans (.of_index within.frame), _, _,
        ⟨.inr adds, fun _ => adds,
        fun silent => ?_, fun taken => ?_⟩, tracked.inv.acked.step, fun _ =>
          by rw [List.length_append]; rfl,
        ⟨known.inv, fun _ => known.standing trivial⟩, _, .before,
          known.inv.held gone present' streamX⟩
      · rw [stored] at silent
        cases silent
      · rw [taken] at stored
        cases stored
    exact ⟨(reported.printed text).underway, file_eq, reported.printed text⟩

private theorem insertInto_reports (crashing : regime.crashes = true)
    (valid : storageValidTableName query.tableName = true)
    (inserting : Inserting regime (fun _ _ => True) query.tableName rows kept w table loaded file)
    (standing : up → Standing query.tableName rows.length w)
    (fine : ∀ after, RowAdded query rows after → regime.fine after)
    (durable : regime.crashes = true → faults.unsupported = false) (failing : faults.calls = true) :
    wp (Steps faults) (InsertUnderway regime up query rows kept w) (insertInto table query loaded)
      (fun result v => result.2.file = table.file ∧
        InsertReportedOpen regime up query rows kept table.file w result.1 v) w := by
  obtain ⟨tracked, named, writable, old, settled, found, accepted, ⟨position, stream⟩, loads⟩ :=
  id inserting
  obtain ⟨counts, shows⟩ := tracked.inv.accepted settled found accepted
  have whole := (acceptedCount_iff.mp accepted).2.2.2.2
  have noDot := (storageValidTableName_parts valid).noDot
  have known : Known regime query.tableName up rows kept w := ⟨tracked.inv, standing⟩
  have still : ∀ v, Still w v → InsertUnderway regime up query rows kept w v := fun v same =>
    ⟨.of_eq same, rows, .inl rfl, known.congr same⟩
  -- the search moves the handle only
  have silent : ∀ p status, status.stored = false →
      (status = .duplicateId → query.id ∈ rows.map Row.id) →
      InsertReportedOpen regime up query rows kept table.file w status
        (w.cursor table.file (tablePath query.tableName) p) := by
    intro p status silent taken
    have moved : Known regime query.tableName up rows kept
        (w.cursor table.file (tablePath query.tableName) p) :=
      known.congr rfl
    exact reported_silent silent (.of_eq rfl) (told_same silent taken)
      ⟨moved, _, .before, moved.inv.held settled (show (w.file _).isSome = true from found ▸ rfl)
        (streams_cursor ..)⟩
  have ids : query.id ∈ (tableRows file.bytes table.rowCount.toNat).map Row.id ↔
      query.id ∈ rows.map Row.id := by
    rw [shows, visibleRow_ids]
  have search : wp (Steps faults) _ (findDuplicate table query.id loaded) _
      (w.cursor table.file (tablePath query.tableName) position) :=
        findDuplicate_spec found whole query.id loaded
  rw [World.cursor, setStream_self stream] at search
  unfold insertInto
  refine wp_seq search still ?_
  rintro result _ same ⟨⟨p, rfl⟩, outcome⟩
  have here := still _ same
  rcases result with status | taken | _
  · have failed := (silent p .ioError rfl fun same => ExecStatus.noConfusion same).printed
        (str "Error: Failed while checking for duplicate id." ++ newline)
    exact wp_print here ⟨failed.underway, rfl, failed⟩
  · -- no row has the id
    have absent : query.id ∉ rows.map Row.id :=
      fun among => Bool.false_ne_true (outcome.mpr (ids.mpr among))
    dsimp only
    cases made : newRow query.id query.name with
    | none => exact ⟨here, rfl, silent p .semanticError rfl fun same => ExecStatus.noConfusion same⟩
    | some row =>
      refine wp_mono (insertNew_reports crashing valid (inserting.moved p)
        (fun stands => (standing stands).of_kept (.refl _) (.refl _))
        made absent (fine _ ⟨row, made, absent, rfl⟩) durable failing)
          (fun v underway => underway) ?_
      rintro result v _ reported
      exact reported
  · have among := ids.mp (outcome.mp rfl)
    have refused := (silent p .duplicateId rfl fun _ => among).printed
      (str "Error: Duplicate id " ++ decimal query.id ++
        str " (id is a unique primary key)." ++ newline)
    exact wp_print here ⟨refused.underway, rfl, refused⟩

/-! ## The statement -/

private theorem reported_same {status : ExecStatus} (silent : status.stored = false)
    (taken : status = .duplicateId → query.id ∈ rows.map Row.id)
    (frame : StatementKept query.tableName w v)
    (known : Known regime query.tableName up rows kept v) :
    InsertReported regime up query rows kept w status v := by
  refine ⟨frame, rows, kept, told_same silent taken, Nat.le_refl _, fun stored => ?_, known.inv,
    fun stands => ?_⟩
  · rw [silent] at stored
    cases stored
  · rcases stands with stands | stored
    · exact known.standing stands
    · rw [silent] at stored
      cases stored

theorem InsertReported.underway {status : ExecStatus}
    (reported : InsertReported regime up query rows kept w status v) :
    InsertUnderway regime up query rows kept w v := by
  obtain ⟨frame, after, m, told, behind, _, inv, standing⟩ := reported
  exact ⟨frame, after, told.either, inv.behind behind, fun stands => standing (.inl stands)⟩

private theorem insertAndClose_reports (crashing : regime.crashes = true)
    (valid : storageValidTableName query.tableName = true)
    (inserting : Inserting regime (fun _ _ => True) query.tableName rows kept w table loaded file)
    (standing : up → Standing query.tableName rows.length w)
    (fine : ∀ after, RowAdded query rows after → regime.fine after)
    (durable : regime.crashes = true → faults.unsupported = false) (failing : faults.calls = true) :
    wp (Steps faults) (InsertUnderway regime up query rows kept w) (show Prog ExecStatus from do
      let (result, table) ← insertInto table query loaded
      storageCloseTable table
      return result)
      (InsertReported regime up query rows kept w) w := by
  have named := inserting.name
  refine wp_seq (insertInto_reports crashing valid inserting standing fine durable failing)
    (fun _ stop => stop) ?_
  rintro ⟨status, later⟩ v _ ⟨same, frame, after, m, told, behind, all, known⟩
  dsimp only at same frame told all known ⊢
  have closes : storageCloseTable later = storageCloseTable table := by
    unfold storageCloseTable
    rw [same]
  rw [closes]
  rw [← named] at known
  have closing : wp (Steps faults) _ (storageCloseTable table) _ v :=
    storageCloseTable_known crashing known
  refine wp_seq closing (fun x closing => ?_) fun _ x closing closed => ?_
  · obtain ⟨frame', known'⟩ := closing
    rw [named] at frame' known'
    exact InsertReported.underway
      ⟨frame.trans (.of_table frame'), after, m, told, behind, all, known'⟩
  · rw [named] at closing closed
    have reported : InsertReported regime up query rows kept w status x :=
      ⟨frame.trans (.of_table closing.1), after, m, told, behind, all, closed⟩
    exact ⟨reported.underway, reported⟩

/-- An INSERT, wherever it is stopped and whatever fails, and what its status tells. -/
theorem executeInsert_reports (crashing : regime.crashes = true)
    (valid : storageValidTableName query.tableName = true)
    (known : Known regime query.tableName up rows kept w)
    (fine : ∀ after, RowAdded query rows after → regime.fine after)
    (durable : regime.crashes = true → faults.unsupported = false) (failing : faults.calls = true) :
    wp (Steps faults) (InsertUnderway regime up query rows kept w) (executeInsert query)
      (InsertReported regime up query rows kept w) w := by
  have noDot := (storageValidTableName_parts valid).noDot
  obtain ⟨offTable, offJournal, _⟩ := indexPath_apart noDot noDot
  unfold executeInsert
  refine wp_seq (storageOpenTable_known crashing valid known)
    (fun v stop => ⟨.of_table stop.1, rows, .inl rfl, stop.2⟩) ?_
  rintro result u ⟨frame, _⟩ ⟨⟨within, outcome⟩, knownU, _⟩
  have silent : ∀ status, status.stored = false → status ≠ .duplicateId →
      InsertReported regime up query rows kept w status u := fun status silent other =>
    reported_same silent (fun same => absurd same other) (.of_table frame) knownU
  cases result with
  | error status =>
    have ends : ∀ (status : ExecStatus) text, status.stored = false → status ≠ .duplicateId →
        wp (Steps faults) (InsertUnderway regime up query rows kept w)
          (print text >>= fun _ => Pure.pure status)
          (InsertReported regime up query rows kept w) u := fun status text quiet other =>
      wp_print (silent status quiet other).underway ⟨(silent status quiet other).underway.congr rfl,
        reported_same quiet (fun same => absurd same other) (.of_table frame) (knownU.congr rfl)⟩
    cases status <;> exact ends _ _ rfl nofun
  | ok table =>
    obtain ⟨shape, counts, newer, settled, _, ⟨file, found, accepted⟩, position, stream⟩ := outcome
    have named : table.name = query.tableName := by rw [shape]
    have handle : table.file = w.next := by rw [shape]
    rw [← handle] at newer stream
    refine wp_seq (indexLoadOrRebuild_spec (.inl failing)) (fun v around => ?_) ?_
    · exact ⟨(StatementKept.of_table frame).trans (.of_index around.1), rows, .inl rfl,
        knownU.indexed noDot around⟩
    rintro result x around ⟨rebuilt, outcome⟩
    have knownX := knownU.indexed noDot around
    have frameX : StatementKept query.tableName w x :=
      (StatementKept.of_table frame).trans (.of_index around.1)
    have streamX := (rebuilt.around.streams _ newer).trans stream
    have goes_on : wp (Steps faults) (InsertUnderway regime up query rows kept w)
        (show Prog ExecStatus from do
        let (result, table) ← insertInto table query result.toOption
        storageCloseTable table
        return result) (InsertReported regime up query rows kept w) x := by
      have inserting : Inserting regime
          (fun _ _ => True) query.tableName rows kept x table result.toOption file := by
        have foundX : x.file (tablePath query.tableName) = some file :=
          (around.1 _ offTable).same_file.trans found
        have settledX : x.file (journalPath query.tableName) = none :=
          (around.1 _ offJournal).same_file.trans settled
        refine ⟨⟨knownX.inv, fun _ _ => trivial⟩, named, by rw [shape],
          Nat.lt_of_lt_of_le newer rebuilt.around.next,
          settledX, foundX, accepted, ⟨position, streamX⟩, fun base loaded => ?_⟩
        cases result with
        | error status => cases loaded
        | ok index =>
          cases loaded
          obtain ⟨other, image, count, there, counted, _, _, from_file⟩ := outcome
          rw [foundX, Option.some.injEq] at there
          rw [← there, accepted, Except.ok.injEq] at counted
          rw [← counted, counts] at from_file
          exact ⟨image.bytes, trivial, from_file⟩
      refine wp_mono
        (insertAndClose_reports crashing valid inserting knownX.standing fine durable failing)
        (fun v stop => ?_) fun status v _ reported => ?_
      · exact ⟨frameX.trans stop.1, stop.2⟩
      · exact ⟨frameX.trans reported.1, reported.2⟩
    rcases result with status | index
    · cases status with
      | duplicatePrimaryKey =>
        have refused : ∀ v, v.entries = x.entries →
            InsertReported regime up query rows kept w .tableCorrupt v :=
          fun v same => reported_same rfl nofun (frameX.trans (.of_eq same)) (knownX.congr same)
        have stopped : ∀ v, v.entries = x.entries → InsertUnderway regime up query rows kept w v :=
          fun v same => (refused v same).underway
        exact wp_print (stopped x rfl)
          (wp_closeIdle streamX (stopped _ rfl) ⟨stopped _ rfl, refused _ rfl⟩)
      | _ => exact goes_on
    · exact goes_on

end SqlEngine
