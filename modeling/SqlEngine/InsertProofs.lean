import SqlEngine.SelectProofs
import SqlEngine.TableRecovery

/-! INSERT: it adds its row behind the others if no row has the id, whatever its index file
says, and otherwise leaves the rows as they are; wherever it is stopped, one or the other
holds. -/
namespace SqlEngine

open Library Program World Posix

variable {faults : Faults} {regime : Regime} {sound : List Row → Bytes → Prop} {tableName : Bytes}
    {query : InsertQuery}
  {rows after : List Row} {row : Row} {kept : Nat} {w u v x : World} {table : Table} {file : File}
  {loaded : Option Index}
  {written : Bytes → Prop}

/-! ## The table and its index file -/

/-- What an index file may say about a table with some rows, kept up by rebuilding the
index, by adding a row, and by the upkeep of the index behind an INSERT. -/
structure Tracks (faults : Faults) (tableName : Bytes)
    (sound : List Row → Bytes → Prop) : Prop where
  rebuilt : ∀ rows shown index bytes, faults.access = true ∨ shown = rows.map visibleRow →
    IndexOf shown tableName index → Image index bytes → sound rows bytes
  grown : ∀ rows row bytes, sound rows bytes → sound (rows ++ [row]) bytes
  maintained : ∀ rows row loaded offset bytes,
    (∀ base, loaded = some base →
      ∃ image, sound rows image ∧ LoadedFrom image rows.length tableName base) →
    row.id ∉ rows.map Row.id → offset.toNat = rowOffset rows.length →
    Maintained loaded tableName row.id offset bytes → sound (rows ++ [row]) bytes

/-- Nothing is asked of the index file. -/
theorem tracks_trivially (faults : Faults) (tableName : Bytes) :
    Tracks faults tableName fun _ _ => True :=
  ⟨fun _ _ _ _ _ _ _ => trivial, fun _ _ _ _ => trivial, fun _ _ _ _ _ _ _ _ _ => trivial⟩

/-- A table with some rows, and an index file that says what it may. -/
structure Tracked (regime : Regime) (sound : List Row → Bytes → Prop) (tableName : Bytes)
    (w : World) (rows : List Row)
    (kept : Nat) : Prop where
  inv : TableInv regime tableName w rows kept
  index : ∀ file, w.file (indexPath tableName) = some file → sound rows file.bytes

/-- Nothing but the files of a table is changed. -/
def StatementKept (tableName : Bytes) (w v : World) : Prop :=
  ∀ path, ¬ tablePath tableName <+: path → ¬ indexPath tableName <+: path →
    Kept (w.entries path) (v.entries path)

theorem StatementKept.trans (first : StatementKept tableName w u)
    (second : StatementKept tableName u v) :
    StatementKept tableName w v :=
  fun path offTable offIndex => (first path offTable offIndex).trans (second path offTable offIndex)

theorem StatementKept.of_eq (same : v.entries = w.entries) : StatementKept tableName w v :=
  fun path _ _ => Kept.of_eq (congrFun same path)

theorem StatementKept.of_index (frame : KeptBut (indexPath tableName) w v) :
    StatementKept tableName w v :=
  fun path _ offIndex => frame path offIndex

theorem StatementKept.of_table (frame : KeptBut (tablePath tableName) w v) :
    StatementKept tableName w v :=
  fun path offTable _ => frame path offTable

theorem Tracked.congr (tracked : Tracked regime sound tableName w rows kept)
    (same : v.entries = w.entries) :
    Tracked regime sound tableName v rows kept where
  inv := tracked.inv.of_kept (Kept.of_eq (congrFun same _)) (Kept.of_eq (congrFun same _))
  index file there := tracked.index file ((file_congr same _).symm.trans there)

/-- The index file is written. -/
theorem Tracked.indexed (noDot : 46 ∉ tableName)
    (tracked : Tracked regime sound tableName w rows kept)
    (around : IndexKept tableName written w v) (fits : ∀ bytes, written bytes → sound rows bytes) :
    Tracked regime sound tableName v rows kept := by
  obtain ⟨frame, outcome⟩ := around
  obtain ⟨offTable, offJournal, _⟩ := indexPath_apart noDot noDot
  refine ⟨tracked.inv.of_kept (frame _ offTable) (frame _ offJournal), fun file there => ?_⟩
  rcases outcome with same | ⟨other, found, holds⟩
  · exact tracked.index file (same.symm.trans there)
  · rw [found, Option.some.injEq] at there
    exact there ▸ fits _ holds

/-- The table is changed, and the index file is not. -/
theorem Tracked.changed (noDot : 46 ∉ tableName)
    (tracked : Tracked regime sound tableName w rows kept)
    (frame : KeptBut (tablePath tableName) w v) {m : Nat}
    (inv : TableInv regime tableName v after m)
    (grown : ∀ bytes, sound rows bytes → sound after bytes) :
    Tracked regime sound tableName v after m := by
  refine ⟨inv, fun file there => grown _ (tracked.index file ?_)⟩
  rwa [(frame _ (indexPath_apart noDot noDot).2.2).same_file] at there

/-- A rebuild makes an index of the rows of the table. -/
theorem Tracked.rebuilt (tracks : Tracks faults tableName sound)
    (tracked : Tracked regime sound tableName w rows kept)
    (bytes : Bytes) (rebuilt : Rebuilt faults tableName w bytes) : sound rows bytes := by
  obtain ⟨shown, index, ⟨file, count, found, accepted, settled, rfl⟩, index_of, image⟩ := rebuilt
  refine tracks.rebuilt rows _ index bytes (settled.imp_right fun settled => ?_) index_of image
  exact (tracked.inv.accepted settled found accepted).2

/-! ## The row -/

/-- A statement adds its row: no row has the id, and the name fits. -/
def RowAdded (query : InsertQuery) (rows after : List Row) : Prop :=
  ∃ row, newRow query.id query.name = some row ∧ query.id ∉ rows.map Row.id ∧ after = rows ++ [row]

/-- A name that fits its slot is stored with NUL bytes behind it. -/
theorem newRow_short (id : Int32) {name : Bytes} (short : name.length ≤ 31) :
    newRow id name =
      some { id, name := name.takeD STORAGE_NAME_SIZE 0, name_size := List.takeD_length _ _ _ } := by
  have copied : utilCopyChecked STORAGE_NAME_SIZE name = some name := by
    unfold utilCopyChecked
    rw [if_neg]
    unfold STORAGE_NAME_SIZE
    omega
  unfold newRow
  rw [copied]

theorem newRow_id {id : Int32} {name : Bytes} (made : newRow id name = some row) : row.id = id := by
  unfold newRow at made
  split at made
  · cases made
  · cases made
    rfl

/-- What holds wherever an INSERT is stopped: the rows are the same, or one was added. -/
def InsertStop (regime : Regime) (sound : List Row → Bytes → Prop) (query : InsertQuery)
    (rows : List Row)
    (w v : World) : Prop :=
  StatementKept query.tableName w v ∧ ∃ after kept, (after = rows ∨ RowAdded query rows after) ∧
    Tracked regime sound query.tableName v after kept

/-- The message for an id that is taken. -/
def takenText (id : Int32) : Bytes :=
  str "Error: Duplicate id " ++ decimal id ++ str " (id is a unique primary key)." ++ newline

/-- A table in the middle of an INSERT: open for writing, with what was loaded of its index. -/
structure Inserting (regime : Regime) (sound : List Row → Bytes → Prop) (tableName : Bytes)
    (rows : List Row) (kept : Nat)
    (w : World) (table : Table) (loaded : Option Index) (file : File) : Prop where
  tracked : Tracked regime sound tableName w rows kept
  name : table.name = tableName
  writable : table.writable = true
  old : table.file < w.next
  settled : w.file (journalPath tableName) = none
  found : w.file (tablePath tableName) = some file
  accepted : acceptedCount file.bytes = .ok table.rowCount
  stream : ∃ position, w.streams table.file =
    some { path := tablePath tableName, position, pending := [] }
  loaded : ∀ base, loaded = some base →
    ∃ image, sound rows image ∧ LoadedFrom image rows.length tableName base

/-- The handle moves. -/
theorem Inserting.moved (inserting : Inserting regime sound tableName rows kept w table loaded file)
    (p : Nat) :
    Inserting regime sound tableName rows kept
      (w.cursor table.file (tablePath tableName) p) table loaded file :=
  ⟨inserting.tracked.congr rfl, inserting.name, inserting.writable, inserting.old,
    inserting.settled,
    inserting.found,
    inserting.accepted, ⟨p, streams_cursor ..⟩, inserting.loaded⟩

/-- The table behind an INSERT, while its handle is open. -/
def InsertedInto (regime : Regime) (sound : List Row → Bytes → Prop) (query : InsertQuery)
    (rows : List Row) (h : Nat)
    (w v : World) : Prop :=
  StatementKept query.tableName w v ∧
    ∃ after kept shape, (after = rows ∨ RowAdded query rows after) ∧
    Tracked regime sound query.tableName v after kept ∧ regime.Phase after shape ∧
    Held regime.crashes query.tableName shape after.length h v

/-- An insertion that has ended leaves what a stopped one may leave. -/
theorem InsertedInto.stop (into : InsertedInto regime sound query rows h w v) :
    InsertStop regime sound query rows w v := by
  obtain ⟨frame, after, kept, _, which, tracked, _⟩ := into
  exact ⟨frame, after, kept, which, tracked⟩

theorem InsertStop.congr (stop : InsertStop regime sound query rows w u)
    (same : v.entries = u.entries) :
    InsertStop regime sound query rows w v := by
  obtain ⟨frame, after, kept, which, tracked⟩ := stop
  exact ⟨frame.trans (.of_eq same), after, kept, which, tracked.congr same⟩

theorem InsertedInto.printed (into : InsertedInto regime sound query rows h w v) (text : Bytes) :
    InsertedInto regime sound query rows h w (v.printed text) := by
  obtain ⟨frame, after, kept, shape, which, tracked, phase, held⟩ := into
  exact ⟨frame.trans (.of_eq rfl), after, kept, shape, which, tracked.congr rfl, phase,
    held.of_kept (.refl _) (.refl _) rfl⟩

/-- What an INSERT comes to where no call fails. -/
structure InsertExact (query : InsertQuery) (rows : List Row) (file : File) (w : World)
    (status : ExecStatus)
    (v : World) : Prop where
  tidy : Tidy query.tableName w v
  settled : v.file (journalPath query.tableName) = none
  taken : query.id ∈ rows.map Row.id →
    status = .duplicateId ∧ v.output = w.output ++ takenText query.id ∧
    v.file (tablePath query.tableName) = some file
  added : query.id ∉ rows.map Row.id → ∀ row, newRow query.id query.name = some row →
    status = .ok ∧ v.output = w.output ++ insertedText query.id ∧ ∃ after newCount,
      v.file (tablePath query.tableName) = some after ∧ newCount.toNat = rows.length + 1 ∧
      after.bytes = insertedBytes file.bytes rows.length row newCount

theorem InsertExact.from {status : ExecStatus} (ends : InsertExact query rows file u status v)
    (same : u.entries = w.entries)
    (output : u.output = w.output) : InsertExact query rows file w status v where
  tidy path off gone := ends.tidy path off ((file_congr same path).trans gone)
  settled := ends.settled
  taken among := output ▸ ends.taken among
  added absent := output ▸ ends.added absent

theorem visibleRow_ids (rows : List Row) : (rows.map visibleRow).map Row.id = rows.map Row.id := by
  rw [List.map_map]
  rfl

private theorem insertNew_spec (valid : storageValidTableName query.tableName = true)
    (tracks : Tracks faults query.tableName sound)
    (inserting : Inserting regime sound query.tableName rows kept w table loaded file)
    (made : newRow query.id query.name = some row) (absent : query.id ∉ rows.map Row.id)
    (fine : regime.fine (rows ++ [row]))
    (durable : regime.crashes = true → faults.unsupported = false)
    (possible : faults.calls = true ∨
      Spare (indexPath query.tableName) w ∧ Spare (journalPath query.tableName) w) :
    wp (Steps faults) (InsertStop regime sound query rows w) (show Prog (ExecStatus × Table) from do
      match ← storageInsertRow table row with
      | .error .readOnly =>
        print (str "Error: Table '" ++ query.tableName ++ str "' is read-only." ++ newline)
        return (.readOnly, table)
      | .error _ =>
        print (str "Error: Could not insert row." ++ newline)
        return (.ioError, table)
      | .ok (offset, table) =>
        let result ← maintainIndex loaded query.tableName query.id offset
        return (result, table))
      (fun result v => result.2.file = table.file ∧
        InsertedInto regime sound query rows table.file w v ∧
        (faults.calls = true ∨ (rows.length ≤ INT_MAX →
          (∃ position, v.streams table.file =
            some { path := tablePath query.tableName, position, pending := [] }) ∧
          InsertExact query rows file w result.1 v))) w := by
  obtain ⟨tracked, named, writable, old, settled, found, accepted, ⟨position, stream⟩, loads⟩ :=
    inserting
  have noDot := (storageValidTableName_parts valid).noDot
  have counts := (tracked.inv.accepted settled found accepted).1
  have adds : RowAdded query rows (rows ++ [row]) := ⟨row, made, absent, rfl⟩
  have there : (w.file (tablePath query.tableName)).isSome = true := found ▸ rfl
  have inserts : wp (Steps faults) (InsertInv regime table.name rows row kept w)
      (storageInsertRow table row)
      (InsertPost faults regime table rows row kept w) w :=
    storageInsertRow_spec (named ▸ valid) (named ▸ tracked.inv) writable counts old
      (named ▸ tracked.inv.held settled there stream) fine durable
        (named ▸ possible.imp_right And.right)
  have grown : ∀ bytes, sound rows bytes → sound (rows ++ [row]) bytes := tracks.grown rows row
  have stop : ∀ v, InsertInv regime table.name rows row kept w v →
      InsertStop regime sound query rows w v := by
    rintro v ⟨frame, inv⟩
    rw [named] at frame inv
    refine ⟨.of_table frame, ?_⟩
    rcases inv with inv | inv
    · exact ⟨rows, kept, .inl rfl, tracked.changed noDot frame inv fun _ holds => holds⟩
    · exact ⟨_, kept, .inr adds, tracked.changed noDot frame inv grown⟩
  refine wp_seq inserts stop ?_
  rintro result v kept_by ⟨output, next, outcome⟩
  have here := stop v kept_by
  obtain ⟨frame, _⟩ := kept_by
  rw [named] at frame
  rcases result with status | ⟨offset, later⟩
  · -- a failed insertion, which its journal undoes, or which stands
    obtain ⟨why, refused⟩ := outcome
    have into : InsertedInto regime sound query rows table.file w v := by
      refine ⟨.of_table frame, ?_⟩
      cases refused with
      | undone inv phase held =>
        rw [named] at inv held
        exact ⟨rows, kept, _, .inl rfl, tracked.changed noDot frame inv fun _ holds => holds,
          phase, held⟩
      | stands inv settled' written stream =>
        rw [named] at inv settled' stream
        obtain ⟨file', _, _, found', _⟩ := written
        rw [named] at found'
        exact ⟨_, kept, _, .inr adds, tracked.changed noDot frame inv grown, .before,
          inv.held settled' (found' ▸ rfl) stream⟩
    have exact_else : faults.calls = true ∨ ¬ rows.length ≤ INT_MAX := by
      rcases why with calls | large | unclean
      · exact .inl calls
      · refine .inr fun few => ?_
        unfold maxFileSize rowOffset at large
        unfold INT_MAX at few
        omega
      · exact absurd ⟨position, named ▸ stream⟩ unclean
    have ends : ∀ status text, wp (Steps faults) (InsertStop regime sound query rows w)
        (print text >>= fun _ => Pure.pure (status, table))
          (fun result v => result.2.file = table.file ∧
          InsertedInto regime sound query rows table.file w v ∧
            (faults.calls = true ∨ (rows.length ≤ INT_MAX →
            (∃ position, v.streams table.file =
              some { path := tablePath query.tableName, position, pending := [] }) ∧
            InsertExact query rows file w result.1 v))) v := fun status text =>
      wp_print here ⟨here.congr rfl, rfl, into.printed _, exact_else.imp_right fun many few =>
        absurd few many⟩
    cases status with
    | readOnly => exact ends _ _
    | _ => exact ends _ _
  · -- the row is there
    obtain ⟨placed, ⟨shape, counted⟩, inv, journal, ⟨p, stream'⟩, present, _, _, fresh, bytes⟩ :=
      outcome
    rw [named] at inv journal stream' present fresh
    obtain ⟨after, found', image⟩ := bytes file position (named ▸ found) (named ▸ stream)
    rw [named] at found'
    have base : Tracked regime sound query.tableName v (rows ++ [row]) (rows.length + 1) :=
      tracked.changed noDot frame inv grown
    have maintained : ∀ image, Maintained loaded query.tableName query.id offset image →
        sound (rows ++ [row]) image := by
      intro image maintained
      rw [← newRow_id made] at maintained absent
      exact tracks.maintained rows row loaded offset image loads absent placed maintained
    have offTable := (indexPath_apart noDot noDot).1
    have offJournal := (indexPath_apart noDot noDot).2.1
    have possible' : faults.calls = true ∨ Spare (indexPath query.tableName) v := by
      refine possible.imp_right fun spare => ?_
      obtain ⟨suffix, portable, free⟩ := spare.1
      refine ⟨suffix, portable, fresh _ (fun same => ?_) free⟩
      exact offTable (same ▸ prefix_temp _ _)
    refine wp_seq (maintainIndex_spec valid (fun base known => ?_) query.id offset possible')
      (fun x around => ?_) ?_
    · obtain ⟨_, _, from_file⟩ := loads base known
      exact ⟨from_file.valid, from_file.named⟩
    · exact ⟨(StatementKept.of_table frame).trans (.of_index around.1), _, _, .inr adds,
        base.indexed noDot around maintained⟩
    rintro status _ _ ⟨x, text, rfl, around, decided⟩
    have tracked' := base.indexed noDot around.kept maintained
    have file_eq : later.file = table.file := by rw [shape]
    have old' : table.file < v.next := Nat.lt_of_lt_of_le old next
    have streamX : x.streams table.file =
        some { path := tablePath query.tableName, position := p, pending := [] } :=
      (around.streams _ old').trans stream'
    have sameTable : x.file (tablePath query.tableName) = v.file (tablePath query.tableName) :=
      (around.frame _ offTable).same_file
    have sameJournal :
        x.file (journalPath query.tableName) = v.file (journalPath query.tableName) :=
      (around.frame _ offJournal).same_file
    have into : InsertedInto regime sound query rows table.file w x :=
      ⟨(StatementKept.of_table frame).trans (.of_index around.frame), _, _, _, .inr adds,
        tracked', .before,
        tracked'.inv.held (sameJournal.trans journal) (sameTable ▸ present) streamX⟩
    refine ⟨(into.printed _).stop, file_eq, into.printed _,
      decided.imp_right fun ⟨tidy, done⟩ few => ?_⟩
    obtain ⟨rfl, rfl⟩ := done fun base known => by
      obtain ⟨_, _, from_file⟩ := loads base known
      rw [from_file.counted]
      unfold INT_MAX at few
      unfold UINT32_MAX
      omega
    refine ⟨⟨p, streamX⟩, fun path off gone => ?_, sameJournal.trans journal, fun among =>
      absurd among absent,
      fun _ other known => ⟨rfl, ?_, after, later.rowCount, sameTable.trans found', counted, ?_⟩⟩
    · refine tidy path off (fresh path (fun same => ?_) gone)
      rw [same, found] at gone
      cases gone
    · rw [output_printed, around.output, output]
    · rw [made, Option.some.injEq] at known
      exact known ▸ image

/-- From the loaded index on. -/
theorem insertInto_spec (valid : storageValidTableName query.tableName = true)
    (tracks : Tracks faults query.tableName sound)
    (inserting : Inserting regime sound query.tableName rows kept w table loaded file)
    (fine : ∀ after, RowAdded query rows after → regime.fine after)
    (durable : regime.crashes = true → faults.unsupported = false)
    (possible : faults.calls = true ∨
      Spare (indexPath query.tableName) w ∧ Spare (journalPath query.tableName) w) :
    wp (Steps faults) (InsertStop regime sound query rows w) (insertInto table query loaded)
      (fun result v => result.2.file = table.file ∧
        InsertedInto regime sound query rows table.file w v ∧
        (faults.calls = true ∨ (rows.length ≤ INT_MAX →
          (∃ position, v.streams table.file =
            some { path := tablePath query.tableName, position, pending := [] }) ∧
          InsertExact query rows file w result.1 v))) w := by
  obtain ⟨tracked, named, writable, old, settled, found, accepted, ⟨position, stream⟩, loads⟩ :=
  id inserting
  obtain ⟨counts, shows⟩ := tracked.inv.accepted settled found accepted
  have whole := (acceptedCount_iff.mp accepted).2.2.2.2
  have noDot := (storageValidTableName_parts valid).noDot
  -- the search moves the handle only
  have into : ∀ p, InsertedInto regime sound query rows table.file w
      (w.cursor table.file (tablePath query.tableName) p) := by
    intro p
    refine ⟨.of_eq rfl, rows, kept, _, .inl rfl, tracked.congr rfl, .before, ?_⟩
    have moved : Tracked regime sound query.tableName
        (w.cursor table.file (tablePath query.tableName) p) rows kept :=
      tracked.congr rfl
    exact moved.inv.held settled (show (w.file _).isSome = true from found ▸ rfl)
      (streams_cursor ..)
  have still : ∀ v, Still w v → InsertStop regime sound query rows w v := fun v same =>
    ⟨.of_eq same, rows, kept, .inl rfl, tracked.congr same⟩
  have ids : query.id ∈ (tableRows file.bytes table.rowCount.toNat).map Row.id ↔
      query.id ∈ rows.map Row.id := by
    rw [shows, visibleRow_ids]
  have search : wp (Steps faults) _ (findDuplicate table query.id loaded) _
      (w.cursor table.file (tablePath query.tableName) position) :=
        findDuplicate_spec found whole query.id loaded
  rw [World.cursor, setStream_self stream] at search
  unfold insertInto
  refine wp_seq search still ?_
  rintro result _ same ⟨⟨p, rfl⟩, outcome⟩
  have here := still _ same
  rcases result with status | taken | _
  · exact wp_print here ⟨here.congr rfl, rfl, (into p).printed _, .inl outcome⟩
  · -- no row has the id
    have absent : query.id ∉ rows.map Row.id :=
      fun among => Bool.false_ne_true (outcome.mpr (ids.mpr among))
    dsimp only
    cases made : newRow query.id query.name with
    | none =>
      refine ⟨here, rfl, into p, .inr fun few =>
        ⟨⟨p, streams_cursor ..⟩, fun _ _ gone => gone, settled, ?_, ?_⟩⟩
      · exact fun among => absurd among absent
      · intro _ row other
        cases made.symm.trans other
    | some row =>
      refine wp_mono (insertNew_spec valid tracks (inserting.moved p) made absent
        (fine _ ⟨row, made, absent, rfl⟩) durable
        possible) (fun v stop => stop) ?_
      rintro result v _ ⟨same, into, exactly⟩
      exact ⟨same, into, exactly.imp_right fun exactly few =>
        ⟨(exactly few).1, (exactly few).2.from rfl rfl⟩⟩
  · refine wp_print here ⟨here.congr rfl, rfl, (into p).printed _, .inr fun few =>
      ⟨⟨p, streams_cursor ..⟩, ?_⟩⟩
    have among := ids.mp (outcome.mp rfl)
    exact ⟨fun _ _ gone => gone, settled, fun _ => ⟨rfl, rfl, found⟩, fun absent =>
      absurd among absent⟩

/-! ## The statement -/

/-- What an INSERT comes to where no call fails: on no table, and on one whose rows have
distinct ids and are not too many. -/
structure InsertEnds (query : InsertQuery) (rows : List Row) (w : World) (status : ExecStatus)
    (v : World) : Prop where
  absent : w.file (tablePath query.tableName) = none →
    status = .tableNotFound ∧ v.entries = w.entries ∧
      v.output = w.output ++ absentText query.tableName
  present : ∀ file count, w.file (tablePath query.tableName) = some file →
    acceptedCount file.bytes = .ok count →
    w.file (journalPath query.tableName) = none → (rows.map Row.id).Nodup → rows.length ≤ INT_MAX →
    InsertExact query rows file w status v

private theorem storageCloseTable_congr {other : Table} (same : other.file = table.file) :
    storageCloseTable other = storageCloseTable table := by
  unfold storageCloseTable
  rw [same]

private theorem insertAndClose_spec (valid : storageValidTableName query.tableName = true)
    (tracks : Tracks faults query.tableName sound)
    (inserting : Inserting regime sound query.tableName rows kept w table loaded file)
    (fine : ∀ after, RowAdded query rows after → regime.fine after)
    (durable : regime.crashes = true → faults.unsupported = false)
    (possible : faults.calls = true ∨
      Spare (indexPath query.tableName) w ∧ Spare (journalPath query.tableName) w) :
    wp (Steps faults) (InsertStop regime sound query rows w) (show Prog ExecStatus from do
      let (result, table) ← insertInto table query loaded
      storageCloseTable table
      return result)
      (fun status v => faults.calls = true ∨
        (rows.length ≤ INT_MAX → InsertExact query rows file w status v)) w := by
  have noDot := (storageValidTableName_parts valid).noDot
  have named := inserting.name
  refine wp_seq (insertInto_spec valid tracks inserting fine durable possible)
    (fun _ stop => stop) ?_
  rintro ⟨status, later⟩ v _ ⟨same, ⟨frame, after, m, shape, which, tracked, phase, held⟩, exactly⟩
  dsimp only at same exactly ⊢
  rw [storageCloseTable_congr same]
  have closing : wp (Steps faults) _ (storageCloseTable table) _ v :=
    storageCloseTable_spec (named ▸ tracked.inv) phase (named ▸ held)
  refine wp_seq closing (fun x kept_by => ?_) fun _ x kept_by closed => ?_
  · obtain ⟨frame', inv⟩ := kept_by
    rw [named] at frame' inv
    exact ⟨frame.trans (.of_table frame'), after, m, which,
      tracked.changed noDot frame' inv fun _ holds => holds⟩
  · obtain ⟨frame', inv⟩ := kept_by
    rw [named] at frame' inv
    refine ⟨⟨frame.trans (.of_table frame'), after, m, which,
      tracked.changed noDot frame' inv fun _ holds => holds⟩, ?_⟩
    refine exactly.imp_right fun exactly few => ?_
    obtain ⟨⟨position, stream⟩, ends⟩ := exactly few
    obtain rfl := closed.2.2.2 position (named ▸ stream)
    exact ⟨ends.tidy, ends.settled, ends.taken, ends.added⟩

private theorem executeInsert_absent (valid : storageValidTableName query.tableName = true)
    (tracked : Tracked regime sound query.tableName w rows kept)
    (gone : w.file (tablePath query.tableName) = none) :
    wp (Steps faults) (InsertStop regime sound query rows w) (executeInsert query)
      (fun status v => faults.calls = true ∨ InsertEnds query rows w status v) w := by
  have still : ∀ v, Still w v → InsertStop regime sound query rows w v := fun v same =>
    ⟨.of_eq same, rows, kept, .inl rfl, tracked.congr same⟩
  have failing : ∀ status text, faults.calls = true →
      wp (Steps faults) (InsertStop regime sound query rows w)
      (print text >>= fun _ => Pure.pure status)
      (fun status v => faults.calls = true ∨ InsertEnds query rows w status v) w :=
    fun status text calls => wp_print (still w rfl) ⟨still _ rfl, .inl calls⟩
  unfold executeInsert
  refine wp_seq (storageOpenTable_absent valid gone) still ?_
  rintro _ v _ ⟨rfl, ⟨calls, status, rfl⟩ | rfl⟩
  · cases status <;> exact failing _ _ calls
  · refine wp_print (still v rfl)
      ⟨still _ rfl, .inr ⟨fun _ => ⟨rfl, rfl, rfl⟩, fun file _ found => ?_⟩⟩
    rw [gone] at found
    cases found

/-- An INSERT, wherever it is stopped and whatever fails, and what it comes to if nothing does. -/
theorem executeInsert_spec (valid : storageValidTableName query.tableName = true)
    (tracks : Tracks faults query.tableName sound)
    (tracked : Tracked regime sound query.tableName w rows kept)
    (fine : ∀ after, RowAdded query rows after → regime.fine after)
    (durable : regime.crashes = true → faults.unsupported = false)
    (possible : faults.calls = true ∨
      Spare (indexPath query.tableName) w ∧ Spare (journalPath query.tableName) w) :
    wp (Steps faults) (InsertStop regime sound query rows w) (executeInsert query)
      (fun status v => faults.calls = true ∨ InsertEnds query rows w status v) w := by
  cases present : w.file (tablePath query.tableName) with
  | none => exact executeInsert_absent valid tracked present
  | some before =>
    have noDot := (storageValidTableName_parts valid).noDot
    obtain ⟨offTable, offJournal, offIndex⟩ := indexPath_apart noDot noDot
    unfold executeInsert
    refine wp_seq (storageOpenTable_spec valid tracked.inv)
      (fun v held => ⟨.of_table held.1, rows, kept, .inl rfl,
        tracked.changed noDot held.1 held.2 fun _ holds => holds⟩) ?_
    rintro result u _ ⟨within, outcome⟩
    have trackedU : Tracked regime sound query.tableName u rows kept :=
      tracked.changed noDot within.frame within.inv fun _ holds => holds
    have here : InsertStop regime sound query rows w u :=
      ⟨.of_table within.frame, rows, kept, .inl rfl, trackedU⟩
    cases result with
    | error status =>
      have ends : ∀ status text, wp (Steps faults) (InsertStop regime sound query rows w)
          (print text >>= fun _ => Pure.pure status)
          (fun status v => faults.calls = true ∨ InsertEnds query rows w status v) u := by
        intro status text
        refine wp_print here ⟨here.congr rfl, ?_⟩
        obtain calls | ⟨_, gone⟩ | ⟨same, after, found, refused⟩ := outcome
        · exact .inl calls
        · rw [present] at gone
          cases gone
        · refine .inr ⟨fun gone => ?_, fun file count there accepted settled => ?_⟩
          · rw [present] at gone
            cases gone
          · rw [file_congr (same settled), there, Option.some.injEq] at found
            rw [found, refused] at accepted
            cases accepted
      cases status <;> exact ends _ _
    | ok table =>
      obtain ⟨shape, counts, newer, settled, same, ⟨file, found, accepted⟩, position, stream⟩ :=
        outcome
      have named : table.name = query.tableName := by rw [shape]
      have handle : table.file = w.next := by rw [shape]
      rw [← handle] at newer stream
      have fresh : ∀ path, w.file path = none → u.file path = none := by
        intro path gone
        refine within.fresh path (fun same => ?_) gone
        rw [same, present] at gone
        cases gone
      have possibleU : faults.calls = true ∨ Spare (indexPath query.tableName) u :=
        possible.imp_right fun spare => spare.1.imp fun suffix free => ⟨free.1, fresh _ free.2⟩
      refine wp_seq (indexLoadOrRebuild_spec possibleU) (fun v around => ?_) ?_
      · exact ⟨(StatementKept.of_table within.frame).trans (.of_index around.1), rows,
          kept, .inl rfl,
          trackedU.indexed noDot around (trackedU.rebuilt tracks)⟩
      rintro result x around ⟨rebuilt, outcome⟩
      have trackedX : Tracked regime sound query.tableName x rows kept :=
        trackedU.indexed noDot around (trackedU.rebuilt tracks)
      have frameX : StatementKept query.tableName w x :=
        (StatementKept.of_table within.frame).trans (.of_index around.1)
      have hereX : InsertStop regime sound query rows w x :=
        ⟨frameX, rows, kept, .inl rfl, trackedX⟩
      have foundX : x.file (tablePath query.tableName) = some file :=
        (around.1 _ offTable).same_file.trans found
      have settledX : x.file (journalPath query.tableName) = none :=
        (around.1 _ offJournal).same_file.trans settled
      have streamX := (rebuilt.around.streams _ newer).trans stream
      have inserting :
          Inserting regime sound query.tableName rows kept x table result.toOption file := by
        refine ⟨trackedX, named, by rw [shape],
          Nat.lt_of_lt_of_le newer rebuilt.around.next, settledX,
          foundX, accepted,
          ⟨position, streamX⟩, fun base known => ?_⟩
        cases result with
        | error status => cases known
        | ok index =>
          cases known
          obtain ⟨other, image, count, there, known, _, imaged, from_file⟩ := outcome
          rw [foundX, Option.some.injEq] at there
          rw [← there, accepted, Except.ok.injEq] at known
          rw [← known, counts] at from_file
          exact ⟨image.bytes, trackedX.index image imaged, from_file⟩
      have tidyX : faults.calls = true ∨ Tidy query.tableName w x :=
        rebuilt.tidy.imp_right fun tidy path off gone => tidy path off (fresh path gone)
      have possibleX : faults.calls = true ∨
          Spare (indexPath query.tableName) x ∧ Spare (journalPath query.tableName) x := by
        rcases possible with calls | ⟨⟨suffix, portable, free⟩, ⟨suffix', portable', free'⟩⟩
        · exact .inl calls
        · refine tidyX.imp_right fun tidy =>
            ⟨⟨suffix, portable, tidy _ temp_ne free⟩, suffix', portable', ?_⟩
          exact tidy _ (fun same => offIndex
            ((tablePath_prefix_journalPath _).trans (same ▸ prefix_temp _ suffix'))) free'
      have goes_on : wp (Steps faults) (InsertStop regime sound query rows w)
          (show Prog ExecStatus from do
          let (result, table) ← insertInto table query result.toOption
          storageCloseTable table
          return result) (fun status v => faults.calls = true ∨
            InsertEnds query rows w status v) x := by
        refine wp_mono (insertAndClose_spec valid tracks inserting fine durable possibleX)
          (fun v stop => ?_) ?_
        · obtain ⟨frame, after, m, which, tracked⟩ := stop
          exact ⟨frameX.trans frame, after, m, which, tracked⟩
        · rintro status v _ (calls | exactly)
          · exact .inl calls
          refine tidyX.imp_right fun tidy =>
            ⟨fun gone => ?_, fun other count there known noJournal distinct few => ?_⟩
          · rw [present] at gone
            cases gone
          · have ends := exactly few
            obtain rfl : file = other := by
              rw [file_congr (same noJournal), there, Option.some.injEq] at found
              exact found.symm
            have output : x.output = w.output := rebuilt.around.output.trans within.output
            exact ⟨fun path off gone => ends.tidy path off (tidy path off gone), ends.settled,
              output ▸ ends.taken,
              output ▸ ends.added⟩
      rcases result with status | index
      · cases status with
        | duplicatePrimaryKey =>
          refine wp_print hereX (wp_closeIdle streamX (hereX.congr rfl) ⟨hereX.congr rfl, ?_⟩)
          -- without a failing call the rows are those of the table
          obtain ⟨shown, shows, twice⟩ := outcome rfl
          refine .inr ⟨fun gone => ?_, fun _ _ _ _ _ distinct => absurd ?_ twice⟩
          · rw [present] at gone
            cases gone
          · rw [shows.rows found accepted, (trackedU.inv.accepted settled found accepted).2,
              visibleRow_ids]
            exact distinct
        | _ => exact goes_on
      · exact goes_on

end SqlEngine
