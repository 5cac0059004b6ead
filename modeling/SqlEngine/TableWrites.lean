import SqlEngine.JournalFile
import SqlEngine.TableInvariant

/-! Every operation on a table keeps its invariant, wherever it is stopped and whichever
of its calls fail. -/
namespace SqlEngine

open Library Program World Posix

variable {faults : Faults} {regime : Regime} {rows : List Row} {kept : Nat} {w u v : World}
    {table : Table}
  {tableName : Bytes} {h : Nat} {file : File}

/-! ## The journal -/

/-- What may have happened around the journal of a table. -/
structure AroundJournal (regime : Regime) (tableName : Bytes) (rows : List Row) (kept : Nat)
    (w v : World) : Prop where
  frame : KeptBut (journalPath tableName) w v
  inv : TableInv regime tableName v rows kept
  armed : Armed regime.crashes tableName w rows.length →
    Armed regime.crashes tableName v rows.length
  output : v.output = w.output
  next : w.next ≤ v.next
  streams : ∀ g < w.next, v.streams g = w.streams g

/-- The next insertion is armed. -/
structure ArmedFor (regime : Regime) (tableName : Bytes) (rows : List Row)
    (w v : World) : Prop where
  armed : Armed regime.crashes tableName v rows.length
  settled : (v.entries (tablePath tableName)).earlier regime.crashes = []
  there : (v.file (journalPath tableName)).isSome = true
  fresh : ∀ path, path ≠ journalPath tableName → w.file path = none → v.file path = none

private theorem around_side (inv : TableInv regime tableName w rows kept) {temp : Path}
    (side : journalPath tableName <+: temp) (ne : temp ≠ journalPath tableName)
    (same : SameBut temp w v) : AroundJournal regime tableName rows kept w v := by
  have journal : Kept (w.entries (journalPath tableName)) (v.entries (journalPath tableName)) :=
    Kept.of_eq (same.entries _ (Ne.symm ne))
  have table : Kept (w.entries (tablePath tableName)) (v.entries (tablePath tableName)) :=
    Kept.of_eq (same.entries _ fun eq => journalPath_not_front tableName (eq ▸ side))
  refine ⟨fun path outside => Kept.of_eq (same.entries path fun eq => outside (eq ▸ side)),
    inv.of_kept table journal,
    fun armed => armed.of_kept journal, same.output, same.next, same.streams⟩

private theorem AroundJournal.synced (around : AroundJournal regime tableName rows kept w v) :
    AroundJournal regime tableName rows kept w v.syncDirectory :=
  ⟨fun path outside => (around.frame path outside).trans (syncDirectory_kept v path),
    around.inv.of_kept (syncDirectory_kept v _) (syncDirectory_kept v _),
    fun armed => (around.armed armed).of_kept (syncDirectory_kept v _), around.output, around.next,
      around.streams⟩

private theorem journal_renamed (inv : TableInv regime tableName w rows kept) {temp : Path}
    (side : journalPath tableName <+: temp) (ne : temp ≠ journalPath tableName)
    (same : SameBut temp w v) {journal : File} (synced : journal.older = [])
    (valid : IsJournal tableName rows.length journal.bytes) :
    AroundJournal regime tableName rows kept w
      ((v.rebind (journalPath tableName) (some journal)).rebind temp none) := by
  have apart : tablePath tableName ≠ temp := fun eq => journalPath_not_front tableName (eq ▸ side)
  have table : Kept (w.entries (tablePath tableName))
      (((v.rebind (journalPath tableName) (some journal)).rebind temp none).entries
        (tablePath tableName)) := by
    refine Kept.of_eq ?_
    rw [entries_rebind_ne apart, entries_rebind_ne (journalPath_ne_tablePath tableName).symm,
      same.entries _ apart]
  have now : ((v.rebind (journalPath tableName) (some journal)).rebind temp none).file
      (journalPath tableName) =
      some journal := by
    rw [World.file, entries_rebind_ne (Ne.symm ne), entries_rebind]
  have before : (((v.rebind (journalPath tableName) (some journal)).rebind temp none).entries
      (journalPath tableName)).before =
      w.file (journalPath tableName) :: (w.entries (journalPath tableName)).before := by
    rw [entries_rebind_ne (Ne.symm ne), entries_rebind, same.entries _ (Ne.symm ne)]
    rfl
  refine ⟨fun path outside => ?_, inv.journaled table now before synced valid,
    fun armed => armed.journaled now before synced valid, same.output, same.next, same.streams⟩
  have away : path ≠ temp := fun eq => outside (eq ▸ side)
  have off : path ≠ journalPath tableName := fun eq => outside (eq ▸ List.prefix_refl _)
  refine Kept.of_eq ?_
  rw [entries_rebind_ne away, entries_rebind_ne off, same.entries _ away]

private theorem armedFor {journal : File} (now : v.file (journalPath tableName) = some journal)
    (synced : journal.older = []) (valid : IsJournal tableName rows.length journal.bytes)
    (clean : regime.crashes = true → ∀ path, (v.entries path).before = [])
    (fresh : ∀ path, path ≠ journalPath tableName → w.file path = none → v.file path = none) :
    ArmedFor regime tableName rows w v := by
  have nothing : ∀ path, (v.entries path).earlier regime.crashes = [] := by
    intro path
    unfold Entry.earlier
    split
    · rename_i crashing
      exact clean crashing path
    · rfl
  refine ⟨?_, nothing _, now ▸ rfl, fresh⟩
  rintro meaning (same | among)
  · exact ⟨journal, same.trans now, synced, valid⟩
  · rw [nothing] at among
    cases among

/-- What putting the journal in place comes to. -/
def Persisted (faults : Faults) (regime : Regime) (tableName : Bytes) (rows : List Row)
    (kept : Nat) (w : World)
    (result : Except TableStatus Unit) (v : World) : Prop :=
  AroundJournal regime tableName rows kept w v ∧ match result with
    | .ok () => ArmedFor regime tableName rows w v
    | .error _ => faults.calls = true

/-- The journal is put in place, or the attempt leaves the table as it was. -/
theorem persistInsertJournal_spec {row : Row} {offset newCount : UInt64}
    (valid : storageValidTableName table.name = true) (inv : TableInv regime table.name w rows kept)
    (sound : regime.crashes = true → faults.unsupported = false)
    (journal : IsJournal table.name rows.length (journalImage table row offset newCount))
    (possible : faults.calls = true ∨ Spare (journalPath table.name) w) :
    wp (Steps faults) (AroundJournal regime table.name rows kept w)
      (persistInsertJournal table row offset newCount)
      (Persisted faults regime table.name rows kept w) w := by
  have renamed : ∀ {x}, Placed table.name (journalImage table row offset newCount) w x →
      AroundJournal regime table.name rows kept w x := by
    rintro x ⟨temp, y, after, side, ne, same, rfl, synced, image⟩
    exact journal_renamed inv side ne same synced (image ▸ journal)
  have armed : ∀ {x y}, Placed table.name (journalImage table row offset newCount) w x →
      y.file = x.file →
      (regime.crashes = true → ∀ path, (y.entries path).before = []) →
        ArmedFor regime table.name rows w y := by
    rintro x y ⟨temp, z, after, side, ne, same, rfl, synced, image⟩ files clean
    refine armedFor ?_ synced (image ▸ journal) clean fun path off gone => ?_
    · rw [files, World.file, entries_rebind_ne (Ne.symm ne), entries_rebind]
    · rw [files]
      by_cases here : path = temp
      · rw [here, file_rebind]
      · rw [World.file, entries_rebind_ne here, entries_rebind_ne off, same.entries _ here]
        exact gone
  have around : ∀ x, Placing table.name (journalImage table row offset newCount) w x →
      AroundJournal regime table.name rows kept w x := by
    intro x placing
    cases placing with
    | aside side ne same => exact around_side inv side ne same
    | placed placed => exact renamed placed
    | synced placed => exact (renamed placed).synced
  refine wp_mono (persistInsertJournal_places valid journal.length possible) around ?_
  rintro (status | _) x placing outcome
  · exact ⟨around x placing, outcome⟩
  · refine ⟨around x placing, ?_⟩
    obtain ⟨u, placed, rfl⟩ | ⟨ignored, placed⟩ := outcome
    · exact armed placed rfl fun _ _ => rfl
    · refine armed placed rfl fun crashing => ?_
      rw [sound crashing] at ignored
      cases ignored

/-! ## The row -/

/-- What holds wherever an operation that keeps the rows is stopped. -/
def TableKept (regime : Regime) (tableName : Bytes) (rows : List Row) (kept : Nat)
    (w v : World) : Prop :=
  KeptBut (tablePath tableName) w v ∧ TableInv regime tableName v rows kept

/-- An open table whose file has a shape; what its handle still buffers agrees with the
shape, and is only there while the journal is armed. -/
structure Held (crashes : Bool) (tableName : Bytes) (shape : Shape) (count h : Nat)
    (w : World) : Prop where
  there : (w.file (tablePath tableName)).isSome = true
  fits : Throughout crashes shape.Fits w (tablePath tableName)
  stream : ∃ position pending,
    w.streams h = some { path := tablePath tableName, position, pending } ∧
    shape.Agrees position pending ∧ (pending ≠ [] → Armed crashes tableName w count)

/-- What a handle holds in a phase of an insertion, it held in front of it. -/
theorem Held.before {shape : Shape} {crashes : Bool} (strict : regime.overlook = false)
    (phase : regime.Phase rows shape)
    (held : Held crashes tableName shape rows.length h w) :
    Held crashes tableName (regime.before rows) rows.length h w := by
  obtain ⟨there, fits, position, pending, stream, agrees, armed⟩ := held
  have less : ∀ i b, (regime.before rows).byte i b → shape.byte i b := by
    rintro i b (fixed | ⟨overlooked, _⟩)
    · exact phase.byte fixed
    · rw [strict] at overlooked
      cases overlooked
  have bound := Nat.le_of_eq phase.limit_eq
  exact ⟨there, fits.mono fun bytes fits => fits.weaken bound less, position, pending, stream,
    agrees.weaken bound less, armed⟩

/-- What a handle holds is not changed by what happens elsewhere. -/
theorem Held.of_kept {crashes : Bool} {shape : Shape} {count : Nat}
    (held : Held crashes tableName shape count h w)
    (sameTable : Kept (w.entries (tablePath tableName)) (v.entries (tablePath tableName)))
    (sameJournal : Kept (w.entries (journalPath tableName)) (v.entries (journalPath tableName)))
    (sameStream : v.streams h = w.streams h) :
    Held crashes tableName shape count h v := by
  obtain ⟨there, fits, position, pending, stream, agrees, armed⟩ := held
  exact ⟨sameTable.same_file ▸ there, fits.congr sameTable.same_file, position, pending,
    sameStream.trans stream, agrees,
    fun buffered => (armed buffered).of_kept sameJournal⟩

/-- What an insertion that succeeds has done. -/
structure RowInserted (regime : Regime) (table : Table) (rows : List Row) (row : Row) (w : World)
    (offset : UInt64) (after : Table) (v : World) : Prop where
  offset : offset.toNat = rowOffset rows.length
  result : after = { table with rowCount := after.rowCount } ∧
    after.rowCount.toNat = rows.length + 1
  inv : TableInv regime table.name v (rows ++ [row]) (rows.length + 1)
  journal : v.file (journalPath table.name) = none
  stream : ∃ position, v.streams table.file =
    some { path := tablePath table.name, position, pending := [] }
  there : (v.file (tablePath table.name)).isSome = true
  output : v.output = w.output
  next : w.next ≤ v.next
  fresh : ∀ path, path ≠ tablePath table.name → w.file path = none → v.file path = none
  bytes : ∀ file position, w.file (tablePath table.name) = some file →
    w.streams table.file = some { path := tablePath table.name, position, pending := [] } →
    ∃ written, v.file (tablePath table.name) = some written ∧
      written.bytes = patch (patch file.bytes (rowOffset rows.length) (storageSerializeRow row)) 0
        (headerBytes after.rowCount)

/-- The content of a file once a row and then the header were written. -/
def insertedBytes (content : Bytes) (n : Nat) (row : Row) (newCount : UInt64) : Bytes :=
  patch (patch content (rowOffset n) (storageSerializeRow row)) 0 (headerBytes newCount)

/-- The row is in its slot, and the header counts it. -/
def RowWritten (table : Table) (rows : List Row) (row : Row) (v : World) : Prop :=
  ∃ file content newCount, v.file (tablePath table.name) = some file ∧
    newCount.toNat = rows.length + 1 ∧
    file.bytes = insertedBytes content rows.length row newCount

/-- Where an insertion that fails leaves the table: not inserted, with the journal if
anything was written, or inserted with the removal of the journal not yet durable. -/
inductive RowRefused (regime : Regime) (table : Table) (rows : List Row) (row : Row) (kept : Nat)
    (v : World) : Prop where
  | undone {shape : Shape} (inv : TableInv regime table.name v rows kept)
      (phase : regime.Phase rows shape)
      (held : Held regime.crashes table.name shape rows.length table.file v) :
        RowRefused regime table rows row kept v
  | stands {position : Nat} (inv : TableInv regime table.name v (rows ++ [row]) kept)
      (journal : v.file (journalPath table.name) = none) (written : RowWritten table rows row v)
      (stream : v.streams table.file =
        some { path := tablePath table.name, position, pending := [] }) :
      RowRefused regime table rows row kept v

/-- Why an insertion may fail: a call does, no file is that large, or bytes of an earlier
attempt were left to be written. -/
def MayFail (faults : Faults) (table : Table) (rows : List Row) (w : World) : Prop :=
  faults.calls = true ∨ maxFileSize < rowOffset rows.length + 36 ∨
    ¬ ∃ position, w.streams table.file =
      some { path := tablePath table.name, position, pending := [] }

/-- What an insertion comes to. -/
def InsertPost (faults : Faults) (regime : Regime) (table : Table) (rows : List Row) (row : Row)
    (kept : Nat)
    (w : World) (result : Except TableStatus (UInt64 × Table)) (v : World) : Prop :=
  v.output = w.output ∧ w.next ≤ v.next ∧ match result with
    | .ok (offset, after) => RowInserted regime table rows row w offset after v
    | .error _ => MayFail faults table rows w ∧ RowRefused regime table rows row kept v

/-- What holds wherever an insertion is stopped. -/
def InsertInv (regime : Regime) (tableName : Bytes) (rows : List Row) (row : Row) (kept : Nat)
    (w v : World) : Prop :=
  KeptBut (tablePath tableName) w v ∧
    (TableInv regime tableName v rows kept ∨ TableInv regime tableName v (rows ++ [row]) kept)

section Insert

variable {shape : Shape} {row : Row} {x : World} {offset newCount : UInt64}

/-- `storage_insert_row` up to the sync of the header: the offset of the row and the new count. -/
def insertUncommitted (table : Table)
    (row : Row) : Prog (Except TableStatus (UInt64 × UInt64)) := do
  if !table.writable then return .error .readOnly
  let some offset := storageOffsetForRow table.rowCount | return .error .ioError
  if offset.toNat > LONG_MAX then return .error .ioError
  let some newCount := utilAddU64 table.rowCount 1 | return .error .ioError
  let some _journalPath := storageJournalPath table.name 128 | return .error .ioError
  match ← persistInsertJournal table row offset newCount with
  | .error status => return .error status
  | .ok () =>
    match ← fseek table.file (some offset.toNat) with
    | .error _ => return .error .ioError
    | .ok () =>
      if !(← writeFields table.file [storageSerializeRow row]) then return .error .ioError
      if !(← utilFlushAndSync table.file) then return .error .durabilityError
      match ← writeHeader table.file newCount with
      | .error _ => return .error .durabilityError
      | .ok () =>
        if !(← utilFlushAndSync table.file) then return .error .durabilityError
        return .ok (offset, newCount)

/-- The rest of `storage_insert_row`: the removal of the journal, and the sync behind it. -/
def commitInsert (table : Table) (offset newCount : UInt64) :
    Prog (Except TableStatus (UInt64 × Table)) := do
  match ← unlink (journalPath table.name) with
  | .error _ => return .error .durabilityError
  | .ok () =>
    if !(← utilSyncParentDirectory (journalPath table.name)) then return .error .durabilityError
    return .ok (offset, { table with rowCount := newCount })

/-- An insertion writes the row under its journal, and commits it then. -/
theorem storageInsertRow_eq (row : Row) (valid : storageValidTableName table.name = true) :
    storageInsertRow table row = insertUncommitted table row >>= fun
      | .error status => Pure.pure (.error status)
      | .ok (offset, newCount) => commitInsert table offset newCount := by
  unfold storageInsertRow insertUncommitted
  rw [storageJournalPath_valid valid]
  by_cases frozen : (!table.writable) = true
  · rw [if_pos frozen, if_pos frozen]
    rfl
  rw [if_neg frozen, if_neg frozen]
  cases storageOffsetForRow table.rowCount with
  | none => rfl
  | some offset =>
    show (if offset.toNat > LONG_MAX then _ else _) = (if offset.toNat > LONG_MAX then _ else _) >>=
        _
    by_cases far : offset.toNat > LONG_MAX
    · rw [if_pos far, if_pos far]
      rfl
    rw [if_neg far, if_neg far]
    cases utilAddU64 table.rowCount 1 with
    | none => rfl
    | some newCount =>
      refine bind_cut fun persisted => ?_
      rcases persisted with _ | _
      · rfl
      refine bind_cut fun sought => ?_
      rcases sought with _ | _
      · rfl
      refine bind_cut fun written => ?_
      cases written
      · rfl
      refine bind_cut fun synced => ?_
      cases synced
      · rfl
      refine bind_cut fun headed => ?_
      rcases headed with _ | _
      · rfl
      refine bind_cut fun synced => ?_
      cases synced <;> rfl

private theorem AroundJournal.frame_table (around : AroundJournal regime tableName rows kept w v) :
    KeptBut (tablePath tableName) w v := fun path outside =>
  around.frame path fun journal => outside ((tablePath_prefix_journalPath tableName).trans journal)

private theorem AroundJournal.sameTable (around : AroundJournal regime tableName rows kept w v) :
    Kept (w.entries (tablePath tableName)) (v.entries (tablePath tableName)) :=
  around.frame _ (journalPath_not_front tableName)

private theorem AroundJournal.held {crashes : Bool}
    (around : AroundJournal regime tableName rows kept w v) (same : crashes = regime.crashes)
    (held : Held crashes tableName shape rows.length h w) (old : h < w.next) :
    Held crashes tableName shape rows.length h v := by
  obtain ⟨there, fits, position, pending, stream, agrees, armed⟩ := held
  subst same
  refine ⟨around.sameTable.same_file ▸ there, fits.congr around.sameTable.same_file, position,
    pending, ?_, agrees,
    fun buffered => around.armed (armed buffered)⟩
  rw [around.streams h old, stream]

private theorem agrees_row (regime : Regime) (rows : List Row) (row : Row) :
    (regime.before rows).Agrees (rowOffset rows.length) (storageSerializeRow row) := by
  have ends := rowsEnd_succ rows.length
  have behind : (countedShape (regime.limit (rows.length + 1)) rows).Agrees (rowOffset rows.length)
      (storageSerializeRow row) := by
    refine agrees_behind (Nat.le_refl _) ?_
    rw [length_storageSerializeRow, ← ends]
    exact Nat.le_max_right _ _
  exact behind.weaken (Nat.le_refl _) fun i b fixed => fixed.imp id And.right

private theorem fits_row {bytes : Bytes} (fits : (regime.before rows).Fits
      (patch bytes (rowOffset rows.length) (storageSerializeRow row))) :
    (regime.after rows row).Fits
      (patch bytes (rowOffset rows.length) (storageSerializeRow row)) := by
  refine ⟨fits.length, fun i b fixed => ?_⟩
  rcases rowsByte_append fixed with old | ⟨j, inside, rfl, rfl⟩
  · exact fits.byte i b (.inl old)
  · rw [getD_patch, if_pos (by rw [length_storageSerializeRow]; omega), Nat.add_sub_cancel_left]

private theorem fits_header {bytes : Bytes} {newCount : UInt64}
    (counted : newCount.toNat = rows.length + 1)
    (fits : (regime.after rows row).Fits (patch bytes 0 (headerBytes newCount))) :
    (countedShape (regime.limit (rows ++ [row]).length) (rows ++ [row])).Fits
      (patch bytes 0 (headerBytes newCount)) := by
  have length : (rows ++ [row]).length = rows.length + 1 := List.length_append
  refine ⟨?_, ?_⟩
  · have bound := fits.length
    rwa [Regime.after, rowsShape, ← length] at bound
  · rintro i b (old | count)
    · exact fits.byte i b old
    · have within := countByte_bounds count
      rw [getD_patch, if_pos (by rw [length_headerBytes]; omega), Nat.sub_zero]
      rw [length, ← counted] at count
      exact getD_headerBytes count

/-- An insertion whose journal is armed. -/
structure Underway (regime : Regime) (table : Table) (rows : List Row) (kept : Nat)
    (w x : World) : Prop where
  frame : KeptBut (tablePath table.name) w x
  output : x.output = w.output
  next : w.next ≤ x.next
  inv : TableInv regime table.name x rows kept
  armed : Armed regime.crashes table.name x rows.length
  settled : (x.entries (tablePath table.name)).earlier regime.crashes = []
  there : (x.file (journalPath table.name)).isSome = true
  fresh : ∀ path, path ≠ journalPath table.name → path ≠ tablePath table.name →
    w.file path = none → x.file path = none

private theorem Underway.writes (underway : Underway regime table rows kept w u)
    (phase : regime.Phase rows shape)
    (fits : Throughout regime.crashes shape.Fits u (tablePath table.name))
    (writes : Writes regime.crashes (· = shape) (tablePath table.name) table.file u x) :
    Underway regime table rows kept w x ∧
      Held regime.crashes table.name shape rows.length table.file x := by
  have journal := writes.entries _ (journalPath_ne_tablePath table.name)
  have armed := underway.armed.of_kept (Kept.of_eq journal)
  have fits' := writes.fits shape rfl fits
  obtain ⟨position, pending, stream, agrees⟩ := writes.stream
  refine ⟨⟨?_, writes.output.trans underway.output, writes.next ▸ underway.next, ?_, armed, ?_,
      ?_, ?_⟩,
    ⟨writes.there, fits', position, pending, stream, agrees shape rfl, fun _ => armed⟩⟩
  · exact underway.frame.trans fun path outside => writes.kept fun eq =>
      outside (eq ▸ List.prefix_refl _)
  · exact underway.inv.write underway.armed
      (Kept.of_eq journal) writes.before writes.there phase fits'
  · have settled := underway.settled
    unfold Entry.earlier at settled ⊢
    rwa [writes.before]
  · rw [World.file, journal]
    exact underway.there
  · intro path offJournal offTable gone
    rw [World.file, writes.entries path offTable]
    exact underway.fresh path offJournal offTable gone

/-- An insertion of which nothing but the removal of its journal is left. -/
structure Uncommitted (regime : Regime) (table : Table) (rows : List Row) (row : Row)
    (kept : Nat) (w : World)
    (offset newCount : UInt64) (x : World) : Prop where
  underway : Underway regime table rows kept w x
  held : Held regime.crashes table.name (regime.after rows row) rows.length table.file x
  stream : x.streams table.file =
    some { path := tablePath table.name, position := 64, pending := [] }
  offset : offset.toNat = rowOffset rows.length
  counted : newCount.toNat = rows.length + 1
  fits : Throughout regime.crashes
    (countedShape (regime.limit (rows ++ [row]).length) (rows ++ [row])).Fits x
    (tablePath table.name)
  written : ∃ file content, x.file (tablePath table.name) = some file ∧
    file.bytes = insertedBytes content rows.length row newCount ∧
    ∀ before position, w.file (tablePath table.name) = some before →
      w.streams table.file = some { path := tablePath table.name, position, pending := [] } →
        content = before.bytes

/-- What the part of an insertion in front of its commit comes to. -/
def UncommittedPost (faults : Faults) (regime : Regime) (table : Table) (rows : List Row)
    (row : Row) (kept : Nat)
    (w : World) (result : Except TableStatus (UInt64 × UInt64)) (v : World) : Prop :=
  match result with
  | .ok (offset, newCount) => Uncommitted regime table rows row kept w offset newCount v
  | .error _ => v.output = w.output ∧ w.next ≤ v.next ∧ MayFail faults table rows w ∧
      ∃ shape, regime.Phase rows shape ∧ TableInv regime table.name v rows kept ∧
        Held regime.crashes table.name shape rows.length table.file v

private theorem Underway.stop (faults : Faults) (row : Row)
    (underway : Underway regime table rows kept w x) (phase : regime.Phase rows shape)
    (held : Held regime.crashes table.name shape rows.length table.file x) :
    TableKept regime table.name rows kept w x ∧ ∀ status, MayFail faults table rows w →
      wp (Steps faults) (TableKept regime table.name rows kept w) (Pure.pure (Except.error status))
        (UncommittedPost faults regime table rows row kept w) x :=
  ⟨⟨underway.frame, underway.inv⟩, fun _ why =>
    ⟨⟨underway.frame, underway.inv⟩, underway.output, underway.next, why, shape, phase,
      underway.inv, held⟩⟩

private theorem insert_header (underway : Underway regime table rows kept w u)
    (fine : regime.fine (rows ++ [row]))
    (stream : u.streams table.file = some { path := tablePath table.name, position, pending := [] })
    (placed : offset.toNat = rowOffset rows.length) (counted : newCount.toNat = rows.length + 1)
    (found : u.file (tablePath table.name) = some written)
    (fits : Throughout regime.crashes (regime.after rows row).Fits u (tablePath table.name))
    (image : ∃ content, written.bytes = patch content (rowOffset rows.length)
      (storageSerializeRow row) ∧
      ∀ before position, w.file (tablePath table.name) = some before →
        w.streams table.file = some { path := tablePath table.name, position, pending := [] } →
        content = before.bytes) :
    wp (Steps faults) (TableKept regime table.name rows kept w) (do
      match ← writeHeader table.file newCount with
      | .error _ => return .error .durabilityError
      | .ok () =>
        if !(← utilFlushAndSync table.file) then return .error .durabilityError
        return .ok (offset, newCount))
      (UncommittedPost faults regime table rows row kept w) u := by
  have phase : regime.Phase rows (regime.after rows row) := .after fine
  have begun : Writes regime.crashes (· = regime.after rows row)
      (tablePath table.name) table.file u u :=
    .start (Option.isSome_iff_exists.mpr ⟨_, found⟩) stream fun _ _ => Shape.agrees_nil
  have moving : ∀ x, Writes regime.crashes (· = regime.after rows row)
      (tablePath table.name) table.file u x →
      TableKept regime table.name rows kept w x := fun x writes =>
    have later := underway.writes phase fits writes
    (later.1.stop faults row phase later.2).1
  have stop : ∀ x status, faults.calls = true →
      Writes regime.crashes (· = regime.after rows row) (tablePath table.name) table.file u x →
      wp (Steps faults) (TableKept regime table.name rows kept w) (Pure.pure (Except.error status))
        (UncommittedPost faults regime table rows row kept w) x := fun x status calls writes =>
    have later := underway.writes phase fits writes
    (later.1.stop faults row phase later.2).2 status (.inl calls)
  have kept_header : HeaderKept newCount.toNat (regime.after rows row) :=
    headerKept_rows (limit_ge _ _)
  refine Writes.wp_header begun stream found (fun shape same => same ▸ kept_header.agrees) moving
    (fun x headed writes moved there content => ?_) fun calls x writes => stop x _ calls writes
  refine Writes.wp_flushAndSync writes moved there moving
    (fun x final writes still there synced same => ?_)
    fun why x writes => stop x _ (why.resolve_right (not_not_intro (.inl rfl))) writes
  have later := underway.writes phase fits writes
  have exact_bytes : final.bytes = patch written.bytes 0 (headerBytes newCount) := by
    rw [same, patch_nil, content]
  have fits' := (writes.fits _ rfl fits).bytes there
  rw [exact_bytes] at fits'
  obtain ⟨content, image, unbuffered⟩ := image
  simp only [Bool.not_true, Bool.false_eq_true, ↓reduceIte]
  exact ⟨moving x writes, later.1, later.2, still, placed, counted,
    throughout_synced there synced (exact_bytes ▸ fits_header counted fits'), final, content, there,
    by rw [exact_bytes, image, insertedBytes], unbuffered⟩

/-- An insertion up to its commit. -/
theorem insertUncommitted_spec (valid : storageValidTableName table.name = true)
    (inv : TableInv regime table.name w rows kept) (writable : table.writable = true)
    (counted : table.rowCount.toNat = rows.length) (old : table.file < w.next)
    (held : Held regime.crashes table.name (regime.before rows) rows.length table.file w)
    (fine : regime.fine (rows ++ [row]))
    (sound : regime.crashes = true → faults.unsupported = false)
    (possible : faults.calls = true ∨ Spare (journalPath table.name) w) :
    wp (Steps faults) (TableKept regime table.name rows kept w) (insertUncommitted table row)
      (UncommittedPost faults regime table rows row kept w) w := by
  have parts := storageValidTableName_parts valid
  have start : TableKept regime table.name rows kept w w := ⟨.refl _ w, inv⟩
  have refused : MayFail faults table rows w → ∀ status,
      UncommittedPost faults regime table rows row kept w (.error status) w :=
    fun why _ => ⟨rfl, Nat.le_refl _, why, _, .before, inv, held⟩
  have ends := rowsEnd_le_rowOffset rows.length
  have longMax : LONG_MAX = maxFileSize := rfl
  unfold insertUncommitted
  cases placed : storageOffsetForRow table.rowCount with
  | none =>
    simp only [writable, Bool.not_true, Bool.false_eq_true, ↓reduceIte]
    refine ⟨start, refused (.inr (.inl ?_)) _⟩
    apply Nat.lt_of_not_le
    intro small
    unfold maxFileSize at small
    have below : rowOffset table.rowCount.toNat < 2 ^ 64 := by
      rw [counted]
      omega
    obtain ⟨offset, found, _⟩ := storageOffsetForRow_fits below
    rw [placed] at found
    cases found
  | some offset =>
    have position : offset.toNat = rowOffset rows.length :=
      counted ▸ storageOffsetForRow_iff.mp placed
    rw [if_neg (by simp [writable])]
    simp only [position, longMax, gt_iff_lt]
    split
    · exact ⟨start, refused (.inr (.inl (by omega))) _⟩
    · rename_i small
      have few : rows.length < 2 ^ 63 := by
        have least : rows.length ≤ rowOffset rows.length := by
          unfold rowOffset
          omega
        unfold maxFileSize at small
        omega
      have next : utilAddU64 table.rowCount 1 = some (.ofNat (rows.length + 1)) := by
        rw [utilAddU64_iff, counted, toNat_ofNat (by omega)]
        rfl
      have newCount : (UInt64.ofNat (rows.length + 1)).toNat = rows.length + 1 :=
        toNat_ofNat (by omega)
      rw [next, storageJournalPath_valid valid]
      have journal : IsJournal table.name table.rowCount.toNat
          (journalImage table row offset (.ofNat (rows.length + 1))) :=
        journalImage_valid parts next placed (by rw [counted]; omega)
      rw [counted] at journal
      refine wp_seq (persistInsertJournal_spec valid inv sound journal possible)
        (fun v around => ⟨around.frame_table, around.inv⟩) ?_
      rintro (status | _) u _ ⟨around, armed⟩
      · exact ⟨⟨around.frame_table, around.inv⟩, around.output, around.next, .inl armed, _,
          .before, around.inv,
          around.held rfl held old⟩
      · -- The journal is armed: every write until its removal keeps a phase.
        obtain ⟨there, fits, p, pending, stream, agrees, _⟩ := around.held rfl held old
        have underway : Underway regime table rows kept w u :=
          ⟨around.frame_table, around.output, around.next, around.inv, armed.armed, armed.settled,
            armed.there,
            fun path offJournal _ => armed.fresh path offJournal⟩
        have begun : Writes regime.crashes (· = regime.before rows)
            (tablePath table.name) table.file u u :=
          .start there stream fun shape same => same ▸ agrees
        have moving : ∀ x, Writes regime.crashes (· = regime.before rows)
            (tablePath table.name) table.file u x →
            TableKept regime table.name rows kept w x := fun x writes =>
          have later := underway.writes .before fits writes
          (later.1.stop faults row .before later.2).1
        have stop : ∀ x status, MayFail faults table rows w →
            Writes regime.crashes (· = regime.before rows) (tablePath table.name) table.file u x →
            wp (Steps faults) (TableKept regime table.name rows kept w)
              (Pure.pure (Except.error status))
              (UncommittedPost faults regime table rows row kept w) x := fun x status why writes =>
          have later := underway.writes .before fits writes
          (later.1.stop faults row .before later.2).2 status why
        have streamW : w.streams table.file =
            some { path := tablePath table.name, position := p, pending } := by
          rw [← around.streams _ old, stream]
        obtain ⟨file, found⟩ := Option.isSome_iff_exists.mp there
        dsimp only
        refine wp_fseek stream (moving _ begun) (fun room => ?_) fun why error written kept' => ?_
        · have seeked := (begun.passOn ⟨tablePath table.name, p, pending⟩ rfl
            (fun shape same => same ▸ agrees) pending.length 0).setStream (rowOffset rows.length) []
            fun _ _ => Shape.agrees_nil
          obtain ⟨flushed, foundF⟩ := Option.isSome_iff_exists.mp seeked.there
          refine Writes.wp_fields seeked (streams_setStream ..) (fun shape same => ?_) moving
            (fun x writes buffered entries => ?_) fun calls x writes => stop x _ (.inl calls) writes
          · subst same
            simpa using agrees_row regime rows row
          · rw [List.flatten_singleton, List.nil_append] at buffered
            simp only [Bool.not_true, Bool.false_eq_true, ↓reduceIte]
            refine Writes.wp_flushAndSync writes buffered
              ((file_congr entries _).trans foundF) moving
              (fun x final writes stream there synced same => ?_) fun why x writes => ?_
            · have later := underway.writes .before fits writes
              have fits' := (writes.fits _ rfl fits).bytes there
              rw [same] at fits'
              simp only [Bool.not_true, Bool.false_eq_true, ↓reduceIte]
              refine insert_header later.1 fine stream position newCount there
                (throughout_synced there synced (same ▸ fits_row fits')) ⟨flushed.bytes, same, ?_⟩
              intro before position foundW unbuffered
              rw [streamW] at unbuffered
              cases unbuffered
              simp only [passOn_nil, file_setStream, around.sameTable.same_file, foundW,
                Option.some.injEq] at foundF
              rw [foundF]
            · refine stop x _ (why.imp id fun tight => .inl ?_) writes
              have length := length_storageSerializeRow row
              apply Nat.lt_of_not_le
              intro room
              exact tight (.inr (by omega))
        · refine stop _ _ ?_ (begun.passOn _ rfl (fun shape same => same ▸ agrees) written kept')
          refine why.imp id fun tight => .inr ?_
          rintro ⟨position, unbuffered⟩
          rw [streamW] at unbuffered
          cases unbuffered
          exact tight (.inl rfl)

/-- The removal of the journal, and the sync behind it. -/
theorem commitInsert_spec (valid : storageValidTableName table.name = true)
    (uncommitted : Uncommitted regime table rows row kept w offset newCount x)
    (fine : regime.fine (rows ++ [row]))
    (sound : regime.crashes = true → faults.unsupported = false) :
    wp (Steps faults) (InsertInv regime table.name rows row kept w)
      (commitInsert table offset newCount)
      (InsertPost faults regime table rows row kept w) x := by
  have length : (rows ++ [row]).length = rows.length + 1 := List.length_append
  obtain ⟨⟨frame, output, next, inv, armed, settled, there, fresh⟩, held, stream, placed,
      counted, fits,
    file, content,
    found, image, unbuffered⟩ := uncommitted
  have apart := journalPath_ne_tablePath table.name
  have behind := tablePath_prefix_journalPath table.name
  have sameTable : (x.rebind (journalPath table.name) none).entries (tablePath table.name) =
      x.entries (tablePath table.name) := entries_rebind_ne (Ne.symm apart) _
  have now : (x.rebind (journalPath table.name) none).file (journalPath table.name) = none :=
    file_rebind ..
  have small : (rows ++ [row]).length < 2 ^ 64 := by
    rw [length, ← counted]
    exact newCount.toNat_lt
  have done := inv.commit armed settled held.there fine small fits (Kept.of_eq sameTable) now
    (congrArg Entry.before (entries_rebind ..))
  have framed : KeptBut (tablePath table.name) w (x.rebind (journalPath table.name) none) :=
    frame.trans fun path outside =>
      Kept.of_eq (entries_rebind_ne (fun eq => outside (by rwa [eq])) _)
  have here : InsertInv regime table.name rows row kept w x := ⟨frame, .inl inv⟩
  have stopped : InsertInv regime table.name rows row kept w
      (x.rebind (journalPath table.name) none) :=
    ⟨framed, .inr done⟩
  have stopped' : InsertInv regime table.name rows row kept w
      (x.rebind (journalPath table.name) none).syncDirectory :=
    ⟨framed.trans fun path _ => syncDirectory_kept _ path,
      .inr (done.of_kept (syncDirectory_kept _ _) (syncDirectory_kept _ _))⟩
  have foundT : (x.rebind (journalPath table.name) none).file (tablePath table.name) =
      some file := by
    rw [World.file, sameTable]
    exact found
  have failing : ∀ y, y = x.rebind (journalPath table.name) none ∨
      y = (x.rebind (journalPath table.name) none).syncDirectory → faults.calls = true →
      wp (Steps faults) (InsertInv regime table.name rows row kept w)
        (Pure.pure (Except.error TableStatus.durabilityError))
        (InsertPost faults regime table rows row kept w) y := by
    rintro y (rfl | rfl) calls
    · exact ⟨stopped, output, next, .inl calls,
        .stands done now ⟨file, content, newCount, foundT, counted, image⟩ stream⟩
    · exact ⟨stopped', output, next, .inl calls,
        .stands (done.of_kept (syncDirectory_kept _ _) (syncDirectory_kept _ _)) now
          ⟨file, content, newCount, foundT, counted, image⟩ stream⟩
  -- with nothing that could come back, the row is kept
  have success : ∀ y, y = x.rebind (journalPath table.name) none ∨
      y = (x.rebind (journalPath table.name) none).syncDirectory →
      TableInv regime table.name y (rows ++ [row]) (rows.length + 1) →
      InsertInv regime table.name rows row kept w y →
      wp (Steps faults) (InsertInv regime table.name rows row kept w)
        (Pure.pure (Except.ok (offset, { table with rowCount := newCount })))
        (InsertPost faults regime table rows row kept w) y := by
    intro y which final stop
    have same : y.file = (x.rebind (journalPath table.name) none).file ∧ y.streams = x.streams ∧
        y.output = x.output ∧ y.next = x.next := by
      rcases which with rfl | rfl <;> exact ⟨rfl, rfl, rfl, rfl⟩
    obtain ⟨files, streams, outputs, nexts⟩ := same
    refine ⟨stop, outputs.trans output, nexts ▸ next, placed, ⟨rfl, counted⟩, final, ?_,
      ⟨64, ?_⟩, ?_,
      outputs.trans output, nexts ▸ next, ?_, ?_⟩
    · rw [files]
      exact now
    · rw [streams]
      exact stream
    · rw [files, foundT]
      rfl
    · intro path offTable gone
      rw [files]
      by_cases journal : path = journalPath table.name
      · rw [journal]
        exact now
      · rw [World.file, entries_rebind_ne journal]
        exact fresh path journal offTable gone
    · intro before position foundW buffered
      rw [files]
      exact ⟨file, foundT, by rw [image, insertedBytes, unbuffered before position foundW buffered]⟩
  refine wp_unlink here (fun _ => ?_) (fun gone => ?_) fun calls _ => ?_
  · dsimp only
    refine wp_utilSyncParentDirectory
      (journalPath_noSlash (storageValidTableName_parts valid)) stopped ?_
      (fun calls ignored => ?_) (failing _ (.inl rfl)) (failing _ (.inr rfl))
    · refine success _ (.inr rfl) ?_ stopped'
      rw [← length]
      refine (done.of_kept (syncDirectory_kept _ _) (syncDirectory_kept _ _)).settled ?_
      rintro journal (same | among)
      · rw [file_syncDirectory, now] at same
        cases same
      · unfold Entry.earlier at among
        split at among <;> cases among
    · refine success _ (.inl rfl) ?_ stopped
      rw [← length]
      refine done.settled ?_
      have safe : regime.crashes = false := by
        cases crashing : regime.crashes with
        | false => rfl
        | true =>
          rw [sound crashing] at ignored
          cases ignored
      rintro journal (same | among)
      · rw [now] at same
        cases same
      · unfold Entry.earlier at among
        rw [safe] at among
        cases among
  · rw [gone] at there
    cases there
  · exact ⟨here, output, next, .inl calls, .undone inv (.after fine) held⟩

/-- An insertion: it takes effect as a whole, or is undone by its journal. -/
theorem storageInsertRow_spec (valid : storageValidTableName table.name = true)
    (inv : TableInv regime table.name w rows kept) (writable : table.writable = true)
    (counted : table.rowCount.toNat = rows.length) (old : table.file < w.next)
    (held : Held regime.crashes table.name (regime.before rows) rows.length table.file w)
    (fine : regime.fine (rows ++ [row]))
    (sound : regime.crashes = true → faults.unsupported = false)
    (possible : faults.calls = true ∨ Spare (journalPath table.name) w) :
    wp (Steps faults) (InsertInv regime table.name rows row kept w) (storageInsertRow table row)
      (InsertPost faults regime table rows row kept w) w := by
  rw [storageInsertRow_eq row valid]
  refine wp_seq (insertUncommitted_spec valid inv writable counted old held fine sound possible)
    (fun v kept => ⟨kept.1, .inl kept.2⟩) ?_
  rintro (status | ⟨offset, newCount⟩) v ⟨frame, inv'⟩ outcome
  · obtain ⟨output, next, why, shape, phase, inv, held⟩ := outcome
    exact ⟨⟨frame, .inl inv⟩, output, next, why, .undone inv phase held⟩
  · exact commitInsert_spec valid outcome fine sound

end Insert

end SqlEngine
