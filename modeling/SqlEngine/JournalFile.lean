import SqlEngine.JournalProofs
import SqlEngine.TableReads

/-! The journal as a file: how it is put in place, and recovery beside any journal and any
table file. What recovery refuses it leaves alone, and otherwise the journal alone decides
how many rows there are. -/
namespace SqlEngine

open Library Program World Posix

variable {faults : Faults} {inv : World → Prop} {w u v x : World} {tableName : Bytes} {h : Nat}
    {file journal : File}
  {count : UInt64} {size : Nat}

/-! ## Writing -/

/-- A file was written on the side, and has replaced the journal. -/
structure Placed (tableName image : Bytes) (w v : World) : Prop where
  renamed : ∃ temp x after, journalPath tableName <+: temp ∧ temp ≠ journalPath tableName ∧
    SameBut temp w x ∧
    v = (x.rebind (journalPath tableName) (some after)).rebind temp none ∧ after.older = [] ∧
      after.bytes = image

/-- The points at which putting a journal in place may be stopped: with a file on the
side, with the journal replaced, and with that durable. -/
inductive Placing (tableName image : Bytes) (w : World) : World → Prop where
  | aside {temp : Path} {after : World} (side : journalPath tableName <+: temp)
      (ne : temp ≠ journalPath tableName)
      (same : SameBut temp w after) : Placing tableName image w after
  | placed {after : World} (placed : Placed tableName image w after) :
      Placing tableName image w after
  | synced {after : World} (placed : Placed tableName image w after) :
      Placing tableName image w after.syncDirectory

/-- What putting a journal in place comes to. -/
def JournalPlaced (faults : Faults) (tableName image : Bytes) (w : World)
    (result : Except TableStatus Unit)
    (v : World) : Prop :=
  match result with
  | .ok () => (∃ u, Placed tableName image w u ∧ v = u.syncDirectory) ∨
      faults.unsupported = true ∧ Placed tableName image w v
  | .error _ => faults.calls = true

/-- A journal is written on the side, synced, and then put in place. -/
theorem persistInsertJournal_places {table : Table} {row : Row} {offset newCount : UInt64}
    (valid : storageValidTableName table.name = true)
    (length : (journalImage table row offset newCount).length = JOURNAL_SIZE)
    (possible : faults.calls = true ∨ Spare (journalPath table.name) w) :
    wp (Steps faults) (Placing table.name (journalImage table row offset newCount) w)
      (persistInsertJournal table row offset newCount)
      (JournalPlaced faults table.name (journalImage table row offset newCount) w) w := by
  have parts := storageValidTableName_parts valid
  unfold persistInsertJournal
  rw [storageJournalPath_valid valid]
  dsimp only
  generalize named_image : journalImage table row offset newCount = image at length ⊢
  have room : (journalPath table.name).length + 12 ≤ 160 := by
    have short := parts.short
    simp only [journalPath, List.length_append]
    have suffix : (str ".tbl.journal").length = 12 := by decide
    omega
  have aside : ∀ suffix v, SameBut (journalPath table.name ++ str ".tmp." ++ suffix) w v →
      Placing table.name image w v :=
    fun suffix v same => .aside (prefix_temp _ _) temp_ne same
  refine wp_utilSecureTempFile room (fun suffix v _ same => aside suffix v same) possible
    (fun suffix portable fresh => ?_) fun calls errno suffix v _ same => ?_
  · generalize named : journalPath table.name ++ str ".tmp." ++ suffix = temp at fresh ⊢
    have side : journalPath table.name <+: temp := named ▸ prefix_temp _ _
    have ne : temp ≠ journalPath table.name := named ▸ temp_ne
    have aside : ∀ v, SameBut temp w v → Placing table.name image w v :=
      fun v same => .aside side ne same
    have start := writesAside_start temp w
    have same := sameBut_aside start
    have opened : ((w.rebind temp (some emptyFile)).opened temp).streams w.next =
        some { path := temp, position := 0, pending := [] } := streams_setStream ..
    have found : ((w.rebind temp (some emptyFile)).opened temp).file temp = some emptyFile :=
      file_rebind ..
    have moving : ∀ x, WritesAside temp w x → Placing table.name image w x :=
      fun x writes => aside x (sameBut_aside writes)
    -- every way out in front of the rename leaves the journal alone
    have failing : ∀ status v, faults.calls = true → SameBut temp w v →
        wp (Steps faults) (Placing table.name image w) (Pure.pure (Except.error status))
          (JournalPlaced faults table.name image w) v :=
      fun status v calls same => ⟨aside v same, calls⟩
    have unlinking : ∀ status v, faults.calls = true → SameBut temp w v →
        wp (Steps faults) (Placing table.name image w)
          (unlink temp >>= fun _ => Pure.pure (Except.error status))
          (JournalPlaced faults table.name image w) v :=
      fun status v calls same => wp_unlink_aside aside (fun _ _ => calls) same
    have discarding : ∀ x, faults.calls = true → WritesAside temp w x →
        wp (Steps faults) (Placing table.name image w)
          (discard w.next temp >>= fun _ => Pure.pure (Except.error TableStatus.durabilityError))
          (JournalPlaced faults table.name image w) x :=
      fun x calls writes => wp_discard_aside aside (fun _ _ => calls) writes
    dsimp only
    refine wp_fdopen (aside _ same) ?_ fun calls error => wp_close (aside _ same) ?_ fun _ _ => ?_
    · dsimp only
      refine Writes.wp_fields start opened (fun _ => False.elim) moving
        (fun x writes buffered entries => ?_) fun calls x writes => discarding x calls writes
      have here : x.file temp = some emptyFile := (file_congr entries temp).trans found
      simp only [Bool.not_true, Bool.false_eq_true, ↓reduceIte]
      refine Writes.wp_flushAndSync writes buffered here moving
        (fun x after writes flushed there synced bytes => ?_) fun why x writes => ?_
      · simp only [Bool.not_true, Bool.false_eq_true, ↓reduceIte]
        have sameX := sameBut_aside writes
        have written : after.bytes = image := by
          rw [bytes]
          simp [patch, emptyFile]
        have closed := sameX.setStream (Nat.le_refl _) none
        refine wp_fclose flushed (aside x sameX) (fun _ => ?_) fun why _ _ _ => ?_
        · rw [passOn_nil, setStream_setStream]
          have source : (x.setStream w.next none).file temp = some after := there
          have placed : Placed table.name image w
              (((x.setStream w.next none).rebind (journalPath table.name)
                (some after)).rebind temp none) :=
            ⟨temp, _, after, side, ne, closed, rfl, synced, written⟩
          dsimp only
          refine wp_rename (aside _ closed) source ne ?_ fun calls error => ?_
          · dsimp only
            refine wp_utilSyncParentDirectory (journalPath_noSlash parts) (.placed placed) ?_
              (fun calls ignored => ?_)
              (fun calls => ⟨.placed placed, calls⟩) fun calls => ⟨.synced placed, calls⟩
            · exact ⟨.synced placed, .inl ⟨_, placed, rfl⟩⟩
            · exact ⟨.placed placed, .inr ⟨ignored, placed⟩⟩
          · refine wp_unlink (aside _ closed) (fun _ => ?_) (fun _ => ?_) fun _ _ => ?_
            · split <;> exact failing _ _ calls (closed.rebind none)
            · split <;> exact failing _ _ calls closed
            · split <;> exact failing _ _ calls closed
        · have calls := why.resolve_right (not_not_intro (.inl rfl))
          exact unlinking _ _ calls
            ((sameX.passOn (Nat.le_refl _) rfl _ _ _).setStream (Nat.le_refl _) none)
      · have small : Roomy 0 ([] ++ [image].flatten) := by
          refine .inr ?_
          rw [List.nil_append, List.flatten_singleton, length]
          decide
        exact discarding x (why.resolve_right (not_not_intro small)) writes
    · exact unlinking _ _ calls (same.setStream (Nat.le_refl _) none)
    · exact unlinking _ _ calls (same.setStream (Nat.le_refl _) none)
  · dsimp only
    split <;> exact ⟨aside suffix v same, calls⟩

/-! ## Reading -/

/-- What recovery reads out of a journal file. -/
def acceptedJournal (bytes tableName : Bytes) : Option (UInt64 × Nat) :=
  if bytes.length = JOURNAL_SIZE then validateJournal bytes tableName else none

/-- A journal that is accepted names a row count, and the end of so many rows. -/
theorem acceptedJournal_size {bytes : Bytes}
    (accepted : acceptedJournal bytes tableName = some (count, size)) :
    count = getU64Le (bytes.drop 16) ∧ size = rowsEnd count.toNat ∧ size ≤ maxFileSize := by
  unfold acceptedJournal at accepted
  split at accepted
  · simp only [validateJournal, ne_eq, Option.bind_eq_bind, Option.bind_none,
      Option.ite_none_left_eq_some,
      Option.bind_eq_some_iff, Option.pure_def, Option.some.injEq, Prod.mk.injEq] at accepted
    obtain ⟨_, _, _, _, _, _, _, _, _, _, _, _, oldSize, sized, small, rfl, rfl⟩ := accepted
    exact ⟨rfl, storageLogicalSize_iff.mp sized, Nat.le_of_not_lt small⟩
  · cases accepted

/-- Reading a journal returns all of it, if it has the right length. -/
theorem readJournal_exact {path : Path} (found : w.file path = some file) :
    wp (Steps faults) (fun v => ∃ p, v = w.cursor h path p) (readJournal h)
      (fun result _ => result = (if file.bytes.length = JOURNAL_SIZE then some file.bytes
        else none) ∨
        faults.calls = true ∧ result = none) (w.cursor h path 0) := by
  have length := length_slice file.bytes 0 JOURNAL_SIZE
  unfold readJournal
  refine wp_read_cursor found ⟨_, rfl⟩ ?_ fun calls error => ⟨⟨_, rfl⟩, .inr ⟨calls, rfl⟩⟩
  dsimp only
  rw [Nat.zero_add]
  split
  · rename_i short
    refine ⟨⟨_, rfl⟩, .inl ?_⟩
    rw [if_neg (by omega)]
  · rename_i enough
    have full : (slice file.bytes 0 JOURNAL_SIZE).length = JOURNAL_SIZE := of_not_not enough
    rw [full]
    refine wp_read_cursor found ⟨_, rfl⟩ ?_ fun calls error => ⟨⟨_, rfl⟩, .inr ⟨calls, rfl⟩⟩
    have extra := length_slice file.bytes JOURNAL_SIZE 1
    dsimp only
    split
    · refine ⟨⟨_, rfl⟩, .inl ?_⟩
      rw [if_neg (by omega)]
    · have exact_length : file.bytes.length = JOURNAL_SIZE := by omega
      refine ⟨⟨_, rfl⟩, .inl ?_⟩
      rw [if_pos exact_length, slice, List.drop_zero,
        List.take_of_length_le (Nat.le_of_eq exact_length)]

/-- Without a journal there is nothing to recover. -/
theorem recoverInsertJournal_clean (valid : storageValidTableName tableName = true)
    (gone : w.file (journalPath tableName) = none) :
    wp (Steps faults) (Still w) (recoverInsertJournal h tableName)
      (fun result v => v = w ∧
        (result = .ok () ∨ faults.calls = true ∧ result = .error .durabilityError)) w := by
  unfold recoverInsertJournal
  rw [storageJournalPath_valid valid]
  refine wp_openFile rfl (fun present => ?_) (fun _ => ?_) fun calls error known => ?_
  · rw [gone] at present
    cases present
  · exact ⟨rfl, rfl, .inl rfl⟩
  · dsimp only
    rw [if_neg known]
    exact ⟨rfl, rfl, .inr ⟨calls, rfl⟩⟩

/-- A journal that is not accepted is reported, and nothing is touched. -/
theorem recoverInsertJournal_refuses (valid : storageValidTableName tableName = true)
    (found : w.file (journalPath tableName) = some journal)
    (refused : acceptedJournal journal.bytes tableName = none) :
    wp (Steps faults) (Still w) (recoverInsertJournal h tableName)
      (fun result v => Quiet w v ∧
        (result = .error .corrupt ∨ faults.calls = true ∧ result = .error .durabilityError)) w := by
  have fresh := Quiet.newHandle w
  unfold recoverInsertJournal
  rw [storageJournalPath_valid valid]
  refine wp_openFile rfl (fun _ => ?_) (fun gone => ?_) fun calls error known => ?_
  · rw [opened_eq]
    dsimp only
    refine wp_seq (readJournal_exact (w := { w with next := w.next + 1 }) found)
      (fun v same => ?_) ?_
    · obtain ⟨p, rfl⟩ := same
      exact (fresh _).entries
    · rintro result _ ⟨p, rfl⟩ (rfl | ⟨_, rfl⟩)
      · unfold acceptedJournal at refused
        split
        · rename_i short
          exact wp_close rfl
            ⟨rfl, by rw [World.cursor, setStream_setStream]; exact fresh none, .inl rfl⟩
            fun _ _ => ⟨rfl, by rw [World.cursor, setStream_setStream]; exact fresh none, .inl rfl⟩
        · rename_i bytes read
          split at read
          · rename_i length
            cases read
            rw [if_pos length] at refused
            refine wp_close rfl ?_ fun calls error => ?_
            · rw [World.cursor, setStream_setStream]
              dsimp only
              rw [refused]
              exact ⟨rfl, fresh none, .inl rfl⟩
            · rw [World.cursor, setStream_setStream]
              exact ⟨rfl, fresh none, .inr ⟨calls, rfl⟩⟩
          · cases read
      · refine wp_close rfl ?_ fun _ _ => ?_
        · rw [World.cursor, setStream_setStream]
          exact ⟨rfl, fresh none, .inl rfl⟩
        · rw [World.cursor, setStream_setStream]
          exact ⟨rfl, fresh none, .inl rfl⟩
  · rw [gone] at found
    cases found
  · dsimp only
    rw [if_neg known]
    exact ⟨rfl, .refl w, .inr ⟨calls, rfl⟩⟩

/-- The bytes of a table file behind recovery: a new header, and the size for its rows. -/
def rolledBack (bytes : Bytes) (count : UInt64) (size : Nat) : Bytes :=
  resize (patch bytes 0 (headerBytes count)) size

/-- A table that was rolled back, and its journal removed. -/
structure RolledBack (tableName : Bytes) (h : Nat) (bytes : Bytes) (w v : World) : Prop where
  table : ∃ after, v.file (tablePath tableName) = some after ∧ after.bytes = bytes
  journal : v.file (journalPath tableName) = none
  stream : ∃ position, v.streams h = some { path := tablePath tableName, position, pending := [] }
  output : v.output = w.output
  next : w.next ≤ v.next
  others : ∀ path, path ≠ tablePath tableName → path ≠ journalPath tableName →
    v.file path = w.file path

/-- A journal that is accepted is believed, whatever the table file holds. -/
theorem recoverInsertJournal_rollsBack (valid : storageValidTableName tableName = true)
    (table : w.file (tablePath tableName) = some file)
    (found : w.file (journalPath tableName) = some journal)
    (accepted : acceptedJournal journal.bytes tableName = some (count, size)) (old : h < w.next)
    (opened : w.streams h = some { path := tablePath tableName, position := 0, pending := [] }) :
    wp (Steps faults) (fun _ => True) (recoverInsertJournal h tableName)
      (fun result v => match result with
        | .ok () => RolledBack tableName h (rolledBack file.bytes count size) w v
        | .error _ => faults.calls = true) w := by
  have parts := storageValidTableName_parts valid
  have apart := journalPath_ne_tablePath tableName
  obtain ⟨_, _, small⟩ := acceptedJournal_size accepted
  have fresh := Quiet.newHandle w
  have always : ∀ (shapes : Shape → Prop) (path : Path) (u x : World),
      Writes false shapes path h u x → True := fun _ _ _ _ _ => trivial
  unfold recoverInsertJournal
  rw [storageJournalPath_valid valid]
  refine wp_openFile trivial (fun _ => ?_) (fun gone => ?_) fun calls error known => ?_
  · rw [opened_eq]
    dsimp only
    refine wp_seq (readJournal_exact (w := { w with next := w.next + 1 }) found)
      (fun _ _ => trivial) ?_
    rintro result _ ⟨p, rfl⟩ (rfl | ⟨calls, rfl⟩)
    · unfold acceptedJournal at accepted
      split at accepted
      · rename_i length
        rw [if_pos length]
        refine wp_close trivial ?_ fun calls error => ?_
        · rw [World.cursor, setStream_setStream]
          dsimp only
          rw [accepted]
          dsimp only
          generalize named : ({ w with next := w.next + 1 }.setStream w.next none) = u
          have base : Quiet w u := named ▸ fresh none
          have tableU : u.file (tablePath tableName) = some file :=
            (file_congr base.entries _).trans table
          have stream := (base.streams h old).trans opened
          have begun : Writes false (fun _ => False) (tablePath tableName) h u u :=
            .start (tableU ▸ rfl) stream fun _ => False.elim
          refine Writes.wp_header begun stream tableU (fun _ => False.elim) (fun _ _ => trivial)
            (fun x headed writes moved foundX content => ?_) fun calls x writes => ⟨trivial, calls⟩
          refine Writes.wp_flushAndSync writes moved foundX (fun _ _ => trivial)
            (fun x after writes moved foundX synced same => ?_)
            fun why x writes => ⟨trivial, why.resolve_right (not_not_intro (.inl rfl))⟩
          rw [patch_nil, content] at same
          simp only [Bool.not_true, Bool.false_eq_true, ↓reduceIte]
          refine wp_ftruncate moved foundX small trivial ?_ fun calls _ => ⟨trivial, calls⟩
          dsimp only
          have shortened : (x.setFile (tablePath tableName) (resizedFile after size small)).file
            (tablePath tableName) =
              some (resizedFile after size small) := congrArg Entry.now (entries_setEntry ..)
          have again : Writes false (fun _ => False) (tablePath tableName) h
              (x.setFile (tablePath tableName) (resizedFile after size small))
              (x.setFile (tablePath tableName) (resizedFile after size small)) :=
            .start (shortened ▸ rfl) moved fun _ => False.elim
          refine Writes.wp_flushAndSync again moved shortened (fun _ _ => trivial)
            (fun z final cut moved foundZ synced same' => ?_)
            fun why z writes => ⟨trivial, why.resolve_right (not_not_intro (.inl rfl))⟩
          have entries : ∀ path, path ≠ tablePath tableName → z.entries path = w.entries path := by
            intro path ne
            rw [cut.entries path ne, World.setFile, entries_setEntry_ne ne, writes.entries path ne,
              base.entries]
          have back : ∀ y : World, y.entries = (z.rebind (journalPath tableName) none).entries ∨
              y.entries = (z.rebind (journalPath tableName) none).syncDirectory.entries →
              y.streams = z.streams → y.output = z.output → y.next = z.next →
              RolledBack tableName h (rolledBack file.bytes count size) w y := by
            intro y which streams output next
            have files : ∀ path, y.file path =
                (z.rebind (journalPath tableName) none).file path := by
              intro path
              rcases which with same | same
              · exact file_congr same path
              · exact (file_congr same path).trans rfl
            refine ⟨⟨final, ?_, ?_⟩, ?_, ⟨_, by rw [streams]; exact moved⟩, ?_, ?_,
              fun path offTable offJournal => ?_⟩
            · rw [files, World.file, entries_rebind_ne (Ne.symm apart)]
              exact foundZ
            · rw [same', patch_nil, rolledBack, ← same]
              rfl
            · rw [files, file_rebind]
            · exact output.trans (cut.output.trans (writes.output.trans base.output))
            · rw [next, cut.next]
              exact writes.next ▸ base.next
            · rw [files, World.file, entries_rebind_ne offJournal, entries path offTable]
              rfl
          have journalZ : z.file (journalPath tableName) = some journal := by
            rw [World.file, entries _ apart]
            exact found
          simp only [Bool.not_true, Bool.false_eq_true, ↓reduceIte]
          refine wp_unlink trivial (fun _ => ?_) (fun gone => ?_) fun calls _ => ⟨trivial, calls⟩
          · dsimp only
            refine wp_utilSyncParentDirectory (journalPath_noSlash parts) trivial ?_ (fun _ _ => ?_)
              (fun calls => ⟨trivial, calls⟩) fun calls => ⟨trivial, calls⟩
            · exact ⟨trivial, back _ (.inr rfl) rfl rfl rfl⟩
            · exact ⟨trivial, back _ (.inl rfl) rfl rfl rfl⟩
          · rw [journalZ] at gone
            cases gone
        · exact ⟨trivial, calls⟩
      · cases accepted
    · exact wp_close trivial ⟨trivial, calls⟩ fun _ _ => ⟨trivial, calls⟩
  · rw [gone] at found
    cases found
  · dsimp only
    rw [if_neg known]
    exact ⟨trivial, calls⟩

/-! ## Opening -/

/-- The table file that opening for writing works on: the one that is there, or what its
journal makes of it. -/
inductive Recovers (tableName : Bytes) (w : World) (file : File) : Bytes → Prop where
  | clean (gone : w.file (journalPath tableName) = none) : Recovers tableName w file file.bytes
  | rolledBack {journal : File} {count : UInt64} {size : Nat}
      (found : w.file (journalPath tableName) = some journal)
      (accepted : acceptedJournal journal.bytes tableName = some (count, size)) :
      Recovers tableName w file (rolledBack file.bytes count size)

/-- A table that was opened for writing. -/
structure OpenedTable (tableName : Bytes) (w : World) (table : Table) (v : World) : Prop where
  shape :
    table = { name := tableName, file := w.next, rowCount := table.rowCount, writable := true }
  recovered : ∃ file after, w.file (tablePath tableName) = some file ∧
    v.file (tablePath tableName) = some after ∧
    Recovers tableName w file after.bytes ∧ acceptedCount after.bytes = .ok table.rowCount
  journal : v.file (journalPath tableName) = none
  next : w.next < v.next
  stream : ∃ position, v.streams w.next =
    some { path := tablePath tableName, position, pending := [] }

private theorem finishOpen_opened {after : File} (table : w.file (tablePath tableName) = some file)
    (found : v.file (tablePath tableName) = some after)
    (recovered : Recovers tableName w file after.bytes)
    (journal : v.file (journalPath tableName) = none) (next : w.next < v.next)
    (stream : ∃ position, v.streams w.next =
      some { path := tablePath tableName, position, pending := [] }) :
    wp (Steps faults) (fun _ => True) (finishOpen tableName w.next true)
      (fun result x => ∀ table, result = .ok table → OpenedTable tableName w table x) v := by
  obtain ⟨position, stream⟩ := stream
  rw [← setStream_self stream]
  refine wp_mono (finishOpen_spec found tableName true) (fun _ _ => trivial) ?_
  rintro result x _ finished table' rfl
  obtain ⟨accepted, shape, p, rfl⟩ := finished
  exact ⟨shape, ⟨file, after, table, found, recovered, accepted⟩, journal, next, p,
    streams_cursor ..⟩

/-- Opening for writing, whatever the files hold. -/
theorem storageOpenTable_opens (valid : storageValidTableName tableName = true) :
    wp (Steps faults) (fun _ => True) (storageOpenTable tableName)
      (fun result v => ∀ table, result = .ok table → OpenedTable tableName w table v) w := by
  unfold storageOpenTable storageOpenTableMode
  rw [valid, utilCopyChecked_valid valid, storageTablePath_valid valid,
    storageJournalPath_valid valid]
  refine wp_allocate trivial ?_ fun _ => ⟨trivial, nofun⟩
  refine wp_openFile trivial (fun present => ?_) (fun _ => ⟨trivial, nofun⟩) fun _ error known => ?_
  · obtain ⟨file, table⟩ := Option.isSome_iff_exists.mp present
    rw [opened_eq]
    refine wp_fdopen trivial ?_ fun _ _ => wp_close trivial ⟨trivial, nofun⟩ fun _ _ =>
      ⟨trivial, nofun⟩
    simp only [↓reduceIte]
    generalize named : { w with next := w.next + 1 }.cursor w.next (tablePath tableName) 0 = u
    have quiet : Quiet w u := named ▸ Quiet.newHandle w _
    have stream : u.streams w.next =
        some { path := tablePath tableName, position := 0, pending := [] } :=
      named ▸ streams_cursor ..
    have new : w.next < u.next := named ▸ Nat.lt_succ_self _
    have tableU : u.file (tablePath tableName) = some file :=
      (file_congr quiet.entries _).trans table
    -- a failing recovery closes the file again
    have refused : ∀ v status, wp (Steps faults) (fun _ => True) (do
        let _ ← fclose w.next
        return (.error status : Except TableStatus Table))
        (fun result x => ∀ table, result = .ok table → OpenedTable tableName w table x) v := by
      intro v status
      refine ⟨trivial, ⟨_, _, {}, trivial, rfl⟩, fun _ _ _ => ⟨trivial, nofun⟩⟩
    cases journal : w.file (journalPath tableName) with
    | none =>
      have gone : u.file (journalPath tableName) = none :=
        (file_congr quiet.entries _).trans journal
      refine wp_seq (recoverInsertJournal_clean valid gone) (fun _ _ => trivial) ?_
      rintro result _ _ ⟨rfl, rfl | ⟨_, rfl⟩⟩
      · exact finishOpen_opened table tableU (.clean journal) gone new ⟨_, stream⟩
      · exact refused _ _
    | some found =>
      have foundU : u.file (journalPath tableName) = some found :=
        (file_congr quiet.entries _).trans journal
      cases accepted : acceptedJournal found.bytes tableName with
      | none =>
        refine wp_seq (recoverInsertJournal_refuses valid foundU accepted) (fun _ _ => trivial) ?_
        rintro result v _ ⟨_, rfl | ⟨_, rfl⟩⟩ <;> exact refused _ _
      | some sized =>
        refine wp_seq (recoverInsertJournal_rollsBack valid tableU foundU accepted new stream)
          (fun _ _ => trivial) ?_
        rintro (status | _) v _ outcome
        · exact refused _ _
        · obtain ⟨⟨after, there, bytes⟩, gone, stream, _, later, _⟩ := outcome
          exact finishOpen_opened table there (bytes ▸ .rolledBack journal accepted) gone
            (Nat.lt_of_lt_of_le new later)
            stream
  · dsimp only
    rw [if_neg known]
    split <;> exact ⟨trivial, nofun⟩

end SqlEngine
