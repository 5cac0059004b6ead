import SqlEngine.HashIndexProofs
import SqlEngine.IndexFile
import SqlEngine.TableReads

/-! Index files: what persisting writes, what loading reads back, and what a rebuilt index
maps. Tables and journals are left alone throughout. -/
namespace SqlEngine

open Library Program World Posix

variable {faults : Faults} {inv : World → Prop} {w u v x : World} {tableName : Bytes} {h : Nat}
  {index : Index} {file : File} {written : Bytes → Prop}

/-- A computation of the hash index inside a program over files. -/
theorem wp_liftMemory {β : Type} {computation : Allocating β} {good : β → Prop} {next : β → Prog α}
    {post : α → World → Prop}
    (verified : wp (Grants faults.calls) (fun _ => True) computation
      (fun result _ => good result) ())
    (holds : inv w) (rest : ∀ result, good result → wp (Steps faults) inv (next result) post w) :
    wp (Steps faults) inv (liftMemory computation >>= next) post w := by
  have allocated : ∀ reply after, Steps faults Call.allocate w reply after →
      after = w ∧ Grants faults.calls .allocate () reply () := by
    rintro reply after ⟨choice, allowed, did⟩
    unfold act at did
    cases chosen : choice.error with
    | none =>
      rw [chosen] at did
      cases did
      exact ⟨rfl, .inl rfl⟩
    | some error =>
      rw [chosen] at did
      cases did
      unfold Allowed at allowed
      rw [chosen] at allowed
      exact ⟨rfl, .inr allowed.1⟩
  refine wp_bind (wp_lift (Grants faults.calls) computation holds (fun _ => ?_)
    (fun _ reply after did => allocated reply after did) fun result ran => ?_)
  · exact ⟨true, w, { }, trivial, rfl⟩
  · exact rest result (wp_returns verified ran).2

/-! ## Persisting -/

/-- The bytes of an index file. -/
def indexImage (index : Index) : Bytes :=
  (indexHeaderFields index.entryCount.toUInt32).flatten ++ (indexEntryFields index).flatten

/-- The bytes of an index whose entries can be counted in its header. -/
def Image (index : Index) (bytes : Bytes) : Prop :=
  bytes = indexImage index ∧ index.entryCount ≤ UINT32_MAX

/-- The index file of a table is what it was, or was written; everything else is kept. -/
structure AroundIndex (tableName : Bytes) (written : Bytes → Prop) (w v : World) : Prop where
  frame : KeptBut (indexPath tableName) w v
  output : v.output = w.output
  next : w.next ≤ v.next
  streams : ∀ g < w.next, v.streams g = w.streams g
  index : v.file (indexPath tableName) = w.file (indexPath tableName) ∨
    ∃ file, v.file (indexPath tableName) = some file ∧ written file.bytes

/-- What holds of the files wherever such a step is stopped. -/
def IndexKept (tableName : Bytes) (written : Bytes → Prop) (w v : World) : Prop :=
  KeptBut (indexPath tableName) w v ∧ (v.file (indexPath tableName) = w.file (indexPath tableName) ∨
    ∃ file, v.file (indexPath tableName) = some file ∧ written file.bytes)

theorem AroundIndex.kept (around : AroundIndex tableName written w v) :
    IndexKept tableName written w v :=
  ⟨around.frame, around.index⟩

theorem IndexKept.still (same : v.entries = w.entries) : IndexKept tableName written w v :=
  ⟨.of_eq same, .inl (file_congr same _)⟩

theorem IndexKept.congr (kept : IndexKept tableName written w u) (same : v.entries = u.entries) :
    IndexKept tableName written w v :=
  ⟨kept.1.trans (.of_eq same), by rw [file_congr same]; exact kept.2⟩

theorem AroundIndex.quiet (quiet : Quiet w v) : AroundIndex tableName written w v :=
  ⟨.of_eq quiet.entries, quiet.output, quiet.next, quiet.streams, .inl (file_congr quiet.entries _)⟩

theorem AroundIndex.trans (first : AroundIndex tableName written w u)
    (second : AroundIndex tableName written u v) :
    AroundIndex tableName written w v := by
  refine ⟨first.frame.trans second.frame, second.output.trans first.output,
    Nat.le_trans first.next second.next,
    fun g below => (second.streams g (Nat.lt_of_lt_of_le below first.next)).trans
      (first.streams g below), ?_⟩
  rcases second.index with same | changed
  · rw [same]
    exact first.index
  · exact .inr changed

theorem AroundIndex.mono {wider : Bytes → Prop} (around : AroundIndex tableName written w v)
    (weaker : ∀ bytes, written bytes → wider bytes) : AroundIndex tableName wider w v :=
  ⟨around.frame, around.output, around.next, around.streams,
    around.index.imp id fun ⟨file, found, holds⟩ => ⟨file, found, weaker _ holds⟩⟩

theorem AroundIndex.synced (around : AroundIndex tableName written w v) :
    AroundIndex tableName written w v.syncDirectory :=
  ⟨around.frame.trans fun path _ => syncDirectory_kept v path, around.output, around.next,
    around.streams,
    around.index⟩

private theorem SameBut.aroundIndex {temp : Path} (same : SameBut temp w v)
    (side : indexPath tableName <+: temp) (ne : temp ≠ indexPath tableName) :
    AroundIndex tableName written w v :=
  ⟨fun path outside => Kept.of_eq (same.entries path fun eq => outside (eq ▸ side)),
    same.output, same.next,
    same.streams, .inl (same.same_file (Ne.symm ne))⟩

/-- No name is in use but those that were, and the index file. -/
def Tidy (tableName : Bytes) (w v : World) : Prop :=
  ∀ path, path ≠ indexPath tableName → w.file path = none → v.file path = none

/-- The index file of a table was written. -/
def Written (tableName : Bytes) (written : Bytes → Prop) (v : World) : Prop :=
  ∃ file, v.file (indexPath tableName) = some file ∧ written file.bytes

/-- What persisting an index comes to. -/
def IndexPersisted (faults : Faults) (index : Index) (w : World) (status : IndexStatus)
    (v : World) : Prop :=
  AroundIndex index.tableName (Image index) w v ∧ status ≠ .duplicatePrimaryKey ∧
    (faults.calls = true ∨ Tidy index.tableName w v ∧
      (status = .ok ∨ UINT32_MAX < index.entryCount)) ∧
    (status = .ok → Written index.tableName (Image index) v)

private theorem persistError_fails :
    IndexStatus.persistError ≠ .duplicatePrimaryKey ∧ IndexStatus.persistError ≠ .ok :=
  ⟨nofun, nofun⟩

private theorem tempfileError_fails :
    IndexStatus.tempfileError ≠ .duplicatePrimaryKey ∧ IndexStatus.tempfileError ≠ .ok :=
  ⟨nofun, nofun⟩

private theorem readOnly_fails :
    IndexStatus.readOnly ≠ .duplicatePrimaryKey ∧ IndexStatus.readOnly ≠ .ok :=
  ⟨nofun, nofun⟩

private theorem IndexPersisted.failed {status : IndexStatus}
    (other : status ≠ .duplicatePrimaryKey ∧ status ≠ .ok)
    (around : AroundIndex index.tableName (Image index) w v)
    (why : faults.calls = true ∨ Tidy index.tableName w v ∧ UINT32_MAX < index.entryCount) :
    IndexPersisted faults index w status v :=
  ⟨around, other.1, why.imp_right fun large => ⟨large.1, .inr large.2⟩, fun done =>
    absurd done other.2⟩

private theorem IndexPersisted.done (around : AroundIndex index.tableName (Image index) w v)
    (tidy : Tidy index.tableName w v) (there : Written index.tableName (Image index) v) :
    IndexPersisted faults index w .ok v :=
  ⟨around, nofun, .inr ⟨tidy, .inl rfl⟩, fun _ => there⟩

private theorem around_renamed {temp : Path} (side : indexPath tableName <+: temp)
    (ne : temp ≠ indexPath tableName) (same : SameBut temp w v) (holds : written file.bytes) :
    AroundIndex tableName written w
      ((v.rebind (indexPath tableName) (some file)).rebind temp none) := by
  refine ⟨fun path outside => Kept.of_eq ?_, same.output, same.next, same.streams,
    .inr ⟨file, ?_, holds⟩⟩
  · have away : path ≠ temp := fun eq => outside (eq ▸ side)
    have off : path ≠ indexPath tableName := fun eq => outside (eq ▸ List.prefix_refl _)
    rw [entries_rebind_ne away, entries_rebind_ne off, same.entries _ away]
  · rw [World.file, entries_rebind_ne (Ne.symm ne), entries_rebind]

private theorem length_entryFields (entries : List IndexEntry) :
    (entries.flatMap fun node =>
      [putU32Le node.key.toUInt32, putU64Le node.fileOffset.toUInt64]).flatten.length =
      12 * entries.length := by
  induction entries with
  | nil => rfl
  | cons node entries ih =>
    rw [List.flatMap_cons, List.flatten_append, List.length_append, ih]
    simp
    omega

/-- An index file has its header and twelve bytes for each entry. -/
theorem length_indexImage (valid : index.Valid) :
    (indexImage index).length = 32 + 12 * index.entryCount := by
  have entries := length_entryFields index.buckets.flatten
  rw [indexImage, List.length_append, indexEntryFields, entries, valid.counted]
  simp [indexHeaderFields, INDEX_HEADER_SIZE]

/-- Persisting replaces the index file as a whole, or leaves it. -/
theorem indexPersist_spec (valid : storageValidTableName index.tableName = true)
    (sound : index.Valid) (possible : faults.calls = true ∨ Spare (indexPath index.tableName) w) :
    wp (Steps faults) (AroundIndex index.tableName (Image index) w) (indexPersist index)
      (IndexPersisted faults index w) w := by
  have parts := storageValidTableName_parts valid
  have start : AroundIndex index.tableName (Image index) w w := .quiet (.refl w)
  unfold indexPersist
  rw [storageIndexPath_valid valid]
  split
  · rename_i large
    exact ⟨start, .failed persistError_fails start (.inr ⟨fun _ _ gone => gone, large⟩)⟩
  · rename_i small
    dsimp only
    have room : (indexPath index.tableName).length + 12 ≤ 128 := by
      have short := parts.short
      have suffix : (str ".idx").length = 4 := by decide
      simp only [indexPath, List.length_append]
      omega
    refine wp_utilSecureTempFile room
      (fun suffix v _ same => same.aroundIndex (prefix_temp _ _) temp_ne) possible
      (fun suffix portable fresh => ?_) fun calls errno suffix v _ same => ?_
    · generalize named : indexPath index.tableName ++ str ".tmp." ++ suffix = temp at fresh ⊢
      have side : indexPath index.tableName <+: temp := named ▸ prefix_temp _ _
      have ne : temp ≠ indexPath index.tableName := named ▸ temp_ne
      have aside : ∀ v, SameBut temp w v → AroundIndex index.tableName (Image index) w v :=
        fun v same => same.aroundIndex side ne
      have begun := writesAside_start temp w
      have same := sameBut_aside begun
      have opened : ((w.rebind temp (some emptyFile)).opened temp).streams w.next =
          some { path := temp, position := 0, pending := [] } := streams_setStream ..
      have found : ((w.rebind temp (some emptyFile)).opened temp).file temp = some emptyFile :=
        file_rebind ..
      have moving : ∀ x, WritesAside temp w x → AroundIndex index.tableName (Image index) w x :=
        fun x writes => aside x (sameBut_aside writes)
      -- every way out in front of the rename leaves the index file alone
      have unlinking : ∀ status v, status ≠ .duplicatePrimaryKey ∧ status ≠ .ok →
          faults.calls = true →
          SameBut temp w v →
          wp (Steps faults) (AroundIndex index.tableName (Image index) w)
            (unlink temp >>= fun _ => Pure.pure status) (IndexPersisted faults index w) v :=
        fun status v other calls same =>
          wp_unlink_aside aside (fun v same => .failed other (aside v same) (.inl calls)) same
      have discarding : ∀ x, faults.calls = true → WritesAside temp w x →
          wp (Steps faults) (AroundIndex index.tableName (Image index) w)
            (discard w.next temp >>= fun _ => Pure.pure IndexStatus.persistError)
            (IndexPersisted faults index w) x :=
        fun x calls writes =>
          wp_discard_aside aside
            (fun v same => .failed persistError_fails (aside v same) (.inl calls)) writes
      dsimp only
      refine wp_fdopen (aside _ same) ?_ fun calls error => wp_close (aside _ same) ?_ fun _ _ => ?_
      · dsimp only
        refine Writes.wp_fields begun opened (fun _ => False.elim) moving
          (fun x writes buffered entries => ?_) fun calls x writes => discarding x calls writes
        have here : x.file temp = some emptyFile := (file_congr entries temp).trans found
        simp only [Bool.not_true, Bool.false_eq_true, ↓reduceIte]
        refine Writes.wp_fields writes buffered (fun _ => False.elim) moving
          (fun x writes buffered entries => ?_) fun calls x writes => discarding x calls writes
        have here : x.file temp = some emptyFile := (file_congr entries temp).trans here
        simp only [Bool.not_true, Bool.false_eq_true, ↓reduceIte]
        rw [List.nil_append] at buffered
        refine Writes.wp_flushAndSync writes buffered here moving
          (fun x after writes flushed there synced bytes => ?_) fun why x writes => ?_
        · simp only [Bool.not_true, Bool.false_eq_true, ↓reduceIte]
          have sameX := sameBut_aside writes
          have image : after.bytes = indexImage index := by
            rw [bytes]
            simp [patch, emptyFile, indexImage]
          have closed := sameX.setStream (Nat.le_refl _) none
          refine wp_fclose flushed (aside x sameX) (fun _ => ?_) fun why _ _ _ => ?_
          · rw [passOn_nil, setStream_setStream]
            have source : (x.setStream w.next none).file temp = some after := there
            have around : AroundIndex index.tableName (Image index) w _ :=
              around_renamed side ne closed ⟨image, by omega⟩
            dsimp only
            refine wp_rename (aside _ closed) source ne ?_ fun calls error =>
              unlinking _ _ persistError_fails calls closed
            have there : Written index.tableName (Image index)
                (((x.setStream w.next none).rebind (indexPath index.tableName)
                  (some after)).rebind temp none) := by
              refine ⟨after, ?_, image, by omega⟩
              rw [World.file, entries_rebind_ne (Ne.symm ne), ← World.file, file_rebind]
            have tidy : Tidy index.tableName w
                (((x.setStream w.next none).rebind (indexPath index.tableName)
                  (some after)).rebind temp none) := by
              intro path off gone
              by_cases here : path = temp
              · rw [here, file_rebind]
              · rw [World.file, entries_rebind_ne here, entries_rebind_ne off,
                  closed.entries _ here]
                exact gone
            dsimp only
            have noSlash : 47 ∉ indexPath index.tableName := by
              have suffix : 47 ∉ str ".idx" := by decide
              simp only [indexPath, List.mem_append, parts.noSlash, suffix, or_self,
                not_false_eq_true]
            refine wp_utilSyncParentDirectory noSlash around ?_ (fun calls ignored => ?_)
              (fun calls => ⟨around, .failed persistError_fails around (.inl calls)⟩)
              fun calls => ⟨around.synced, .failed persistError_fails around.synced (.inl calls)⟩
            · exact ⟨around.synced, .done around.synced tidy there⟩
            · exact ⟨around, .done around tidy there⟩
          · have calls := why.resolve_right (not_not_intro (.inl rfl))
            exact unlinking _ _ persistError_fails calls
              ((sameX.passOn (Nat.le_refl _) rfl _ _ _).setStream (Nat.le_refl _) none)
        · refine discarding x (why.resolve_right (not_not_intro (.inr ?_))) writes
          have length := length_indexImage sound
          rw [indexImage] at length
          unfold UINT32_MAX at small
          unfold maxFileSize
          omega
      · exact unlinking _ _ tempfileError_fails calls (same.setStream (Nat.le_refl _) none)
      · exact unlinking _ _ tempfileError_fails calls (same.setStream (Nat.le_refl _) none)
    · have around : AroundIndex index.tableName (Image index) w v :=
        same.aroundIndex (prefix_temp _ _) temp_ne
      dsimp only
      split
      · exact ⟨around, .failed readOnly_fails around (.inl calls)⟩
      · exact ⟨around, .failed tempfileError_fails around (.inl calls)⟩

/-- Closing a table whose handle buffers nothing. -/
theorem wp_closeIdle {table : Table} {path : Path} {position : Nat} {next : Unit → Prog α}
    {post : α → World → Prop}
    (stream : w.streams table.file = some { path, position, pending := [] }) (holds : inv w)
    (closed : wp (Steps faults) inv (next ()) post (w.setStream table.file none)) :
    wp (Steps faults) inv (storageCloseTable table >>= next) post w := by
  have here : w = w.cursor table.file path position := (setStream_self stream).symm
  unfold storageCloseTable
  rw [Program.bind_assoc, here]
  exact wp_fclose_cursor (here ▸ holds) fun _ => closed

/-! ## Loading -/

/-- An entry of an index file. -/
def indexEntryAt (bytes : Bytes) (i : Nat) : IndexEntry :=
  { key := (getU32Le (slice bytes (32 + 12 * i) 4)).toInt32
    fileOffset := (getU64Le (slice bytes (32 + 12 * i + 4) 8)).toInt64 }

/-- The entries of an index file, in order. -/
def indexEntries (bytes : Bytes) (count : Nat) : List IndexEntry :=
  (List.range count).map (indexEntryAt bytes)

/-- An index that holds exactly the first entries of a file. -/
structure LoadedFrom (bytes : Bytes) (count : Nat) (tableName : Bytes) (index : Index) : Prop where
  length : 32 + 12 * count ≤ bytes.length
  valid : index.Valid
  named : index.tableName = tableName
  counted : index.entryCount = count
  exact : ∀ key fileOffset, index.find key = some fileOffset ↔
    { key, fileOffset } ∈ indexEntries bytes count

/-- One more entry of the file is inserted into the index of those in front of it. -/
theorem LoadedFrom.inserted {bytes : Bytes} {count : Nat} {after : Index} {status : IndexStatus}
    {refusals : Bool}
    (loaded : LoadedFrom bytes count tableName index)
    (enough : 32 + 12 * (count + 1) ≤ bytes.length)
    (inserted : Inserted index (indexEntryAt bytes count).key
      (indexEntryAt bytes count).fileOffset false refusals
      status after) (done : status = .ok) : LoadedFrom bytes (count + 1) tableName after := by
  obtain ⟨valid, named, ⟨wrong, _⟩ | ⟨_, fresh, maps, counts⟩ | ⟨wrong, _⟩⟩ := inserted
  · rw [wrong] at done
    cases done
  · have absent := fresh.resolve_left nofun
    refine ⟨enough, valid, named.trans loaded.named, by rw [counts, if_pos absent, loaded.counted],
      fun key fileOffset => ?_⟩
    rw [maps, indexEntries, List.range_succ, List.map_append, List.mem_append, ← indexEntries,
      List.map_singleton,
      List.mem_singleton]
    split
    · rename_i same
      subst same
      constructor
      · rintro ⟨⟩
        exact .inr rfl
      · rintro (old | new)
        · rw [← loaded.exact, absent] at old
          cases old
        · rw [← new]
    · rename_i other
      rw [loaded.exact]
      constructor
      · exact .inl
      · rintro (old | new)
        · exact old
        · exact absurd (congrArg IndexEntry.key new) other
  · rw [wrong] at done
    cases done

private theorem LoadedFrom.twice {bytes : Bytes} {count total : Nat}
    (loaded : LoadedFrom bytes count tableName index)
    (inside : count < total) (known : index.find (indexEntryAt bytes count).key ≠ none) :
    ¬ ((indexEntries bytes total).map IndexEntry.key).Nodup := by
  -- A key of the file that an index of the entries in front of it has already is there twice.
  intro unique
  obtain ⟨fileOffset, found⟩ := Option.ne_none_iff_exists'.mp known
  obtain ⟨i, among, same⟩ := List.mem_map.mp ((loaded.exact _ _).mp found)
  have before := List.mem_range.mp among
  rw [indexEntries, List.map_map] at unique
  have key : (indexEntryAt bytes i).key = (indexEntryAt bytes count).key := by rw [same]
  have equal := List.inj_on_of_nodup_map unique (List.mem_range.mpr (Nat.lt_trans before inside))
    (List.mem_range.mpr inside) key
  omega

private theorem loadEntries_spec {path : Path} {bytes : Bytes} {total count position : Nat}
    (found : w.file path = some file) (same : file.bytes = bytes)
    (length : bytes.length = 32 + 12 * total) (few : total ≤ UINT32_MAX) (left : count ≤ total)
    (at_entry : position = 32 + 12 * (total - count))
    (loaded : LoadedFrom bytes (total - count) tableName index) :
    wp (Steps faults) (Still w) (loadEntries h count index)
      (fun result v => (∃ p, v = w.cursor h path p) ∧ match result with
        | .ok index => LoadedFrom bytes total tableName index
        | .error status => status ≠ .duplicatePrimaryKey ∧
            (faults.calls = true ∨ ¬ ((indexEntries bytes total).map IndexEntry.key).Nodup))
      (w.cursor h path position) := by
  induction count generalizing position index with
  | zero => exact ⟨rfl, ⟨position, rfl⟩, loaded⟩
  | succ count ih =>
    have still : ∀ p, Still w (w.cursor h path p) := fun _ => rfl
    unfold loadEntries
    subst same at_entry
    refine wp_utilReadU32Le found (by omega) still ?_ fun calls p =>
      ⟨rfl, ⟨p, rfl⟩, nofun, .inl calls⟩
    refine wp_utilReadU64Le found (by omega) still ?_ fun calls p =>
      ⟨rfl, ⟨p, rfl⟩, nofun, .inl calls⟩
    dsimp only
    refine wp_liftMemory (indexInsert_spec loaded.valid _ _ false) (still _) ?_
    rintro ⟨status, after⟩ inserted
    have next : total - count = total - (count + 1) + 1 := by omega
    cases status with
    | ok =>
      refine ih (by omega) (by omega) ?_
      rw [next]
      exact loaded.inserted (by omega) inserted rfl
    | duplicateKey =>
      refine ⟨rfl, ⟨_, rfl⟩, nofun, .inr ?_⟩
      obtain ⟨_, _, ⟨_, _, known, _⟩ | ⟨wrong, _⟩ | ⟨wrong, _⟩⟩ := inserted
      · exact loaded.twice (by omega) known
      · cases wrong
      · cases wrong
    | allocError =>
      refine ⟨rfl, ⟨_, rfl⟩, nofun, .inl ?_⟩
      obtain ⟨_, _, ⟨wrong, _⟩ | ⟨wrong, _⟩ | ⟨_, _, _, calls | large⟩⟩ := inserted
      · cases wrong
      · cases wrong
      · exact calls
      · have counted := loaded.counted
        unfold UINT32_MAX at few
        omega
    | _ => obtain ⟨_, _, ⟨wrong, _⟩ | ⟨wrong, _⟩ | ⟨wrong, _⟩⟩ := inserted <;> cases wrong

/-- The numbers of an index header, as they lie in the file. -/
def indexHeaderOf (bytes : Bytes) : IndexHeader :=
  { magic := getU32Le (slice bytes 0 4)
    version := getU32Le (slice bytes 4 4)
    headerSize := getU32Le (slice bytes 8 4)
    entrySize := getU32Le (slice bytes 12 4)
    entryCount := getU32Le (slice bytes 16 4)
    reserved := getU32Le (slice bytes 20 4) }

private theorem readIndexFields_spec {path : Path} (found : w.file path = some file)
    (enough : 32 ≤ file.bytes.length) :
    wp (Steps faults) (Still w) (readIndexFields h)
      (fun result v => (∃ p, v = w.cursor h path p) ∧
        (result = some (indexHeaderOf file.bytes) ∨ faults.calls = true ∧ result = none))
          (w.cursor h path 0) := by
  have still : ∀ p, Still w (w.cursor h path p) := fun _ => rfl
  have failing : faults.calls = true → ∀ p, wp (Steps faults) (Still w) (Pure.pure none)
      (fun result v => (∃ p, v = w.cursor h path p) ∧
        (result = some (indexHeaderOf file.bytes) ∨ faults.calls = true ∧ result = none))
          (w.cursor h path p) :=
    fun calls p => ⟨rfl, ⟨p, rfl⟩, .inr ⟨calls, rfl⟩⟩
  refine wp_utilReadU32Le found (by omega) still ?_ failing
  refine wp_utilReadU32Le found (by omega) still ?_ failing
  refine wp_utilReadU32Le found (by omega) still ?_ failing
  refine wp_utilReadU32Le found (by omega) still ?_ failing
  refine wp_utilReadU32Le found (by omega) still ?_ failing
  refine wp_utilReadU32Le found (by omega) still ?_ failing
  exact ⟨rfl, ⟨_, rfl⟩, .inl rfl⟩

/-- The fields of an index header of this version. -/
structure IndexHeader.Current (header : IndexHeader) : Prop where
  magic : header.magic = INDEX_MAGIC
  version : header.version = INDEX_VERSION
  headerSize : header.headerSize = INDEX_HEADER_SIZE.toUInt32
  entrySize : header.entrySize = INDEX_ENTRY_ONDISK
  reserved : header.reserved = 0

private theorem validateIndexHeader_iff {header : IndexHeader} {fileSize tableRowCount : UInt64}
    {count : UInt32} :
    validateIndexHeader header fileSize tableRowCount = .ok count ↔
      header.Current ∧ count = header.entryCount ∧ header.entryCount.toNat = tableRowCount.toNat ∧
        fileSize.toNat = 32 + 12 * tableRowCount.toNat := by
  have entry : INDEX_ENTRY_ONDISK.toUInt64.toNat = 12 := rfl
  have size : INDEX_HEADER_SIZE.toUInt64.toNat = 32 := rfl
  have word := header.entryCount.toNat_lt
  have current : ¬ (header.magic ≠ INDEX_MAGIC ∨ header.version ≠ INDEX_VERSION ∨
      header.headerSize ≠ INDEX_HEADER_SIZE.toUInt32 ∨ header.entrySize ≠ INDEX_ENTRY_ONDISK ∨
      header.reserved ≠ 0) ↔ header.Current := by
    simp only [not_or, not_not]
    exact ⟨fun ⟨magic, version, headerSize, entrySize, reserved⟩ => ⟨magic, version, headerSize,
      entrySize, reserved⟩,
      fun ⟨magic, version, headerSize, entrySize, reserved⟩ =>
        ⟨magic, version, headerSize, entrySize, reserved⟩⟩
  have counted : header.entryCount.toUInt64 = tableRowCount ↔
      header.entryCount.toNat = tableRowCount.toNat := by
    rw [← UInt64.toNat_inj, UInt32.toNat_toUInt64]
  -- neither the product nor the sum can overflow
  have multiplied : utilMulU64 header.entryCount.toUInt64 INDEX_ENTRY_ONDISK.toUInt64 =
      some (.ofNat (12 * header.entryCount.toNat)) := by
    rw [utilMulU64_iff, UInt32.toNat_toUInt64, entry, toNat_ofNat (by omega), Nat.mul_comm]
  have added : utilAddU64 INDEX_HEADER_SIZE.toUInt64 (.ofNat (12 * header.entryCount.toNat)) =
      some (.ofNat (32 + 12 * header.entryCount.toNat)) := by
    rw [utilAddU64_iff, size, toNat_ofNat (by omega), toNat_ofNat (by omega)]
  have sized : UInt64.ofNat (32 + 12 * header.entryCount.toNat) = fileSize ↔
      fileSize.toNat = 32 + 12 * header.entryCount.toNat := by
    rw [← UInt64.toNat_inj, toNat_ofNat (by omega), eq_comm]
  unfold validateIndexHeader
  rw [multiplied]
  dsimp only
  rw [added]
  dsimp only
  split
  · rename_i other
    exact ⟨nofun, fun ⟨same, _⟩ => absurd other (current.mpr same)⟩
  · rename_i same
    split
    · rename_i other
      exact ⟨nofun, fun ⟨_, _, equal, _⟩ => absurd (counted.mpr equal) other⟩
    · rename_i equal
      have rows := counted.mp (of_not_not equal)
      split
      · rename_i other
        exact ⟨nofun, fun ⟨_, _, _, fits⟩ => absurd (sized.mpr (rows ▸ fits)) other⟩
      · rename_i fits
        constructor
        · rintro ⟨⟩
          exact ⟨current.mp same, rfl, rows, rows ▸ sized.mp (of_not_not fits)⟩
        · rintro ⟨_, rfl, _⟩
          rfl

private theorem validateIndexHeader_error {header : IndexHeader} {fileSize tableRowCount : UInt64}
    {status : IndexStatus}
    (refused : validateIndexHeader header fileSize tableRowCount = .error status) :
    status = .incompatible ∨ status = .corrupt := by
  unfold validateIndexHeader at refused
  split at refused
  · cases refused
    exact .inl rfl
  split at refused
  · cases refused
    exact .inr rfl
  split at refused
  · cases refused
    exact .inr rfl
  split at refused
  · cases refused
    exact .inr rfl
  split at refused <;> cases refused
  exact .inr rfl

/-- The index files that are loaded for a table of so many rows. -/
structure IndexFileFor (bytes : Bytes) (count : Nat) : Prop where
  length : bytes.length = 32 + 12 * count
  current : (indexHeaderOf bytes).Current
  counted : (indexHeaderOf bytes).entryCount.toNat = count
  unique : ((indexEntries bytes count).map IndexEntry.key).Nodup

/-- The keys of an index are distinct, so those of the file it was loaded from are. -/
theorem LoadedFrom.perm {bytes : Bytes} {count : Nat}
    (loaded : LoadedFrom bytes count tableName index) :
    index.buckets.flatten.Perm (indexEntries bytes count) := by
  have distinct : index.buckets.flatten.Nodup := loaded.valid.unique.of_map _
  have among : index.buckets.flatten ⊆ indexEntries bytes count := by
    intro node member
    refine (loaded.exact node.key node.fileOffset).mp ?_
    have found := (Chaining.search_iff loaded.valid.chained).mpr ⟨member, rfl⟩
    rw [Index.find, found]
    rfl
  refine (List.subperm_of_subset distinct among).perm_of_length_le ?_
  have counted := loaded.valid.counted.symm.trans loaded.counted
  simp [indexEntries, counted]

private theorem loadFrom_spec {path : Path} (found : w.file path = some file) (table : Table)
    (valid : storageValidTableName tableName = true) :
    wp (Steps faults) (Still w) (loadFrom h table tableName)
      (fun result v => (∃ p, v = w.cursor h path p) ∧ match result with
        | .ok index => LoadedFrom file.bytes table.rowCount.toNat tableName index ∧
            IndexFileFor file.bytes table.rowCount.toNat
        | .error status => status ≠ .duplicatePrimaryKey ∧
            (faults.calls = true ∨ ¬ IndexFileFor file.bytes table.rowCount.toNat))
      (w.cursor h path 0) := by
  unfold loadFrom
  refine wp_seekEnd found (fun _ => rfl) ?_ fun calls error p => ⟨rfl, ⟨p, rfl⟩, nofun, .inl calls⟩
  refine wp_fseek_cursor found rfl ?_ fun calls error => ⟨rfl, ⟨_, rfl⟩, nofun, .inl calls⟩
  have size : INDEX_HEADER_SIZE = 32 := rfl
  dsimp only [Option.getD_some]
  split
  · exact ⟨rfl, ⟨_, rfl⟩, nofun, .inr fun accepted => by have length := accepted.length; omega⟩
  · rename_i long
    unfold readIndexHeader
    rw [Program.bind_assoc]
    refine wp_seq (readIndexFields_spec found (by omega)) (fun _ still => still) ?_
    rintro result _ _ ⟨⟨p, rfl⟩, rfl | ⟨calls, rfl⟩⟩
    · have length : file.bytes.length.toUInt64.toNat = file.bytes.length :=
        toNat_ofNat (by have fits := file.fits; unfold maxFileSize at fits; omega)
      dsimp only
      rw [Program.pure_eq, Program.pure_bind]
      cases validated : validateIndexHeader
        (indexHeaderOf file.bytes) file.bytes.length.toUInt64 table.rowCount with
      | error status =>
        refine ⟨rfl, ⟨_, rfl⟩, ?_, .inr fun accepted => ?_⟩
        · rcases validateIndexHeader_error validated with rfl | rfl <;> nofun
        · rw [validateIndexHeader_iff.mpr ⟨accepted.current, rfl, accepted.counted,
            length.trans accepted.length⟩] at validated
          cases validated
      | ok entryCount =>
        obtain ⟨current, rfl, counted, exact_length⟩ := validateIndexHeader_iff.mp validated
        rw [length] at exact_length
        have few : table.rowCount.toNat ≤ UINT32_MAX :=
          counted ▸ Nat.le_sub_one_of_lt (indexHeaderOf file.bytes).entryCount.toNat_lt
        refine wp_fseek_cursor found rfl ?_ fun calls error => ⟨rfl, ⟨_, rfl⟩, nofun, .inl calls⟩
        dsimp only [Option.getD_some]
        rw [counted, size]
        refine wp_liftMemory (indexCreateSized_exact valid
          (utilCopyChecked_valid valid) table.rowCount.toNat) rfl ?_
        rintro (_ | index) ⟨created, refused⟩
        · exact ⟨rfl, ⟨_, rfl⟩, nofun, .inl ((refused rfl).resolve_right (Nat.not_lt.mpr few))⟩
        · obtain ⟨sound, empty, named, none_yet⟩ := created index rfl
          have start : LoadedFrom file.bytes
              (table.rowCount.toNat - table.rowCount.toNat) tableName index := by
            rw [Nat.sub_self]
            refine ⟨by omega, sound, named, none_yet, fun key fileOffset => ?_⟩
            rw [empty]
            constructor <;> nofun
          refine wp_mono
            (loadEntries_spec found rfl exact_length few (Nat.le_refl _) (by omega) start)
            (fun _ still => still) ?_
          rintro (status | index) v _ ⟨still, outcome⟩
          · exact ⟨still, outcome.1, outcome.2.imp_right fun twice accepted =>
              twice accepted.unique⟩
          · have unique := (outcome.perm.map IndexEntry.key).nodup_iff.mp outcome.valid.unique
            exact ⟨still, outcome, exact_length, current, counted, unique⟩
    · exact ⟨rfl, ⟨_, rfl⟩, nofun, .inl calls⟩

/-- What a loaded index is: the entries of an index file that counts the rows of the
table. -/
def Loaded (faults : Faults) (tableName : Bytes) (w : World) (index : Index) : Prop :=
  ∃ tableFile file count, w.file (tablePath tableName) = some tableFile ∧
    acceptedCount tableFile.bytes = .ok count ∧
    (faults.access = true ∨ w.file (journalPath tableName) = none) ∧
      w.file (indexPath tableName) = some file ∧
    LoadedFrom file.bytes count.toNat tableName index

/-- The index file of a table is one for its rows. -/
def IndexFits (tableName : Bytes) (w : World) : Prop :=
  ∀ tableFile count, w.file (tablePath tableName) = some tableFile →
    acceptedCount tableFile.bytes = .ok count →
    ∃ file, w.file (indexPath tableName) = some file ∧ IndexFileFor file.bytes count.toNat

/-- How loading ends. -/
def LoadEnds (faults : Faults) (tableName : Bytes) (w : World) : Except IndexStatus Index → Prop
  | .ok index => Loaded faults tableName w index ∧ IndexFits tableName w
  | .error status => status ≠ .duplicatePrimaryKey ∧
      (faults.calls = true ∨ (Openable tableName w → ¬ IndexFits tableName w))

/-- Loading an index. -/
theorem indexLoad_spec (tableName : Bytes) :
    wp (Steps faults) (Still w) (indexLoad tableName)
      (fun result v => Quiet w v ∧ LoadEnds faults tableName w result) w := by
  unfold indexLoad
  cases valid : storageValidTableName tableName with
  | false =>
    refine ⟨rfl, .refl w, nofun, .inr fun openable => ?_⟩
    rw [openable.valid] at valid
    cases valid
  | true =>
    simp only [Bool.not_true, Bool.false_eq_true, ↓reduceIte]
    rw [storageIndexPath_valid valid]
    refine wp_seq (storageOpenTableReadonly_spec valid) (fun _ still => still) ?_
    intro result u _ opened
    have quietly := opened.quiet
    cases result with
    | error status =>
      have refusal : faults.calls = true ∨ (Openable tableName w → ¬ IndexFits tableName w) :=
        opened.refusal.imp_right fun closed openable => absurd openable closed
      dsimp only
      split <;> exact ⟨quietly.entries, quietly, nofun, refusal⟩
    | ok table =>
      obtain @⟨rowCount, p, tableFile, found, accepted, settled⟩ := opened
      dsimp only
      generalize named : { w with next := w.next + 1 }.cursor w.next (tablePath tableName) p = u
      have quiet : Quiet w u := named ▸ quiet_cursor w _ p
      have stream : u.streams w.next =
          some { path := tablePath tableName, position := p, pending := [] } :=
        named ▸ streams_cursor ..
      have next : u.next = w.next + 1 := named ▸ rfl
      -- both handles are closed again, and the result is passed on
      have closing : ∀ (result : Except IndexStatus Index) v, Quiet u v →
          LoadEnds faults tableName w result →
          wp (Steps faults) (Still w) (do
            storageCloseTable { name := tableName, file := w.next, rowCount, writable := false }
            return result)
            (fun result v => Quiet w v ∧ LoadEnds faults tableName w result) v := by
        intro result v later holds
        have still : Still w v := later.entries.trans quiet.entries
        refine wp_closeIdle ((later.streams w.next (by omega)).trans stream) still ?_
        exact ⟨still, ⟨still, (quiet.trans later).output, (quiet.trans later).next, fun g below =>
          (streams_setStream_ne (Nat.ne_of_lt below) _).trans
            ((quiet.trans later).streams g below)⟩, holds⟩
      refine wp_fopen quiet.entries (fun present => ?_) (fun gone => ?_) fun calls error known => ?_
      · obtain ⟨file, foundI⟩ := Option.isSome_iff_exists.mp present
        have here : w.file (indexPath tableName) = some file :=
          (file_congr quiet.entries _).symm.trans foundI
        rw [opened_eq]
        dsimp only
        refine wp_seq (loadFrom_spec (w := { u with next := u.next + 1 }) foundI _ valid)
          (fun x still => still.trans quiet.entries) ?_
        rintro result _ _ ⟨⟨q, rfl⟩, outcome⟩
        refine wp_fclose_cursor quiet.entries fun _ => closing result _ (Quiet.newHandle u none) ?_
        cases result with
        | error status =>
          refine ⟨outcome.1, outcome.2.imp_right fun refused openable fits => refused ?_⟩
          obtain ⟨file', found', accepted'⟩ := fits tableFile rowCount found accepted
          rw [here, Option.some.injEq] at found'
          exact found' ▸ accepted'
        | ok index =>
          refine ⟨⟨tableFile, file, rowCount, found, accepted, settled, here, outcome.1⟩, ?_⟩
          intro tableFile' rowCount' found' accepted'
          rw [found, Option.some.injEq] at found'
          rw [← found', accepted, Except.ok.injEq] at accepted'
          exact ⟨file, here, accepted' ▸ outcome.2⟩
      · refine closing (.error .notFound) u (.refl u) ⟨nofun, .inr fun openable fits => ?_⟩
        obtain ⟨file, found', _⟩ := fits tableFile rowCount found accepted
        rw [← file_congr quiet.entries, gone] at found'
        cases found'
      · dsimp only
        rw [if_neg known]
        exact closing (.error .ioError) u (.refl u) ⟨nofun, .inl calls⟩

/-! ## Rebuilding -/

/-- An index that maps each id of some rows to the offset of its row. -/
structure IndexOf (rows : List Row) (tableName : Bytes) (index : Index) : Prop where
  valid : index.Valid
  named : index.tableName = tableName
  counted : index.entryCount = rows.length
  exact : ∀ key fileOffset, index.find key = some fileOffset ↔
    ∃ r row, rows[r]? = some row ∧ row.id = key ∧ fileOffset = (offsetOf r).toInt64

theorem IndexOf.empty
    (created : index.Valid ∧ (∀ key, index.find key = none) ∧ index.tableName = tableName ∧
    index.entryCount = 0) : IndexOf [] tableName index := by
  obtain ⟨sound, empty, named, none_yet⟩ := created
  refine ⟨sound, named, none_yet, fun key fileOffset => ?_⟩
  rw [empty]
  constructor
  · nofun
  · rintro ⟨r, row, there, _⟩
    cases there

/-- An index of the rows becomes one of another row behind them by one insertion. -/
theorem IndexOf.inserted {rows : List Row} {row : Row} {after : Index} {replace refusals : Bool}
    {status : IndexStatus}
    (index_of : IndexOf rows tableName index) (absent : index.find row.id = none)
    (inserted : Inserted index row.id (offsetOf rows.length).toInt64 replace refusals status after)
    (done : status = .ok) : IndexOf (rows ++ [row]) tableName after := by
  obtain ⟨valid, named, ⟨wrong, _⟩ | ⟨_, _, maps, counts⟩ | ⟨wrong, _⟩⟩ := inserted
  · rw [wrong] at done
    cases done
  · refine ⟨valid, named.trans index_of.named, ?_, fun key fileOffset => ?_⟩
    · rw [counts, if_pos absent, index_of.counted, List.length_append, List.length_singleton]
    · rw [maps]
      constructor
      · intro maps_to
        split at maps_to
        · rename_i same
          cases maps_to
          exact ⟨rows.length, row, List.getElem?_concat_length, same.symm, rfl⟩
        · obtain ⟨r, other, found, id, rfl⟩ := (index_of.exact key fileOffset).mp maps_to
          refine ⟨r, other, ?_, id, rfl⟩
          rw [List.getElem?_append_left (List.getElem?_eq_some_iff.mp found).1, found]
      · rintro ⟨r, other, found, id, rfl⟩
        rw [List.getElem?_append] at found
        split at found
        · have old := (index_of.exact key (offsetOf r).toInt64).mpr ⟨r, other, found, id, rfl⟩
          split
          · rename_i same
            rw [same, absent] at old
            cases old
          · exact old
        · rename_i behind
          obtain ⟨inside, same⟩ := List.getElem?_eq_some_iff.mp found
          rw [List.length_singleton] at inside
          have last : r = rows.length := by omega
          rw [List.getElem_singleton] at same
          rw [if_pos (by rw [← id, ← same]), last]
  · rw [wrong] at done
    cases done

/-- An id is in the index exactly if a row has it. -/
theorem IndexOf.find_none {rows : List Row} (index_of : IndexOf rows tableName index)
    (key : Int32) :
    index.find key = none ↔ key ∉ rows.map Row.id := by
  constructor
  · intro absent among
    obtain ⟨row, member, id⟩ := List.mem_map.mp among
    obtain ⟨r, found⟩ := List.getElem?_of_mem member
    rw [(index_of.exact key _).mpr ⟨r, row, found, id, rfl⟩] at absent
    cases absent
  · intro foreign
    cases found : index.find key with
    | none => rfl
    | some fileOffset =>
      obtain ⟨r, row, there, id, _⟩ := (index_of.exact key fileOffset).mp found
      exact absurd (List.mem_map.mpr ⟨row, List.mem_of_getElem? there, id⟩) foreign

private theorem tableRows_take (bytes : Bytes) {count i : Nat} (inside : i < count) :
    (tableRows bytes count).take (i + 1) = (tableRows bytes count).take i ++ [rowAt bytes i] := by
  have bound : i < (tableRows bytes count).length := by simpa [tableRows] using inside
  rw [← List.take_concat_get' _ i bound]
  simp [tableRows]

/-- The rows of a table go into an empty index, unless two of them have one id. -/
theorem indexRows_spec {table : Table} {path : Path} {position : Nat}
    (found : w.file path = some file) (whole : rowsEnd table.rowCount.toNat ≤ file.bytes.length)
    (start : IndexOf [] tableName index) :
    wp (Steps faults) (Still w) (indexRows table index)
      (fun result v => (∃ p, v = w.cursor table.file path p) ∧ match result with
        | .ok index => IndexOf (tableRows file.bytes table.rowCount.toNat) tableName index
        | .error status => faults.calls = true ∧ status ≠ .ok ∧ status ≠ .duplicatePrimaryKey ∨
            status = .duplicatePrimaryKey ∧
              ¬ ((tableRows file.bytes table.rowCount.toNat).map Row.id).Nodup)
      (w.cursor table.file path position) := by
  have length := length_tableRows file.bytes table.rowCount.toNat
  unfold indexRows
  rw [storageScanBegin_eq]
  refine wp_seq (forRows_spec path
    (fun i index v => (∃ p, v = w.cursor table.file path p) ∧
      IndexOf ((tableRows file.bytes table.rowCount.toNat).take i) tableName index)
    (fun status v => (∃ p, v = w.cursor table.file path p) ∧
      (faults.calls = true ∧ status ≠ .ok ∧ status ≠ .duplicatePrimaryKey ∨
        status = .duplicatePrimaryKey ∧
          ¬ ((tableRows file.bytes table.rowCount.toNat).map Row.id).Nodup))
    (fun u v still same => same.trans still) whole ?_ ?_ ?_ (Nat.zero_le _) (Nat.le_refl _)
      ⟨⟨position, rfl⟩, start⟩)
    (fun _ still => still) ?_
  · rintro i state _ ⟨⟨p, rfl⟩, _⟩
    exact ⟨rfl, openOn_cursor found p⟩
  · rintro i state _ p ⟨⟨q, rfl⟩, index_of⟩
    exact ⟨⟨p, cursor_cursor ..⟩, index_of⟩
  · rintro i index _ inside ⟨⟨p, rfl⟩, index_of⟩
    have named : (offsetOf ((tableRows file.bytes table.rowCount.toNat).take i).length) =
        offsetOf i := by
      rw [List.length_take, length, Nat.min_eq_left (Nat.le_of_lt inside)]
    refine wp_liftMemory (indexInsert_spec index_of.valid _ _ false) rfl ?_
    rintro ⟨status, after⟩ inserted
    cases status with
    | ok =>
      refine ⟨rfl, ⟨p, rfl⟩, ?_⟩
      rw [tableRows_take _ inside]
      obtain ⟨_, _, ⟨wrong, _⟩ | ⟨_, fresh, _⟩ | ⟨wrong, _⟩⟩ := id inserted
      · cases wrong
      · exact index_of.inserted (fresh.resolve_left nofun) (named.symm ▸ inserted) rfl
      · cases wrong
    | duplicateKey =>
      refine ⟨rfl, ⟨p, rfl⟩, .inr ⟨rfl, fun distinct => ?_⟩⟩
      obtain ⟨_, _, ⟨_, _, known, _⟩ | ⟨wrong, _⟩ | ⟨wrong, _⟩⟩ := inserted
      · -- the id of this row is that of a row in front of it
        have among := not_not.mp (mt (index_of.find_none _).mpr known)
        have front := tableRows_take file.bytes inside
        have unique := distinct.sublist ((List.take_sublist (i + 1) _).map Row.id)
        rw [front, List.map_append, List.nodup_append] at unique
        exact unique.2.2 _ among _ (List.mem_singleton.mpr rfl) rfl
      · cases wrong
      · cases wrong
    | allocError =>
      refine ⟨rfl, ⟨p, rfl⟩, .inl ⟨?_, nofun, nofun⟩⟩
      obtain ⟨_, _, ⟨wrong, _⟩ | ⟨wrong, _⟩ | ⟨_, _, _, calls | large⟩⟩ := inserted
      · cases wrong
      · cases wrong
      · exact calls
      · have counted := index_of.counted
        have last := rowOffset_lt_rowsEnd inside
        have least : i ≤ rowOffset i := by
          unfold rowOffset
          omega
        have fits := file.fits
        rw [List.length_take, length] at counted
        unfold rowOffset at last
        unfold maxFileSize at fits
        omega
    | _ => obtain ⟨_, _, ⟨wrong, _⟩ | ⟨wrong, _⟩ | ⟨wrong, _⟩⟩ := inserted <;> cases wrong
  · rintro (status | ⟨status, index⟩) v _ outcome
    · exact ⟨outcome.1.choose_spec ▸ rfl, outcome⟩
    · rcases outcome with ⟨rfl, ⟨p, rfl⟩, index_of⟩ | ⟨calls, rfl, i, ⟨p, rfl⟩, _⟩
      · refine ⟨rfl, ⟨p, rfl⟩, ?_⟩
        rwa [List.take_of_length_le (Nat.le_of_eq length)] at index_of
      · exact ⟨rfl, ⟨p, rfl⟩, .inl ⟨calls, nofun, nofun⟩⟩

/-- A table that opens for reading shows some rows. -/
def ShowsRows (faults : Faults) (tableName : Bytes) (w : World) (rows : List Row) : Prop :=
  ∃ file count, w.file (tablePath tableName) = some file ∧ acceptedCount file.bytes = .ok count ∧
    (faults.access = true ∨ w.file (journalPath tableName) = none) ∧
      rows = tableRows file.bytes count.toNat

/-- The bytes that a rebuild writes: the image of an index of the rows. -/
def Rebuilt (faults : Faults) (tableName : Bytes) (w : World) (bytes : Bytes) : Prop :=
  ∃ rows index, ShowsRows faults tableName w rows ∧ IndexOf rows tableName index ∧ Image index bytes

/-- What a rebuild comes to, also one that is followed by loading. -/
structure IndexRebuilt (faults : Faults) (tableName : Bytes) (w v : World) : Prop where
  around : AroundIndex tableName (Rebuilt faults tableName w) w v
  tidy : faults.calls = true ∨ Tidy tableName w v

/-- A rebuild gives up on a table whose ids are not distinct. -/
def Refuses (faults : Faults) (tableName : Bytes) (w : World) (status : IndexStatus) : Prop :=
  status = .duplicatePrimaryKey →
    ∃ rows, ShowsRows faults tableName w rows ∧ ¬ (rows.map Row.id).Nodup

/-- A table has more rows than an index file can count. -/
def TooManyRows (faults : Faults) (tableName : Bytes) (w : World) : Prop :=
  ∃ rows, ShowsRows faults tableName w rows ∧ UINT32_MAX < rows.length

/-- How a rebuild ends. -/
structure RebuildEnds (faults : Faults) (tableName : Bytes) (w : World) (status : IndexStatus)
    (v : World) : Prop where
  refuses : Refuses faults tableName w status
  unwritten : status = .duplicatePrimaryKey → v.entries = w.entries
  written : status = .ok → Written tableName (Rebuilt faults tableName w) v
  decided : faults.calls = true ∨ (Openable tableName w →
    status = .ok ∨ status = .duplicatePrimaryKey ∨ TooManyRows faults tableName w)

theorem IndexRebuilt.quiet (quiet : Quiet w v) : IndexRebuilt faults tableName w v :=
  ⟨.quiet quiet, .inr fun path _ gone => (file_congr quiet.entries path).trans gone⟩

/-- The name of a table is read back from the path that is made of it. -/
theorem tableNameFromPath_valid (valid : storageValidTableName tableName = true) :
    tableNameFromPath (tablePath tableName) SQL_TABLE_NAME_CAPACITY = some tableName := by
  have parts := storageValidTableName_parts valid
  have noSlash := tablePath_noSlash parts
  have capacity : SQL_TABLE_NAME_CAPACITY = 32 := rfl
  have nonempty : tableName.length ≠ 0 := by
    intro empty
    rw [List.length_eq_zero_iff.mp empty] at valid
    cases valid
  have short := parts.short
  have length : (tablePath tableName).length = tableName.length + 4 := by
    simp [tablePath, str]
  have suffix : (tablePath tableName).drop tableName.length = str ".tbl" := List.drop_left
  have front : (tablePath tableName).take tableName.length = tableName := List.take_left
  have long : tableName.length + 4 > 4 := by omega
  have inside : ¬ (tableName.length = 0 ∨ tableName.length ≥ 32) := by omega
  simp only [tableNameFromPath, lastSlash, noSlash, capacity, length, ↓reduceIte,
    Nat.add_sub_cancel, suffix,
    OfNat.ofNat_ne_zero, and_true, long, inside, front, valid]

theorem AroundIndex.setStream (around : AroundIndex tableName written w v) (new : w.next ≤ h)
    (stream : Option Stream) :
    AroundIndex tableName written w (v.setStream h stream) :=
  ⟨around.frame, around.output, around.next, fun g below =>
    (streams_setStream_ne (by omega) _).trans (around.streams g below), around.index⟩

theorem Spare.congr {path : Path} (spare : Spare path w) (same : v.entries = w.entries) :
    Spare path v := by
  obtain ⟨suffix, portable, free⟩ := spare
  exact ⟨suffix, portable, (file_congr same _).trans free⟩

private theorem rebuildFrom_spec {rowCount : UInt64} {position : Nat}
    (valid : storageValidTableName tableName = true)
    (found : w.file (tablePath tableName) = some file)
    (accepted : acceptedCount file.bytes = .ok rowCount)
    (settled : faults.access = true ∨ w.file (journalPath tableName) = none)
    (possible : faults.calls = true ∨ Spare (indexPath tableName) w) :
    wp (Steps faults) (IndexKept tableName (Rebuilt faults tableName w) w)
      (rebuildFrom { name := tableName, file := w.next, rowCount, writable := false } tableName
        (indexPath tableName))
      (fun status v => IndexRebuilt faults tableName w v ∧ RebuildEnds faults tableName w status v ∧
        ∃ p, v.streams w.next = some { path := tablePath tableName, position := p, pending := [] })
      ({ w with next := w.next + 1 }.cursor w.next (tablePath tableName) position) := by
  have shows : ShowsRows faults tableName w (tableRows file.bytes rowCount.toNat) :=
    ⟨file, rowCount, found, accepted, settled, rfl⟩
  have length := length_tableRows file.bytes rowCount.toNat
  have whole := (acceptedCount_iff.mp accepted).2.2.2.2
  have quiet := quiet_cursor w (tablePath tableName)
  -- every way out in front of persisting leaves the files alone
  have leaving : ∀ status p, Refuses faults tableName w status → status ≠ .ok →
      (faults.calls = true ∨ status = .duplicatePrimaryKey ∨ UINT32_MAX < rowCount.toNat) →
      wp (Steps faults) (IndexKept tableName (Rebuilt faults tableName w) w) (Pure.pure status)
        (fun status v => IndexRebuilt faults tableName w v ∧
          RebuildEnds faults tableName w status v ∧
          ∃ p, v.streams w.next = some
            { path := tablePath tableName, position := p, pending := [] })
        ({ w with next := w.next + 1 }.cursor w.next (tablePath tableName) p) :=
    fun status p refuses failed why => ⟨.still (quiet p).entries, .quiet (quiet p),
      ⟨refuses, fun _ => (quiet p).entries, fun done => absurd done failed,
        why.imp_right fun which _ =>
          .inr (which.imp_right fun many => ⟨_, shows, length.symm ▸ many⟩)⟩,
      p, streams_cursor ..⟩
  unfold rebuildFrom
  split
  · rename_i large
    have word := rowCount.toNat_lt
    dsimp only [SIZE_MAX] at large
    omega
  · refine wp_liftMemory (indexCreateSized_exact valid (utilCopyChecked_valid valid) rowCount.toNat)
      (.still (quiet _).entries) ?_
    rintro (_ | index) ⟨created, refused⟩
    · exact leaving _ _ nofun nofun ((refused rfl).imp_right .inr)
    · have start : IndexOf [] tableName index := .empty (created index rfl)
      refine wp_seq (indexRows_spec (w := { w with next := w.next + 1 }) found whole start)
        (fun v still => .still still) ?_
      rintro (status | index) _ _ ⟨⟨p, rfl⟩, outcome⟩
      · rcases outcome with ⟨calls, failed, other⟩ | ⟨rfl, twice⟩
        · exact leaving _ p (fun same => absurd same other) failed (.inl calls)
        · exact leaving _ p (fun _ => ⟨_, shows, twice⟩) nofun (.inr (.inl rfl))
      · have index_of : IndexOf (tableRows file.bytes rowCount.toNat) tableName index := outcome
        obtain rfl := index_of.named
        have image : ∀ bytes, Image index bytes → Rebuilt faults index.tableName w bytes :=
          fun bytes same => ⟨_, index, shows, index_of, same⟩
        refine wp_seq (indexPersist_spec valid index_of.valid
          (possible.imp id fun spare => spare.congr (quiet p).entries))
          (fun v around => ((AroundIndex.quiet (quiet p)).trans (around.mono image)).kept) ?_
        rintro status v _ ⟨around, other, tidy, done⟩
        have rebuilt : IndexRebuilt faults index.tableName w v := by
          refine ⟨(AroundIndex.quiet (quiet p)).trans (around.mono image),
            tidy.imp id fun tidy path off gone => ?_⟩
          exact tidy.1 path off ((file_congr (quiet p).entries path).trans gone)
        have stream : v.streams w.next =
            some { path := tablePath index.tableName, position := p, pending := [] } :=
          (around.streams w.next (Nat.lt_succ_self _)).trans (streams_cursor ..)
        have ends : RebuildEnds faults index.tableName w status v := by
          refine ⟨fun same => absurd same other, fun same => absurd same other, fun same => ?_, ?_⟩
          · obtain ⟨after, there, holds⟩ := done same
            exact ⟨after, there, image _ holds⟩
          · refine tidy.imp_right fun tidy _ => tidy.2.imp_right fun large => .inr ⟨_, shows, ?_⟩
            rw [← index_of.counted]
            exact large
        split
        · exact ⟨rebuilt.around.kept, rebuilt, ends, p, stream⟩
        · rename_i done
          obtain rfl : status = .ok := of_not_not done
          rw [storageIndexPath_valid valid]
          simp only [↓reduceIte]
          exact ⟨rebuilt.around.kept, rebuilt, ends, p, stream⟩

/-- A rebuild from a table that opens for reading. -/
theorem indexRebuild_spec (possible : faults.calls = true ∨ Spare (indexPath tableName) w) :
    wp (Steps faults) (IndexKept tableName (Rebuilt faults tableName w) w) (indexRebuild tableName)
      (fun status v => IndexRebuilt faults tableName w v ∧
        RebuildEnds faults tableName w status v) w := by
  unfold indexRebuild
  cases valid : storageValidTableName tableName with
  | false =>
    refine ⟨.still rfl, .quiet (.refl w), nofun, nofun, nofun, .inr fun openable => ?_⟩
    rw [openable.valid] at valid
    cases valid
  | true =>
    simp only [Bool.not_true, Bool.false_eq_true, ↓reduceIte]
    rw [storageTablePath_valid valid, storageIndexPath_valid valid]
    unfold indexRebuildFromTable
    dsimp only
    rw [tableNameFromPath_valid valid]
    refine wp_seq (storageOpenTableReadonly_spec valid) (fun _ still => .still still) ?_
    intro result u _ opened
    have quiet := opened.quiet
    cases result with
    | error status =>
      have leaving : ∀ status, status ≠ .duplicatePrimaryKey → status ≠ .ok →
          wp (Steps faults) (IndexKept tableName (Rebuilt faults tableName w) w) (Pure.pure status)
            (fun status v => IndexRebuilt faults tableName w v ∧
              RebuildEnds faults tableName w status v) u :=
        fun status other failed =>
          ⟨.still quiet.entries, .quiet quiet, fun same => absurd same other,
          fun same => absurd same other, fun done => absurd done failed,
          opened.refusal.imp_right fun closed openable => absurd openable closed⟩
      dsimp only
      split
      · exact leaving _ nofun nofun
      split
      · exact leaving _ nofun nofun
      split
      · exact leaving _ nofun nofun
      · exact leaving _ nofun nofun
    | ok table =>
      obtain @⟨rowCount, position, file, found, accepted, settled⟩ := opened
      refine wp_seq (rebuildFrom_spec valid found accepted settled possible) (fun _ kept => kept) ?_
      rintro status v kept ⟨rebuilt, ends, p, stream⟩
      refine wp_closeIdle stream kept ?_
      have around := rebuilt.around.setStream (Nat.le_refl w.next) none
      exact ⟨around.kept, ⟨around, rebuilt.tidy⟩, ends.refuses, ends.unwritten, ends.written,
        ends.decided⟩

theorem ShowsRows.congr {rows : List Row} (shows : ShowsRows faults tableName u rows)
    (same : u.entries = w.entries) : ShowsRows faults tableName w rows := by
  obtain ⟨file, count, found, accepted, settled, rfl⟩ := shows
  rw [file_congr same] at found settled
  exact ⟨file, count, found, accepted, settled, rfl⟩

private theorem Loaded.congr (loaded : Loaded faults tableName u index)
    (same : u.entries = w.entries) :
    Loaded faults tableName w index := by
  obtain ⟨tableFile, file, count, found, accepted, settled, there, exact_entries⟩ := loaded
  rw [file_congr same] at found settled there
  exact ⟨tableFile, file, count, found, accepted, settled, there, exact_entries⟩

/-- The rows that a table shows are those its header counts. -/
theorem ShowsRows.rows {rows : List Row} {rowCount : UInt64}
    (shows : ShowsRows faults tableName w rows) (found : w.file (tablePath tableName) = some file)
    (accepted : acceptedCount file.bytes = .ok rowCount) :
    rows = tableRows file.bytes rowCount.toNat := by
  obtain ⟨file', rowCount', found', accepted', _, rfl⟩ := shows
  rw [found, Option.some.injEq] at found'
  rw [← found', accepted, Except.ok.injEq] at accepted'
  rw [found', accepted']

theorem rebuilt_congr (same : u.entries = w.entries) (bytes : Bytes)
    (rebuilt : Rebuilt faults tableName u bytes) : Rebuilt faults tableName w bytes := by
  obtain ⟨rows, index, shows, rest⟩ := rebuilt
  exact ⟨rows, index, shows.congr same, rest⟩

/-- What a rebuild keeps, it also keeps behind a step that changes no file. -/
theorem IndexKept.after (kept : IndexKept tableName (Rebuilt faults tableName u) u v)
    (same : u.entries = w.entries) :
    IndexKept tableName (Rebuilt faults tableName w) w v := by
  obtain ⟨frame, unchanged | ⟨file, found, holds⟩⟩ := kept
  · exact ⟨(KeptBut.of_eq same).trans frame, .inl (unchanged.trans (file_congr same _))⟩
  · exact ⟨(KeptBut.of_eq same).trans frame, .inr ⟨file, found, rebuilt_congr same _ holds⟩⟩

/-- The index of a table, rebuilt if it has to be. -/
theorem indexLoadOrRebuild_spec (possible : faults.calls = true ∨ Spare (indexPath tableName) w) :
    wp (Steps faults) (IndexKept tableName (Rebuilt faults tableName w) w)
      (indexLoadOrRebuild tableName)
      (fun result v => IndexRebuilt faults tableName w v ∧ match result with
        | .ok index => Loaded faults tableName v index
        | .error status => Refuses faults tableName w status) w := by
  unfold indexLoadOrRebuild
  refine wp_seq (indexLoad_spec tableName) (fun _ still => .still still) ?_
  rintro (status | index) u still ⟨quiet, outcome⟩
  · dsimp only
    split
    · have first : AroundIndex tableName (Rebuilt faults tableName w) w u := .quiet quiet
      have later : ∀ v, AroundIndex tableName (Rebuilt faults tableName u) u v →
          AroundIndex tableName (Rebuilt faults tableName w) w v :=
        fun v around => first.trans (around.mono (rebuilt_congr still))
      refine wp_seq (indexRebuild_spec (possible.imp id fun spare => spare.congr still))
        (fun v kept => kept.after still) ?_
      rintro again v kept ⟨rebuilt, ends⟩
      have tidy : faults.calls = true ∨ Tidy tableName w v :=
        rebuilt.tidy.imp id fun tidy path off gone =>
        tidy path off ((file_congr still path).trans gone)
      have whole : IndexRebuilt faults tableName w v := ⟨later v rebuilt.around, tidy⟩
      split
      · refine ⟨kept.after still, whole, fun same => ?_⟩
        obtain ⟨rows, shows, twice⟩ := ends.refuses same
        exact ⟨rows, shows.congr still, twice⟩
      · have shift : ∀ x, Quiet v x → AroundIndex tableName (Rebuilt faults tableName w) w x :=
          fun x quiet => whole.around.trans (.quiet quiet)
        refine wp_mono (indexLoad_spec tableName) (fun x same => ?_) ?_
        · exact whole.around.kept.congr same
        · rintro result x _ ⟨quiet, outcome⟩
          refine ⟨⟨shift x quiet, whole.tidy.imp id fun tidy path off gone => ?_⟩, ?_⟩
          · exact (file_congr quiet.entries path).trans (tidy path off gone)
          · cases result with
            | error status => exact fun same => absurd same outcome.1
            | ok index => exact outcome.1.congr quiet.entries.symm
    · exact ⟨.still still, .quiet quiet, fun same => absurd same outcome.1⟩
  · exact ⟨.still still, .quiet quiet, outcome.1.congr still.symm⟩

end SqlEngine
