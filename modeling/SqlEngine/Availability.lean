import SqlEngine.Library.Growth
import SqlEngine.Library.Monitor
import SqlEngine.TableRecovery

/-! A table that was made opens again: wherever no journal can be left, each content its
file may have is one that the check of the header accepts, and recovery makes such a file
of any other. -/
namespace SqlEngine

open Library Program World Posix

variable {faults : Faults} {regime : Regime} {rows : List Row} {kept count n i : Nat}
    {w u v x : World} {table : Table}
  {tableName : Bytes} {h : Nat} {file : File} {bytes : Bytes}

/-! ## Accepted contents -/

/-- The words of a header in front of its row count. -/
def wordsShape (limit : Nat) : Shape :=
  { byte := fun i b => i < 24 ∧ b = (headerBytes 0).getD i 0, limit }

/-- A content whose header the check accepts, if it counts so many rows. -/
structure WellFormed (count : Nat) (bytes : Bytes) : Prop where
  words : ∀ i < 24, bytes.getD i 0 = (headerBytes 0).getD i 0
  whole : rowsEnd count ≤ bytes.length

theorem WellFormed.mono {fewer : Nat} (formed : WellFormed count bytes) (few : fewer ≤ count) :
    WellFormed fewer bytes :=
  ⟨formed.words, Nat.le_trans (rowsEnd_mono few) formed.whole⟩

private theorem headerBytes_words (rowCount : UInt64) (front : i < 24) :
    (headerBytes rowCount).getD i 0 = (headerBytes 0).getD i 0 := by
  obtain ⟨words, length, split⟩ : ∃ words : Bytes, words.length = 24 ∧
      ∀ count, headerBytes count = words ++ (putU64Le count ++ List.replicate (64 - 32) 0) :=
    ⟨_, rfl, fun count => List.append_assoc ..⟩
  rw [split, split, List.getD_append _ _ _ _ (by omega), List.getD_append _ _ _ _ (by omega)]

private theorem wordsShape_header {limit : Nat} (rowCount : UInt64) (room : 64 ≤ limit) :
    (wordsShape limit).Agrees 0 (headerBytes rowCount) := by
  refine ⟨fun _ => by rwa [length_headerBytes], ?_⟩
  rintro i inside _ ⟨front, rfl⟩
  rw [Nat.zero_add] at front ⊢
  exact headerBytes_words rowCount front

private theorem WellFormed.torn {left : Bytes}
    (each : ∀ content ∈ file.bytes :: file.older, WellFormed count content)
    (torn : Torn file left) :
    WellFormed count left := by
  -- A torn content has the words and the length that all the others have.
  obtain ⟨content, among, long⟩ := torn.longEnough
  have whole : rowsEnd count ≤ left.length := Nat.le_trans (each content among).whole long
  refine ⟨fun i front => ?_, whole⟩
  have least : 64 ≤ rowsEnd count := rowsEnd_mono (Nat.zero_le count)
  obtain ⟨other, among, same⟩ := torn.byte i (by omega)
  rw [same]
  exact (each other among).words i front

private theorem slice_words (words : ∀ i < 24, bytes.getD i 0 = (headerBytes 0).getD i 0)
    (long : 64 ≤ bytes.length) {k : Nat} (front : k + 4 ≤ 24) :
    slice bytes k 4 = slice (headerBytes 0) k 4 := by
  have length := length_headerBytes 0
  apply List.ext_getElem
  · rw [length_slice, length_slice]
    omega
  · intro j left right
    have inside : j < 4 := by
      rw [length_slice] at left
      omega
    have same := words (k + j) (by omega)
    rw [List.getD_eq_getElem _ _ (by omega), List.getD_eq_getElem _ _ (by omega)] at same
    simpa [slice] using same

/-- Such a content with the right count is accepted. -/
theorem WellFormed.accepted (formed : WellFormed n file.bytes)
    (counts : (headerOf file.bytes).count.toNat = n) :
    acceptedCount file.bytes = .ok (headerOf file.bytes).count := by
  have least : 64 ≤ rowsEnd n := rowsEnd_mono (Nat.zero_le n)
  have long : 64 ≤ file.bytes.length := Nat.le_trans least formed.whole
  have fits := file.fits
  unfold maxFileSize at fits
  have current : (headerOf file.bytes).Current := by
    obtain ⟨current, _⟩ := headerOf_headerBytes 0 []
    rw [List.append_nil] at current
    have word := fun k front => congrArg getU32Le (slice_words formed.words long (k := k) front)
    exact ⟨(word 0 (by omega)).trans current.magic, (word 4 (by omega)).trans current.version,
      (word 8 (by omega)).trans current.headerSize, (word 12 (by omega)).trans current.pageSize,
      (word 16 (by omega)).trans current.rowSize, (word 20 (by omega)).trans current.reserved0⟩
  have whole := formed.whole
  exact acceptedCount_iff.mpr
    ⟨long, current, rfl, by rw [counts]; omega, by rw [counts]; exact whole⟩

/-! ## Tables that stand -/

/-- A table that is there for good, with so many rows: unless a journal is sure to be there,
each of its contents is accepted. -/
structure Standing (tableName : Bytes) (count : Nat) (w : World) : Prop where
  there : (w.file (tablePath tableName)).isSome = true
  lasting : (w.entries (tablePath tableName)).before = []
  formed : Journal true tableName w none →
    Throughout true (WellFormed count) w (tablePath tableName)

/-- A table stands as long as its two files are kept. -/
theorem Standing.of_kept (standing : Standing tableName count w)
    (sameTable : Kept (w.entries (tablePath tableName)) (v.entries (tablePath tableName)))
    (sameJournal : Kept (w.entries (journalPath tableName)) (v.entries (journalPath tableName))) :
    Standing tableName count v where
  there := sameTable.same_file ▸ standing.there
  lasting := by
    refine List.eq_nil_iff_forall_not_mem.mpr fun meaning among => ?_
    have old := sameTable.earlier meaning among
    rw [standing.lasting] at old
    cases old
  formed gone := (standing.formed (gone.of_kept sameJournal)).congr sameTable.same_file

/-- A crash cannot take such a table. -/
theorem Standing.crashed (standing : Standing tableName count w) (crash : Crash w v)
    (few : n ≤ count) :
    Standing tableName n v := by
  obtain ⟨settled, table⟩ := crash.entry (tablePath tableName)
  obtain ⟨settled', journal⟩ := crash.entry (journalPath tableName)
  rw [standing.lasting] at table
  obtain ⟨before, found⟩ := Option.isSome_iff_exists.mp standing.there
  rw [found] at table
  rcases table with ⟨_, gone⟩ | ⟨origin, left, among, there, synced, torn⟩
  · rw [List.mem_singleton] at gone
    cases gone
  · rw [List.mem_singleton, Option.some.injEq] at among
    subst among
    refine ⟨there ▸ rfl, settled, fun gone => ?_⟩
    have possible : Journal true tableName w none := by
      have lost : v.file (journalPath tableName) = none := by
        rcases gone with now | earlier
        · exact now.symm
        · rw [Entry.earlier, settled'] at earlier
          simp at earlier
      rcases journal with ⟨_, here⟩ | ⟨_, _, _, other, _⟩
      · rcases List.mem_cons.mp here with now | old
        · exact .inl now
        · exact .inr (by simpa [Entry.earlier] using old)
      · rw [lost] at other
        cases other
    have formed := standing.formed possible origin found
    refine throughout_synced there synced
      (WellFormed.mono (WellFormed.torn (fun content among => ?_) torn) few)
    exact formed content (by simpa [File.contents] using among)

/-- A table that stands, behind its journal, is accepted. -/
theorem Standing.accepts (standing : Standing tableName rows.length w)
    (inv : TableInv regime tableName w rows kept) (settled : w.file (journalPath tableName) = none)
    (found : w.file (tablePath tableName) = some file) :
    ∃ rowCount, acceptedCount file.bytes = .ok rowCount := by
  have fits := (inv.counts (.inl settled.symm)).bytes found
  have counts := count_of_fits (fun i b fixed => fits.byte i b (.inr fixed)) inv.small
  exact ⟨_, ((standing.formed (.inl settled.symm)).bytes found).accepted counts⟩

/-! ## Recovery -/

/-- `recover_insert_journal` up to the sync of the header: the size to cut the table to, if
there is a journal. -/
def recoverHeader (tableFile : Nat)
    (tableName : Bytes) : Prog (Except TableStatus (Option Nat)) := do
  match ← openFile (journalPath tableName) false with
  | .error errno => if errno = .enoent then return .ok none else return .error .durabilityError
  | .ok fd =>
    match ← readJournal fd with
    | none =>
      let _ ← close fd
      return .error .corrupt
    | some bytes =>
      match ← close fd with
      | .error _ => return .error .durabilityError
      | .ok () =>
        let some (previousCount, oldSize) :=
          validateJournal bytes tableName | return .error .corrupt
        match ← writeHeader tableFile previousCount with
        | .error _ => return .error .durabilityError
        | .ok () =>
          if !(← utilFlushAndSync tableFile) then return .error .durabilityError
          return .ok (some oldSize)

/-- The rest of `recover_insert_journal`. -/
def recoverSize (tableFile : Nat) (tableName : Bytes)
    (oldSize : Nat) : Prog (Except TableStatus Unit) := do
  match ← ftruncate tableFile oldSize with
  | .error _ => return .error .durabilityError
  | .ok () =>
    if !(← utilFlushAndSync tableFile) then return .error .durabilityError
    match ← unlink (journalPath tableName) with
    | .error _ => return .error .durabilityError
    | .ok () =>
      if !(← utilSyncParentDirectory (journalPath tableName)) then return .error .durabilityError
      return .ok ()

private theorem recoverInsertJournal_eq (tableFile : Nat)
    (valid : storageValidTableName tableName = true) :
    recoverInsertJournal tableFile tableName = recoverHeader tableFile tableName >>= fun
      | .error status => Pure.pure (.error status)
      | .ok none => Pure.pure (.ok ())
      | .ok (some oldSize) => recoverSize tableFile tableName oldSize := by
  unfold recoverInsertJournal recoverHeader
  rw [storageJournalPath_valid valid]
  refine bind_cut fun opened => ?_
  rcases opened with errno | fd
  · dsimp only
    split <;> rfl
  refine bind_cut fun journal => ?_
  rcases journal with _ | bytes
  · rfl
  refine bind_cut fun closed => ?_
  rcases closed with _ | _
  · rfl
  dsimp only
  cases validateJournal bytes tableName with
  | none => rfl
  | some found =>
    refine bind_cut fun headed => ?_
    rcases headed with _ | _
    · rfl
    refine bind_cut fun synced => ?_
    cases synced <;> rfl

private theorem writeFields_grows (fields : List Bytes) :
    Only Call.Grows (writeFields h fields) := by
  induction fields with
  | nil => exact only_pure _
  | cons field fields ih =>
    refine only_bind (only_perform trivial) fun answer => ?_
    rcases answer with _ | _
    · exact only_pure _
    · exact ih

private theorem utilFlushAndSync_grows : Only Call.Grows (utilFlushAndSync h) := by
  refine only_bind (only_perform trivial) fun answer => ?_
  rcases answer with _ | _
  · exact only_pure _
  · refine only_bind (only_perform trivial) fun answer => ?_
    rcases answer with _ | _ <;> exact only_pure _

private theorem writeHeader_grows (rowCount : UInt64) :
    Only Call.Grows (writeHeader h rowCount) := by
  refine only_bind (only_perform trivial) fun answer => ?_
  rcases answer with _ | _
  · exact only_pure _
  refine only_bind (writeFields_grows _) fun written => ?_
  cases written with
  | false => exact only_pure _
  | true =>
    refine only_bind (only_perform trivial) fun answer => ?_
    rcases answer with _ | _ <;> exact only_pure _

private theorem readJournal_grows : Only Call.Grows (readJournal h) := by
  refine only_bind (only_perform trivial) fun answer => ?_
  rcases answer with _ | bytes
  · exact only_pure _
  dsimp only
  split
  · exact only_pure _
  · refine only_bind (only_perform trivial) fun answer => ?_
    rcases answer with _ | extra
    · exact only_pure _
    · dsimp only
      split <;> exact only_pure _

private theorem recoverHeader_grows : Only Call.Grows (recoverHeader h tableName) := by
  -- In front of its `ftruncate`, recovery makes no file shorter.
  refine only_bind (only_perform rfl) fun opened => ?_
  rcases opened with errno | fd
  · dsimp only
    split <;> exact only_pure _
  refine only_bind readJournal_grows fun journal => ?_
  rcases journal with _ | bytes
  · exact only_bind (only_perform trivial) fun _ => only_pure _
  refine only_bind (only_perform trivial) fun closed => ?_
  rcases closed with _ | _
  · exact only_pure _
  dsimp only
  cases validateJournal bytes tableName with
  | none => exact only_pure _
  | some found =>
    refine only_bind (writeHeader_grows _) fun headed => ?_
    rcases headed with _ | _
    · exact only_pure _
    refine only_bind utilFlushAndSync_grows fun synced => ?_
    cases synced <;> exact only_pure _

/-- The header of a table may be written again, and nothing else. -/
structure Headed (tableName : Bytes) (limit : Nat) (w v : World) : Prop where
  journal : v.entries (journalPath tableName) = w.entries (journalPath tableName)
  before : (v.entries (tablePath tableName)).before = (w.entries (tablePath tableName)).before
  there : (v.file (tablePath tableName)).isSome = true
  words : Throughout true (wordsShape limit).Fits w (tablePath tableName) →
    Throughout true (wordsShape limit).Fits v (tablePath tableName)

private theorem Headed.quiet {limit : Nat} (quiet : Quiet w v)
    (there : (w.file (tablePath tableName)).isSome = true) :
    Headed tableName limit w v :=
  ⟨congrFun quiet.entries _, congrArg Entry.before (congrFun quiet.entries _),
    (file_congr quiet.entries _).symm ▸ there, fun fits => fits.congr (file_congr quiet.entries _)⟩

private theorem Headed.writes {limit : Nat} (headed : Headed tableName limit w u)
    (writes : Writes true (· = wordsShape limit) (tablePath tableName) h u v) :
    Headed tableName limit w v :=
  ⟨(writes.entries _ (journalPath_ne_tablePath _)).trans headed.journal,
    writes.before.trans headed.before, writes.there,
    fun fits => writes.fits _ rfl (headed.words fits)⟩

/-- What the handle on the table buffers puts no wrong word into the header. -/
def WordsHeld (tableName : Bytes) (limit h : Nat) (v : World) : Prop :=
  ∃ position pending, v.streams h = some { path := tablePath tableName, position, pending } ∧
    (wordsShape limit).Agrees position pending

/-- The header is durable, and the table is to be cut to its rows. -/
structure HeaderDone (tableName : Bytes) (n h oldSize : Nat) (v : World) : Prop where
  size : oldSize = rowsEnd n ∧ rowsEnd n ≤ maxFileSize
  stream : v.streams h = some { path := tablePath tableName, position := 64, pending := [] }
  file : ∃ file, v.file (tablePath tableName) = some file ∧ file.older = [] ∧
    ∀ i < 24, file.bytes.getD i 0 = (headerBytes 0).getD i 0

private theorem recoverHeader_spec {limit : Nat} (room : 64 ≤ limit)
    (inv : TableInv regime tableName w rows kept)
    (there : (w.file (tablePath tableName)).isSome = true) (old : h < w.next)
    (opened : w.streams h = some { path := tablePath tableName, position := 0, pending := [] }) :
    wp (Steps faults) (Headed tableName limit w) (recoverHeader h tableName)
      (fun result v => Headed tableName limit w v ∧ WordsHeld tableName limit h v ∧
        ∀ oldSize, result = .ok (some oldSize) →
          HeaderDone tableName rows.length h oldSize v) w := by
  have quiet : ∀ v, Quiet w v → Headed tableName limit w v := fun v same => .quiet same there
  have still : ∀ v, Quiet w v → WordsHeld tableName limit h v := fun v same =>
    ⟨0, [], (same.streams h old).trans opened, Shape.agrees_nil⟩
  have refused : ∀ status v, Headed tableName limit w v → WordsHeld tableName limit h v →
      wp (Steps faults) (Headed tableName limit w)
        (Pure.pure (.error status : Except TableStatus (Option Nat)))
        (fun result v => Headed tableName limit w v ∧ WordsHeld tableName limit h v ∧
          ∀ oldSize, result = .ok (some oldSize) →
            HeaderDone tableName rows.length h oldSize v) v :=
    fun status v headed held => ⟨headed, headed, held, nofun⟩
  have fresh : ∀ stream, Quiet w ({ w with next := w.next + 1 }.setStream w.next stream) :=
    Quiet.newHandle w
  unfold recoverHeader
  refine wp_openFile (quiet w (.refl w)) (fun present => ?_) (fun gone => ?_)
    fun calls error known => ?_
  · obtain ⟨journal, found⟩ := Option.isSome_iff_exists.mp present
    have valid_journal := inv.present journal found
    obtain ⟨previousCount, counted, accepted⟩ := valid_journal.valid
    rw [opened_eq]
    dsimp only
    refine wp_seq (readJournal_exact (w := { w with next := w.next + 1 }) found)
      (fun v same => ?_) ?_
    · obtain ⟨p, rfl⟩ := same
      exact quiet _ (fresh _)
    rintro result _ ⟨p, rfl⟩ outcome
    have closed : ({ w with next := w.next + 1 }.cursor w.next
        (journalPath tableName) p).setStream w.next none =
        { w with next := w.next + 1 }.setStream w.next none := setStream_setStream ..
    rcases result with _ | bytes
    · refine wp_close (quiet _ (fresh _)) ?_ fun _ _ => ?_
      · exact closed ▸ refused _ _ (quiet _ (fresh none)) (still _ (fresh none))
      · exact closed ▸ refused _ _ (quiet _ (fresh none)) (still _ (fresh none))
    obtain rfl : bytes = journal.bytes := by
      rw [if_pos valid_journal.length] at outcome
      rcases outcome with same | ⟨_, same⟩
      · exact Option.some.inj same
      · cases same
    refine wp_close (quiet _ (fresh _)) ?_ fun _ _ =>
      closed ▸ refused _ _ (quiet _ (fresh none)) (still _ (fresh none))
    rw [closed]
    generalize named : ({ w with next := w.next + 1 }.setStream w.next none) = u
    have base : Quiet w u := named ▸ fresh none
    have headed := quiet u base
    have stream :
        u.streams h = some { path := tablePath tableName, position := 0, pending := [] } :=
      (base.streams h old).trans opened
    obtain ⟨file, foundT⟩ := Option.isSome_iff_exists.mp headed.there
    have held : ∀ x, Writes true (· = wordsShape limit) (tablePath tableName) h u x →
        WordsHeld tableName limit h x := by
      rintro x writes
      obtain ⟨position, pending, stream, agrees⟩ := writes.stream
      exact ⟨position, pending, stream, agrees _ rfl⟩
    have begun : Writes true (· = wordsShape limit) (tablePath tableName) h u u :=
      .start headed.there stream fun _ _ => Shape.agrees_nil
    dsimp only
    rw [accepted]
    dsimp only
    refine Writes.wp_header begun stream foundT
      (fun shape same => same ▸ wordsShape_header previousCount room)
      (fun x writes => headed.writes writes) (fun x middle writes moved foundX content => ?_)
      fun _ x writes => refused _ x (headed.writes writes) (held x writes)
    refine Writes.wp_flushAndSync writes moved foundX (fun x writes => headed.writes writes)
      (fun x after writes moved foundX synced same => ?_) fun _ x writes =>
        refused _ x (headed.writes writes) (held x writes)
    refine ⟨headed.writes writes, headed.writes writes, held x writes, ?_⟩
    rintro _ ⟨⟩
    refine ⟨⟨rfl, valid_journal.size⟩, moved, after, foundX, synced, fun i front => ?_⟩
    rw [same, patch_nil, content, getD_patch, if_pos (by rw [length_headerBytes]; omega),
      Nat.sub_zero]
    exact headerBytes_words previousCount front
  · exact ⟨quiet w (.refl w), quiet w (.refl w), still w (.refl w), nofun⟩
  · dsimp only
    rw [if_neg known]
    exact refused _ w (quiet w (.refl w)) (still w (.refl w))

private theorem Headed.standing {limit : Nat} (standing : Standing tableName n w)
    (headed : Headed tableName limit w v)
    (fits : Journal true tableName w none →
      Throughout true (wordsShape limit).Fits w (tablePath tableName))
    (long : Journal true tableName w none →
      ThereThroughout true (fun bytes => rowsEnd n ≤ bytes.length) (tablePath tableName) v) :
    Standing tableName n v := by
  refine ⟨headed.there, headed.before.trans standing.lasting, fun gone => ?_⟩
  have possible : Journal true tableName w none := gone.of_kept (Kept.of_eq headed.journal)
  intro file found content among
  exact ⟨fun i front => (headed.words (fits possible) file found content among).byte i _
    ⟨front, rfl⟩,
    (long possible).2 file found content among⟩

private theorem Standing.fits {limit : Nat} (standing : Standing tableName n w)
    (bound : Throughout true (boundShape limit).Fits w (tablePath tableName))
    (possible : Journal true tableName w none) :
    Throughout true (wordsShape limit).Fits w (tablePath tableName) := by
  intro file found content among
  refine ⟨(bound file found content among).length, ?_⟩
  rintro i _ ⟨front, rfl⟩
  exact (standing.formed possible file found content among).words i front

private theorem recoverSize_spec {oldSize : Nat} (valid : storageValidTableName tableName = true)
    (standing : Standing tableName n w) (headed : HeaderDone tableName n h oldSize w) :
    wp (Steps faults) (Standing tableName n) (recoverSize h tableName oldSize)
      (fun _ v => Standing tableName n v ∧
        v.streams h = some { path := tablePath tableName, position := 64, pending := [] }) w := by
  obtain ⟨⟨rfl, size⟩, stream, file, found, synced, words⟩ := headed
  have least : 64 ≤ rowsEnd n := rowsEnd_mono (Nat.zero_le n)
  have apart := journalPath_ne_tablePath tableName
  have cut : WellFormed n (resizedFile file (rowsEnd n) size).bytes := by
    refine ⟨fun i front => ?_, Nat.le_of_eq (length_resize ..).symm⟩
    exact (getD_resize _ _ _ (by omega)).trans (words i front)
  have refused : ∀ status v, Standing tableName n v →
      v.streams h = some { path := tablePath tableName, position := 64, pending := [] } →
      wp (Steps faults) (Standing tableName n) (Pure.pure (.error status : Except TableStatus Unit))
        (fun _ v => Standing tableName n v ∧
          v.streams h = some { path := tablePath tableName, position := 64, pending := [] }) v :=
    fun _ v standing stream => ⟨standing, standing, stream⟩
  unfold recoverSize
  refine wp_ftruncate stream found size standing ?_ fun _ _ => refused _ w standing stream
  dsimp only
  generalize shortened : w.setFile (tablePath tableName) (resizedFile file (rowsEnd n) size) = y
  have tableY : y.entries (tablePath tableName) =
      { (w.entries (tablePath tableName)) with now := some (resizedFile file (rowsEnd n) size) } :=
    shortened ▸ entries_setEntry ..
  have foundY : y.file (tablePath tableName) = some (resizedFile file (rowsEnd n) size) :=
    congrArg Entry.now tableY
  have journalY : y.entries (journalPath tableName) = w.entries (journalPath tableName) :=
    shortened ▸ entries_setEntry_ne apart _
  have streamY : y.streams h = some
      { path := tablePath tableName, position := 64, pending := [] } := shortened ▸ stream
  have standingY : Standing tableName n y := by
    refine ⟨foundY ▸ rfl, (congrArg Entry.before tableY).trans standing.lasting, fun gone => ?_⟩
    have formed := standing.formed (gone.of_kept (Kept.of_eq journalY))
    intro other there content among
    rw [foundY, Option.some.injEq] at there
    subst there
    simp only [File.contents, resizedFile, synced, List.nil_append, ↓reduceIte, List.mem_cons,
      List.not_mem_nil,
      or_false] at among
    rcases among with rfl | rfl
    · exact cut
    · exact formed.bytes found
  -- nothing is buffered, so the flush writes nothing
  refine wp_utilFlushAndSync streamY standingY ?_ (fun _ => ?_)
    (fun _ written kept => ?_) fun _ => ?_
  · rw [passOn_nil]
    exact standingY.of_kept (Kept.refl _) (Kept.refl _)
  · rw [passOn_nil]
    generalize flushed :
      (y.setStream h (some { path := tablePath tableName, position := 64, pending := [] })) = z
    have foundZ : z.file (tablePath tableName) = some (resizedFile file (rowsEnd n) size) :=
      flushed ▸ foundY
    have done : ∀ x : World, Kept ((z.syncFile (tablePath tableName)).entries (tablePath tableName))
        (x.entries (tablePath tableName)) → Standing tableName n x := by
      intro x same
      have foundX := same.same_file.trans (file_syncFile foundZ)
      refine ⟨foundX ▸ rfl, ?_, fun _ => throughout_synced foundX rfl cut⟩
      refine List.eq_nil_iff_forall_not_mem.mpr fun meaning among => ?_
      have old := same.earlier meaning among
      rw [before_syncFile, ← flushed, entries_setStream, standingY.lasting] at old
      cases old
    simp only [Bool.not_true, Bool.false_eq_true, ↓reduceIte]
    have synced := done _ (Kept.refl _)
    have streamZ : (z.syncFile (tablePath tableName)).streams h =
        some { path := tablePath tableName, position := 64, pending := [] } := by
      rw [streams_syncFile, ← flushed, streams_setStream]
    refine wp_unlink synced (fun _ => ?_) (fun _ => refused _ _ synced streamZ) fun _ _ =>
      refused _ _ synced streamZ
    have removed : Kept ((z.syncFile (tablePath tableName)).entries (tablePath tableName))
        (((z.syncFile (tablePath tableName)).rebind (journalPath tableName) none).entries
          (tablePath tableName)) :=
      Kept.of_eq (entries_rebind_ne (Ne.symm apart) _)
    have unlinked := done _ removed
    have durable := done _ (removed.trans (syncDirectory_kept _ _))
    exact wp_utilSyncParentDirectory
      (journalPath_noSlash (storageValidTableName_parts valid)) unlinked
      ⟨durable, durable, streamZ⟩ (fun _ _ => ⟨unlinked, unlinked, streamZ⟩)
      (fun _ => refused _ _ unlinked streamZ) fun _ => refused _ _ durable streamZ
  · rw [passOn_nil]
    exact refused _ _ (standingY.of_kept (Kept.refl _) (Kept.refl _)) (streams_setStream ..)
  · rw [passOn_nil]
    exact refused _ _ (standingY.of_kept (Kept.refl _) (Kept.refl _)) (streams_setStream ..)

private theorem recoverInsertJournal_stands (crashing : regime.crashes = true)
    (valid : storageValidTableName tableName = true) (inv : TableInv regime tableName w rows kept)
    (standing : Standing tableName rows.length w) (old : h < w.next)
    (opened : w.streams h = some { path := tablePath tableName, position := 0, pending := [] }) :
    wp (Steps faults) (Standing tableName rows.length) (recoverInsertJournal h tableName)
      (fun _ v => Standing tableName rows.length v ∧
        WordsHeld tableName (regime.limit (rows.length + 1)) h v) w := by
  have bound := inv.bound
  rw [crashing] at bound
  have fits := standing.fits bound
  have long : Journal true tableName w none →
      ThereThroughout true (fun bytes => rowsEnd rows.length ≤ bytes.length)
      (tablePath tableName) w := fun possible =>
    ⟨standing.there, (standing.formed possible).mono fun _ formed => formed.whole⟩
  have headed : wp (Steps faults) _ (recoverHeader h tableName) _ w :=
    recoverHeader_spec (limit_ge regime (rows.length + 1)) inv standing.there old opened
  have grown :
      wp (Steps faults) (fun v => _ ∧ (Journal true tableName w none → ThereThroughout true _ _ v))
      (recoverHeader h tableName) (fun result v => _ ∧
        (Journal true tableName w none → ThereThroughout true _ _ v)) w :=
    recoverHeader_grows.keeps
      (fun _ _ _ _ grows holds did possible =>
        grows.keeps did patch_grows (holds possible)) long headed
  rw [recoverInsertJournal_eq h valid]
  refine wp_seq grown (fun v both => both.1.standing standing fits both.2) ?_
  rintro result v ⟨headed, grown⟩ ⟨⟨_, held, done⟩, _⟩
  have stands := headed.standing standing fits grown
  rcases result with status | _ | oldSize
  · exact ⟨stands, stands, held⟩
  · exact ⟨stands, stands, held⟩
  · exact wp_mono (recoverSize_spec valid stands (done oldSize rfl)) (fun _ stands => stands)
      fun _ _ _ ⟨stands, stream⟩ => ⟨stands, 64, [], stream, Shape.agrees_nil⟩

/-! ## Opening -/

private theorem WellFormed.patched {limit offset : Nat} {data : Bytes} (formed : WellFormed n bytes)
    (agrees : (wordsShape limit).Agrees offset data) : WellFormed n (patch bytes offset data) := by
  refine ⟨fun i front => ?_, patch_grows bytes offset data formed.whole⟩
  rw [getD_patch]
  split
  · refine agrees.byte (i - offset) (by omega) _ ⟨by omega, ?_⟩
    rw [show offset + (i - offset) = i by omega]
  · exact formed.words i front

private theorem Standing.passed {limit position : Nat} {pending : Bytes}
    (standing : Standing tableName n w) (agrees : (wordsShape limit).Agrees position pending)
    (written kept : Nat) (noted : Option Stream) :
    Standing tableName n
      ((w.passOn h ⟨tablePath tableName, position, pending⟩ pending written kept).setStream h noted)
        := by
  have apart := journalPath_ne_tablePath tableName
  have begun : (w.write (tablePath tableName) position (pending.take written)).entries
      (journalPath tableName) =
      w.entries (journalPath tableName) := entries_write_ne apart ..
  obtain ⟨file, found⟩ := Option.isSome_iff_exists.mp standing.there
  obtain ⟨after, here, _⟩ := file_write false found position (pending.take written)
  refine ⟨Option.isSome_iff_exists.mpr ⟨after, here⟩, (before_write ..).trans standing.lasting,
    fun gone => ?_⟩
  exact (standing.formed (gone.of_kept (Kept.of_eq begun))).write fun bytes formed =>
    formed.patched (agrees.take written)

private theorem storageOpenTable_standing (crashing : regime.crashes = true)
    (valid : storageValidTableName tableName = true) (inv : TableInv regime tableName w rows kept)
    (standing : Standing tableName rows.length w) :
    wp (Steps faults) (Standing tableName rows.length) (storageOpenTable tableName)
      (fun result v => Standing tableName rows.length v ∧ ∀ status, result = .error status →
        faults.calls = true) w := by
  have still : ∀ v, v.entries = w.entries → Standing tableName rows.length v := fun v same =>
    standing.of_kept (Kept.of_eq (congrFun same _)) (Kept.of_eq (congrFun same _))
  have failing : ∀ status v, faults.calls = true → Standing tableName rows.length v →
      wp (Steps faults) (Standing tableName rows.length)
        (Pure.pure (.error status : Except TableStatus Table))
        (fun result v => Standing tableName rows.length v ∧ ∀ status, result = .error status →
          faults.calls = true) v :=
    fun _ _ calls stands => ⟨stands, stands, fun _ _ => calls⟩
  unfold storageOpenTable storageOpenTableMode
  rw [valid, utilCopyChecked_valid valid, storageTablePath_valid valid,
    storageJournalPath_valid valid]
  refine wp_allocate standing ?_ fun calls => failing _ w calls standing
  refine wp_openFile standing (fun present => ?_) (fun gone => ?_) fun calls error known => ?_
  · rw [opened_eq]
    have fresh := Quiet.newHandle w
    refine wp_fdopen (still _ (fresh _).entries) ?_ fun calls error =>
      wp_close (still _ (fresh _).entries) ?_ fun _ _ => ?_
    · simp only [↓reduceIte]
      generalize named : { w with next := w.next + 1 }.cursor w.next (tablePath tableName) 0 = u
      have quiet : Quiet w u := named ▸ fresh _
      have stream : u.streams w.next =
          some { path := tablePath tableName, position := 0, pending := [] } :=
        named ▸ streams_cursor ..
      have new : w.next < u.next := named ▸ Nat.lt_succ_self _
      have standingU := still u quiet.entries
      have invU :=
        inv.of_kept (Kept.of_eq (congrFun quiet.entries _)) (Kept.of_eq (congrFun quiet.entries _))
      have recovers : wp (Steps faults) _ (recoverInsertJournal w.next tableName) _ u :=
        recoverInsertJournal_spec valid invU standingU.there stream new
      refine wp_seq
        (wp_both recovers (recoverInsertJournal_stands crashing valid invU standingU new stream))
        (fun v both => both.2) ?_
      rintro (status | _) v _ ⟨⟨recovering, outcome⟩, stands, position, pending, held, agrees⟩
      · have closed := fun written kept => stands.passed (h := w.next) agrees written kept none
        exact wp_fclose held stands (fun _ => failing _ _ outcome.1 (closed _ _))
          fun _ _ _ _ => failing _ _ outcome.1 (closed _ _)
      · obtain ⟨settled, _, p, opened⟩ := outcome
        obtain ⟨file, found⟩ := Option.isSome_iff_exists.mp recovering.there
        obtain ⟨rowCount, accepted⟩ := stands.accepts recovering.inv settled found
        rw [← setStream_self opened]
        refine wp_mono (finishOpen_spec found tableName true) (fun x same => ?_) ?_
        · exact stands.of_kept (Kept.of_eq (congrFun same _)) (Kept.of_eq (congrFun same _))
        · rintro (status | table) x same finished
          · refine ⟨stands.of_kept (Kept.of_eq (congrFun same _)) (Kept.of_eq (congrFun same _)),
              fun _ _ => ?_⟩
            rcases finished.1 with refusal | calls
            · rw [accepted] at refusal
              cases refusal
            · exact calls
          · exact ⟨stands.of_kept (Kept.of_eq (congrFun same _))
              (Kept.of_eq (congrFun same _)), nofun⟩
    · exact failing _ _ calls (still _ rfl)
    · exact failing _ _ calls (still _ rfl)
  · have there := standing.there
    rw [gone] at there
    cases there
  · dsimp only
    rw [if_neg known]
    split <;> exact failing _ w calls standing

/-! ## Insertion -/

section Insert

variable {row : Row} {offset newCount : UInt64} {up : Prop}

/-- While the journal is sure to be there, the table file may hold anything. -/
theorem standing_armed (armed : Armed true tableName w n)
    (there : (w.file (tablePath tableName)).isSome = true)
    (lasting : (w.entries (tablePath tableName)).before = []) (m : Nat) :
    Standing tableName m w := by
  refine ⟨there, lasting, fun gone => ?_⟩
  obtain ⟨_, same, _⟩ := armed _ gone
  cases same

private theorem wellFormed_inserted {content : Bytes}
    (image : file.bytes = insertedBytes content n row newCount) :
    WellFormed (n + 1) file.bytes := by
  have some_row : storageSerializeRow row ≠ [] :=
    List.ne_nil_of_length_pos (by rw [length_storageSerializeRow]; decide)
  rw [image, insertedBytes]
  refine ⟨fun i front => ?_, ?_⟩
  · rw [getD_patch, if_pos (by rw [length_headerBytes]; omega), Nat.sub_zero]
    exact headerBytes_words newCount front
  · refine patch_grows _ _ _ ?_
    rw [length_patch some_row, length_storageSerializeRow, rowsEnd_succ]
    omega

private theorem insertUncommitted_standing (crashing : regime.crashes = true)
    (valid : storageValidTableName table.name = true) (inv : TableInv regime table.name w rows kept)
    (counted : table.rowCount.toNat = rows.length) (old : table.file < w.next)
    (held : Held regime.crashes table.name (regime.before rows) rows.length table.file w)
    (sound : regime.crashes = true → faults.unsupported = false)
    (settled : w.file (journalPath table.name) = none)
    (standing : up → Standing table.name rows.length w) (failing : faults.calls = true) :
    wp (Steps faults) (fun v => up → Standing table.name rows.length v)
      (insertUncommitted table row)
      (fun result v => (up → Standing table.name rows.length v) ∧ ∀ value, result = .ok value →
        ∃ file, v.file (tablePath table.name) = some file ∧ file.older = []) w := by
  -- The table file is durable when the header was synced.
  have parts := storageValidTableName_parts valid
  have refused : ∀ status v, (up → Standing table.name rows.length v) →
      wp (Steps faults) (fun v => up → Standing table.name rows.length v)
        (Pure.pure (.error status : Except TableStatus (UInt64 × UInt64)))
        (fun result v => (up → Standing table.name rows.length v) ∧ ∀ value, result = .ok value →
          ∃ file, v.file (tablePath table.name) = some file ∧ file.older = []) v :=
    fun _ _ stands => ⟨stands, stands, nofun⟩
  unfold insertUncommitted
  split
  · exact refused _ w standing
  cases placed : storageOffsetForRow table.rowCount with
  | none => exact refused _ w standing
  | some offset =>
    dsimp only
    split
    · exact refused _ w standing
    rename_i small
    cases next : utilAddU64 table.rowCount 1 with
    | none => exact refused _ w standing
    | some newCount =>
      rw [storageJournalPath_valid valid]
      have position : offset.toNat = rowOffset rows.length :=
        counted ▸ storageOffsetForRow_iff.mp placed
      have longMax : LONG_MAX = maxFileSize := rfl
      have ends := rowsEnd_le_rowOffset rows.length
      have journal : IsJournal table.name table.rowCount.toNat
          (journalImage table row offset newCount) :=
        journalImage_valid parts next placed (by rw [counted]; omega)
      rw [counted] at journal
      have around : ∀ v, AroundJournal regime table.name rows kept w v → up →
          Standing table.name rows.length v := by
        intro v around known
        have same : Kept (w.entries (tablePath table.name)) (v.entries (tablePath table.name)) :=
          around.frame _ (journalPath_not_front table.name)
        have before := standing known
        refine ⟨same.same_file ▸ before.there, ?_, fun _ =>
          (before.formed (.inl settled.symm)).congr same.same_file⟩
        refine List.eq_nil_iff_forall_not_mem.mpr fun meaning among => ?_
        have old := same.earlier meaning among
        rw [before.lasting] at old
        cases old
      refine wp_seq (persistInsertJournal_spec valid inv sound journal (.inl failing)) around ?_
      rintro (status | _) u _ ⟨aside, armed⟩
      · exact refused _ u (around u aside)
      have same : Kept (w.entries (tablePath table.name)) (u.entries (tablePath table.name)) :=
        aside.frame _ (journalPath_not_front table.name)
      obtain ⟨there, _, p, pending, stream, _, _⟩ := held
      have streamU := (aside.streams _ old).trans stream
      have armedU := armed.armed
      have settledU := armed.settled
      rw [crashing] at armedU settledU
      have begun : Writes true (fun _ => False) (tablePath table.name) table.file u u :=
        .start (same.same_file ▸ there) streamU fun _ => False.elim
      have moving : ∀ x, Writes true (fun _ => False) (tablePath table.name) table.file u x →
          up → Standing table.name rows.length x := fun x writes _ =>
        standing_armed (armedU.of_kept (writes.kept (journalPath_ne_tablePath _))) writes.there
          (writes.before.trans settledU) _
      have seeked : Writes true (fun _ => False) (tablePath table.name) table.file u
          ((u.passOn table.file
            ⟨tablePath table.name, p, pending⟩ pending pending.length 0).setStream table.file
            (some { path := tablePath table.name, position := offset.toNat, pending := [] })) :=
        (begun.passOn _ rfl (fun _ => False.elim) pending.length 0).setStream offset.toNat []
          fun _ => False.elim
      dsimp only
      refine wp_fseek streamU (moving _ begun) (fun room => ?_) fun why error written kept' =>
        refused _ _ (moving _ (begun.passOn _ rfl (fun _ => False.elim) written kept'))
      refine Writes.wp_fields seeked (streams_setStream ..) (fun _ => False.elim) moving
        (fun x writes buffered entries => ?_) fun _ x writes => refused _ x (moving x writes)
      obtain ⟨flushed, foundX⟩ := Option.isSome_iff_exists.mp writes.there
      simp only [Bool.not_true, Bool.false_eq_true, ↓reduceIte]
      refine Writes.wp_flushAndSync writes buffered foundX moving
        (fun y after writes moved foundY synced _ => ?_)
        fun _ y writes => refused _ y (moving y writes)
      simp only [Bool.not_true, Bool.false_eq_true, ↓reduceIte]
      refine Writes.wp_header writes moved foundY (fun _ => False.elim) moving
        (fun z headed writes moved foundZ _ => ?_) fun _ z writes => refused _ z (moving z writes)
      refine Writes.wp_flushAndSync writes moved foundZ moving
        (fun z final writes _ there synced _ => ?_)
        fun _ z writes => refused _ z (moving z writes)
      simp only [Bool.not_true, Bool.false_eq_true, ↓reduceIte]
      exact ⟨moving z writes, moving z writes, fun _ _ => ⟨final, there, synced⟩⟩

/-- Up to its commit an insertion has its journal; from then on the table has one row more. -/
def Committing (tableName : Bytes) (n : Nat) (v : World) : Prop :=
  Standing tableName n v ∧
    (Armed true tableName v n ∧ (v.file (journalPath tableName)).isSome = true ∨
    Standing tableName (n + 1) v ∧ v.file (journalPath tableName) = none)

private theorem commitInsert_standing (crashing : regime.crashes = true)
    (valid : storageValidTableName table.name = true)
    (uncommitted : Uncommitted regime table rows row kept w offset newCount x)
    (durable : ∃ file, x.file (tablePath table.name) = some file ∧ file.older = []) :
    wp (Steps faults) (Committing table.name rows.length) (commitInsert table offset newCount)
      (fun _ v => Committing table.name rows.length v) x := by
  obtain ⟨file, found, synced⟩ := durable
  obtain ⟨⟨_, _, _, _, armed, settled, there, _⟩, _, _, _, _, _, other, content, found', image,
      _⟩ := uncommitted
  rw [found, Option.some.injEq] at found'
  subst found'
  rw [crashing] at armed settled
  have apart := journalPath_ne_tablePath table.name
  have standing := standing_armed armed (found ▸ rfl) settled
  have start : Committing table.name rows.length x := ⟨standing _, .inl ⟨armed, there⟩⟩
  have formed := wellFormed_inserted image
  have done : ∀ v :
      World, Kept (x.entries (tablePath table.name)) (v.entries (tablePath table.name)) →
      v.file (journalPath table.name) = none → Committing table.name rows.length v := by
    intro v same gone
    have here := same.same_file.trans found
    have lasting : (v.entries (tablePath table.name)).before = [] := by
      refine List.eq_nil_iff_forall_not_mem.mpr fun meaning among => ?_
      have old : meaning ∈ (x.entries (tablePath table.name)).earlier true :=
        same.earlier meaning among
      rw [settled] at old
      cases old
    have shorter : WellFormed rows.length file.bytes := formed.mono (Nat.le_succ _)
    exact ⟨⟨here ▸ rfl, lasting, fun _ => throughout_synced here synced shorter⟩,
      .inr ⟨⟨here ▸ rfl, lasting, fun _ => throughout_synced here synced formed⟩, gone⟩⟩
  have removed :=
    done (x.rebind (journalPath table.name) none) (Kept.of_eq (entries_rebind_ne (Ne.symm apart) _))
    (file_rebind ..)
  have durable := done (x.rebind (journalPath table.name) none).syncDirectory
    ((Kept.of_eq (entries_rebind_ne (Ne.symm apart) _)).trans (syncDirectory_kept _ _))
      (file_rebind ..)
  unfold commitInsert
  refine wp_unlink start (fun _ => ?_) (fun _ => ⟨start, start⟩) fun _ _ => ⟨start, start⟩
  exact wp_utilSyncParentDirectory (journalPath_noSlash (storageValidTableName_parts valid)) removed
    ⟨durable, durable⟩ (fun _ _ => ⟨removed, removed⟩) (fun _ => ⟨removed, removed⟩) fun _ =>
      ⟨durable, durable⟩

private theorem commitInsert_silent (table : Table) (offset newCount : UInt64) :
    Yields (fun result : Except TableStatus (UInt64 × Table) => result ≠ .error .readOnly)
      (commitInsert table offset newCount) := by
  refine yields_bind fun removed => ?_
  rcases removed with _ | _
  · exact nofun
  · refine yields_bind fun synced => ?_
    cases synced <;> exact nofun

/-- A table with some rows, which stands if it is known to. -/
structure Known (regime : Regime) (tableName : Bytes) (up : Prop) (rows : List Row) (kept : Nat)
    (v : World) : Prop where
  inv : TableInv regime tableName v rows kept
  standing : up → Standing tableName rows.length v

/-- The same, while a handle on it is open. -/
def KnownOpen (regime : Regime) (tableName : Bytes) (up : Prop) (rows : List Row) (kept h : Nat)
    (v : World) : Prop :=
  Known regime tableName up rows kept v ∧ ∃ shape, regime.Phase rows shape ∧
    Held regime.crashes tableName shape rows.length h v

/-- What holds wherever an insertion is stopped. -/
def InsertKnown (regime : Regime) (tableName : Bytes) (up : Prop) (rows : List Row) (row : Row)
    (kept : Nat)
    (w v : World) : Prop :=
  KeptBut (tablePath tableName) w v ∧
    ∃ after, (after = rows ∨ after = rows ++ [row]) ∧ Known regime tableName up after kept v

/-- What an insertion tells: with success the row is kept, and the table stands. -/
def RowKnown (regime : Regime) (table : Table) (up : Prop) (rows : List Row) (row : Row)
    (kept : Nat)
    (result : Except TableStatus (UInt64 × Table)) (v : World) : Prop :=
  match result with
  | .ok _ => Known regime table.name True (rows ++ [row]) (rows.length + 1) v
  | .error status => ∃ after, (after = rows ∨ after = rows ++ [row] ∧ status ≠ .readOnly) ∧
      KnownOpen regime table.name up after kept table.file v

/-- Whatever an insertion is stopped at, and whatever it reports, the rows that are
known to be kept and the row it tried account for the table. -/
theorem storageInsertRow_known (crashing : regime.crashes = true)
    (valid : storageValidTableName table.name = true)
    (known : Known regime table.name up rows kept w) (writable : table.writable = true)
    (counted : table.rowCount.toNat = rows.length) (old : table.file < w.next)
    (held : Held regime.crashes table.name (regime.before rows) rows.length table.file w)
    (settled : w.file (journalPath table.name) = none) (fine : regime.fine (rows ++ [row]))
    (sound : regime.crashes = true → faults.unsupported = false) (failing : faults.calls = true) :
    wp (Steps faults) (InsertKnown regime table.name up rows row kept w)
      (storageInsertRow table row)
      (fun result v => InsertPost faults regime table rows row kept w result v ∧
        RowKnown regime table up rows row kept result v) w := by
  obtain ⟨inv, standing⟩ := known
  have length : (rows ++ [row]).length = rows.length + 1 := List.length_append
  have first : wp (Steps faults) _ (insertUncommitted table row) _ w :=
    insertUncommitted_spec valid inv writable counted old held fine sound (.inl failing)
  rw [storageInsertRow_eq row valid]
  refine wp_seq (wp_both first
    (insertUncommitted_standing crashing valid inv counted old held sound settled standing
    failing)) (fun v both => ⟨both.1.1, rows, .inl rfl, both.1.2, both.2⟩) ?_
  rintro (status | ⟨offset, newCount⟩) v ⟨⟨frame, inv'⟩, stands⟩ ⟨outcome, _, durable⟩
  · obtain ⟨output, next, why, shape, phase, inv, held⟩ := outcome
    exact ⟨⟨frame, rows, .inl rfl, inv', stands⟩, ⟨output, next, why, .undone inv phase held⟩,
      rows, .inl rfl,
      ⟨inv, stands⟩, shape, phase, held⟩
  · have last : wp (Steps faults) _ (commitInsert table offset newCount) _ v :=
      commitInsert_spec valid outcome fine sound
    refine wp_mono (wp_yields (commitInsert_silent table offset newCount)
      (wp_both last (commitInsert_standing crashing valid outcome (durable _ rfl))))
      (fun x both => ?_) fun result x _ both => ⟨both.1.1, ?_⟩
    · obtain ⟨⟨frame, inv | inv⟩, stands, which⟩ := both
      · exact ⟨frame, rows, .inl rfl, inv, fun _ => stands⟩
      · refine ⟨frame, rows ++ [row], .inr rfl, inv, fun _ => ?_⟩
        rcases which with ⟨armed, there⟩ | ⟨grown, _⟩
        · -- an armed journal counts one row fewer
          obtain ⟨journal, found⟩ := Option.isSome_iff_exists.mp there
          obtain ⟨_, same, _, valid'⟩ := armed _ (.inl found.symm)
          cases same
          have more := (inv.present journal found).unique valid'
          rw [length] at more
          omega
        · exact length ▸ grown
    · obtain ⟨⟨⟨_, _, ends⟩, stands, which⟩, silent⟩ := both
      have grown : x.file (journalPath table.name) = none →
          Standing table.name (rows ++ [row]).length x := by
        intro gone
        rcases which with ⟨_, there⟩ | ⟨grown, _⟩
        · rw [gone] at there
          cases there
        · exact length ▸ grown
      rcases result with status | ⟨offset, after⟩
      · obtain ⟨_, refused⟩ := ends
        cases refused with
        | undone inv phase held => exact ⟨rows, .inl rfl, ⟨inv, fun _ => stands⟩, _, phase, held⟩
        | stands inv journal written stream =>
          obtain ⟨file, _, _, found, _, _⟩ := written
          exact ⟨rows ++ [row], .inr ⟨rfl, fun other => silent (other ▸ rfl)⟩,
            ⟨inv, fun _ => grown journal⟩, _, .before,
            inv.held journal (found ▸ rfl) stream⟩
      · exact ⟨ends.inv, fun _ => grown ends.journal⟩

end Insert

/-! ## Closing and creation -/

section Close

variable {up : Prop}

/-- Opening a table that may be known to stand. -/
theorem storageOpenTable_known (crashing : regime.crashes = true)
    (valid : storageValidTableName tableName = true)
    (known : Known regime tableName up rows kept w) :
    wp (Steps faults) (fun v => KeptBut (tablePath tableName) w v ∧
      Known regime tableName up rows kept v)
      (storageOpenTable tableName)
        (fun result v => OpenedWritable faults regime tableName rows kept w result v ∧
        Known regime tableName up rows kept v ∧
          (up → ∀ status, result = .error status → faults.calls = true)) w := by
  have opens : wp (Steps faults) _ (storageOpenTable tableName) _ w :=
  storageOpenTable_spec valid known.inv
  by_cases stands : up
  · refine wp_mono
      (wp_both opens (storageOpenTable_standing crashing valid known.inv (known.standing stands)))
      (fun v both => ⟨both.1.1, both.1.2, fun _ => both.2⟩) fun result v holds both => ?_
    exact ⟨both.1, ⟨both.1.1.inv, fun _ => both.2.1⟩, fun _ => both.2.2⟩
  · refine wp_mono opens (fun v kept => ⟨kept.1, kept.2, fun known => absurd known stands⟩)
      fun result v _ opened => ?_
    exact ⟨opened, ⟨opened.1.inv, fun known => absurd known stands⟩, fun known =>
      absurd known stands⟩

/-- Closing passes on what is buffered only under a journal. -/
theorem storageCloseTable_known (crashing : regime.crashes = true)
    (known : KnownOpen regime table.name up rows kept table.file w) :
    wp (Steps faults) (fun v => KeptBut (tablePath table.name) w v ∧
      Known regime table.name up rows kept v)
      (storageCloseTable table) (fun _ v => Known regime table.name up rows kept v) w := by
  obtain ⟨⟨inv, standing⟩, shape, phase, held⟩ := known
  have closes : wp (Steps faults) _ (storageCloseTable table) _ w :=
    storageCloseTable_spec inv phase held
  obtain ⟨there, _, position, pending, stream, _, armed⟩ := held
  have stays : wp (Steps faults) (fun v => up → Standing table.name rows.length v)
      (storageCloseTable table)
      (fun _ v => up → Standing table.name rows.length v) w := by
    have passed : ∀ written kept', up → Standing table.name rows.length
        ((w.passOn table.file ⟨tablePath table.name, position,
          pending⟩ pending written kept').setStream table.file none) := by
      intro written kept' known
      by_cases empty : pending = []
      · subst empty
        rw [passOn_nil]
        exact (standing known).of_kept (Kept.refl _) (Kept.refl _)
      · have armed := armed empty
        rw [crashing] at armed
        obtain ⟨file, found⟩ := Option.isSome_iff_exists.mp there
        obtain ⟨after, here, _⟩ := file_write false found position (pending.take written)
        have same := entries_write_ne (w := w) (journalPath_ne_tablePath table.name) position
            (pending.take written)
        have stands : Standing table.name rows.length
            (w.write (tablePath table.name) position (pending.take written)) :=
          standing_armed (armed.of_kept (Kept.of_eq same))
            (Option.isSome_iff_exists.mpr ⟨after, here⟩)
            ((before_write ..).trans (standing known).lasting) _
        exact stands.of_kept (Kept.refl _) (Kept.refl _)
    unfold storageCloseTable
    exact wp_fclose stream standing (fun _ => ⟨passed _ _, passed _ _⟩) fun _ _ _ _ =>
      ⟨passed _ _, passed _ _⟩
  exact wp_mono (wp_both closes stays) (fun v both => ⟨both.1.1, both.1.2, both.2⟩)
    fun _ v both _ => ⟨both.1.2, both.2⟩

private theorem createInto_durable {path journal : Path} (supported : faults.unsupported = false)
    (noSlash : 47 ∉ path) (found : u.file path = some emptyFile)
    (stream : u.streams h = some { path, position := 0, pending := [] }) :
    wp (Steps faults) (fun _ => True) (createInto h path journal)
      (fun made v => made = true → (v.entries path).before = [] ∧ ∃ file, v.file path = some file ∧
        file.older = [])
      u := by
  have refused : ∀ v, wp (Steps faults) (fun _ => True) (Pure.pure false)
      (fun made v => made = true →
      (v.entries path).before = [] ∧ ∃ file, v.file path = some file ∧ file.older = []) v :=
    fun _ => ⟨trivial, nofun⟩
  have begun : Writes true (fun _ => False) path h u u :=
    .start (found ▸ rfl) stream fun _ => False.elim
  have discarding : ∀ x, Writes true (fun _ => False) path h u x →
      wp (Steps faults) (fun _ => True) (fclose h >>= fun _ => Pure.pure false)
        (fun made v => made = true →
        (v.entries path).before = [] ∧ ∃ file, v.file path = some file ∧ file.older = []) x := by
    intro x writes
    obtain ⟨position, pending, stream, _⟩ := writes.stream
    exact wp_fclose stream trivial (fun _ => refused _) fun _ _ _ _ => refused _
  unfold createInto
  refine wp_fchmod trivial ?_ fun _ _ => wp_close trivial (refused _) fun _ _ => refused _
  refine wp_fdopen trivial ?_ fun _ _ => wp_close trivial (refused _) fun _ _ => refused _
  refine Writes.wp_header begun stream found (fun _ => False.elim) (fun _ _ => trivial)
    (fun x headed writes moved foundX _ => ?_) fun _ x writes => discarding x writes
  refine Writes.wp_flushAndSync writes moved foundX (fun _ _ => trivial)
    (fun x after writes moved foundX synced _ => ?_) fun _ x writes => discarding x writes
  simp only [Bool.not_true, Bool.false_eq_true, ↓reduceIte]
  refine wp_fclose moved trivial (fun _ => ?_) fun _ _ _ _ => refused _
  rw [passOn_nil, setStream_setStream]
  refine wp_access trivial (fun _ => refused _) (fun _ => ?_) fun _ _ _ _ => ?_
  all_goals
    have syncing : wp (Steps faults) (fun _ => True) (utilSyncParentDirectory path >>= Pure.pure)
        (fun made v => made = true → (v.entries path).before = [] ∧
          ∃ file, v.file path = some file ∧ file.older = [])
        (x.setStream h none) := by
      refine wp_utilSyncParentDirectory noSlash trivial
        ⟨trivial, fun _ => ⟨rfl, after, foundX, synced⟩⟩
        (fun _ ignored => ?_) (fun _ => refused _) fun _ => refused _
      rw [supported] at ignored
      cases ignored
    rwa [bind_pure] at syncing

/-- Creating a table that may be known to stand. -/
theorem storageCreateTable_known (valid : storageValidTableName tableName = true)
    (known : Known regime tableName up rows kept w) (supported : faults.unsupported = false) :
    wp (Steps faults)
      (fun v => KeptBut (tablePath tableName) w v ∧ Known regime tableName up rows kept v)
      (storageCreateTable tableName) (fun status v => Known regime tableName up rows kept v ∧
        (status = .ok → rows = [] ∧ Known regime tableName True rows kept v)) w := by
  have parts := storageValidTableName_parts valid
  have makes : wp (Steps faults) _ (storageCreateTable tableName) _ w :=
    storageCreateTable_makes valid
  have lasts : wp (Steps faults) (fun _ => True) (storageCreateTable tableName)
      (fun status v => status = .ok → (v.entries (tablePath tableName)).before = [] ∧
        ∃ file, v.file (tablePath tableName) = some file ∧ file.older = []) w := by
    rw [storageCreateTable_eq valid]
    refine wp_createFile trivial (fun free => ?_) (fun present => ⟨trivial, nofun⟩)
      fun calls error known => ?_
    · refine wp_seq (createInto_durable supported (tablePath_noSlash parts) (file_rebind ..)
        (streams_setStream ..))
        (fun _ _ => trivial) ?_
      rintro made v _ done
      cases made with
      | true => exact ⟨trivial, fun _ => done rfl⟩
      | false =>
        exact wp_unlink trivial (fun _ => ⟨trivial, nofun⟩) (fun _ => ⟨trivial, nofun⟩)
          fun _ _ => ⟨trivial, nofun⟩
    · dsimp only [afterCreate]
      rw [if_neg known]
      exact ⟨trivial, nofun⟩
  have stays : ∀ v, CreateStop (tablePath tableName) w v →
      Known regime tableName up rows kept v := by
    intro v stop
    refine ⟨(stop.within known.inv).inv, fun stands => ?_⟩
    rcases stop with rfl | ⟨free, _⟩
    · exact known.standing stands
    · have there := (known.standing stands).there
      rw [free] at there
      cases there
  refine wp_mono (wp_both makes lasts)
    (fun v both => ⟨(both.1.within known.inv).frame, stays v both.1⟩) ?_
  rintro status v ⟨stop, _⟩ ⟨ends, durable⟩
  refine ⟨stays v stop, ?_⟩
  rintro rfl
  obtain ⟨free, file, found, image⟩ := ends
  obtain ⟨lasting, other, found', synced⟩ := durable rfl
  rw [found, Option.some.injEq] at found'
  subst found'
  obtain rfl := known.inv.missing free
  refine ⟨rfl, (stays v stop).inv, fun _ =>
    ⟨found ▸ rfl, lasting, fun _ => throughout_synced found synced ?_⟩⟩
  rw [image]
  exact ⟨fun _ _ => rfl, Nat.le_of_eq (length_headerBytes 0).symm⟩

end Close

end SqlEngine
