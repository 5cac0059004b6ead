import SqlEngine.FileOperations
import SqlEngine.TableInvariant

/-! Creating a table: what its calls may have written wherever they are stopped, apart from
the clean-up that gives the name up again. -/
namespace SqlEngine

open Library Program World Posix

variable {faults : Faults} {w u v x : World} {tableName path journal : Bytes} {h : Nat}
    {file : File}

/-! ## The calls -/

/-- `storage_create_table` behind its `open`: whether the table is made, or its name is to
be given up. -/
def createInto (fd : Nat) (path journal : Bytes) : Prog Bool := do
  match ← fchmod fd with
  | .error _ =>
    let _ ← close fd
    return false
  | .ok () =>
    match ← fdopen fd with
    | .error _ =>
      let _ ← close fd
      return false
    | .ok () =>
      match ← writeHeader fd 0 with
      | .error _ =>
        let _ ← fclose fd
        return false
      | .ok () =>
        if !(← utilFlushAndSync fd) then
          let _ ← fclose fd
          return false
        match ← fclose fd with
        | .error _ => return false
        | .ok () =>
          match ← access journal with
          | .ok () => return false
          | .error _ => utilSyncParentDirectory path

/-- The end of `storage_create_table`. -/
def finishCreate (path : Bytes) (made : Bool) : Prog TableCreateStatus := do
  if made then return .ok
  let _ ← unlink path
  return .ioError

/-- `storage_create_table` behind its `open`. -/
def afterCreate (path journal : Bytes) : Except Errno Nat → Prog TableCreateStatus
  | .error errno => if errno = .eexist then return .alreadyExists else return .ioError
  | .ok fd => createInto fd path journal >>= finishCreate path

/-- A creation is its first call and what comes behind it. -/
theorem storageCreateTable_eq (valid : storageValidTableName tableName = true) :
    storageCreateTable tableName =
      openFile (tablePath tableName) true >>=
        afterCreate (tablePath tableName) (journalPath tableName) := by
  have short := (storageValidTableName_parts valid).short
  have named : ¬ tableName.length > SQL_MAX_TABLE_NAME_LENGTH := by
    have most : SQL_MAX_TABLE_NAME_LENGTH = 31 := rfl
    omega
  unfold storageCreateTable
  rw [if_neg named, valid, storageTablePath_valid valid, storageJournalPath_valid valid]
  refine congrArg (openFile (tablePath tableName) true >>= ·) (funext fun opened => ?_)
  rcases opened with errno | fd
  · rfl
  unfold afterCreate createInto
  refine Program.bind_cut fun changed => ?_
  rcases changed with error | ⟨⟩
  · rfl
  refine Program.bind_cut fun stream => ?_
  rcases stream with error | ⟨⟩
  · rfl
  refine Program.bind_cut fun written => ?_
  rcases written with error | ⟨⟩
  · rfl
  refine Program.bind_cut fun synced => ?_
  cases synced with
  | false => rfl
  | true =>
    refine Program.bind_cut fun closed => ?_
    rcases closed with error | ⟨⟩
    · rfl
    refine Program.bind_cut fun there => ?_
    rcases there with error | ⟨⟩
    · refine congrArg (utilSyncParentDirectory (tablePath tableName) >>= ·)
        (funext fun synced => ?_)
      cases synced <;> rfl
    · rfl

/-! ## What may have been written -/

/-- The shape of a table file without rows: behind the words of its header nothing is set. -/
def blankShape : Shape := { byte := fun i b => 20 ≤ i ∧ b = 0, limit := 64 }

/-- A name stands for no file, or for one that never held a row. -/
def Blank (meaning : Option File) : Prop :=
  ∀ file, meaning = some file → ∀ content ∈ file.contents true, blankShape.Fits content

private theorem blank_none : Blank none := nofun

private theorem blank_empty : Blank (some emptyFile) := by
  rintro _ ⟨⟩ content among
  rw [File.contents_synced rfl, List.mem_singleton] at among
  subst among
  exact ⟨Nat.zero_le _, fun i b fixed => fixed.2.symm⟩

private theorem blankShape_header : blankShape.Agrees 0 (headerBytes 0) := by
  have zero : ∀ i < 64, 20 ≤ i → (headerBytes 0).getD i 0 = 0 := by decide
  refine ⟨fun _ => Nat.le_of_eq (length_headerBytes 0), ?_⟩
  rintro i inside _ ⟨behind, rfl⟩
  rw [length_headerBytes] at inside
  rw [Nat.zero_add] at behind
  exact zero i inside behind

/-- Nothing was changed but a name, which stands for a table file without rows, or for
nothing any more. -/
structure Making (path : Path) (w v : World) : Prop where
  others : ∀ other, other ≠ path → Kept (w.entries other) (v.entries other)
  now : Blank (v.file path)
  before : ∀ meaning ∈ (v.entries path).before, Blank meaning ∨ meaning ∈ (w.entries path).before
  output : v.output = w.output
  next : w.next ≤ v.next
  streams : ∀ g < w.next, v.streams g = w.streams g

theorem Making.opened (free : w.file path = none) :
    Making path w ((w.rebind path (some emptyFile)).opened path) where
  others other ne := Kept.of_eq (entries_rebind_ne ne _)
  now := by
    rw [file_congr (entries_opened ..), file_rebind]
    exact blank_empty
  before meaning among := by
    rw [entries_opened, entries_rebind] at among
    rcases List.mem_cons.mp among with rfl | old
    · rw [← World.file, free]
      exact .inl blank_none
    · exact .inr old
  output := rfl
  next := Nat.le_succ _
  streams g below := streams_opened_ne (Nat.ne_of_lt below) _

private theorem Making.writes (making : Making path w u) (new : w.next ≤ h)
    (writes : Writes true (· = blankShape) path h u v) : Making path w v where
  others other ne := (making.others other ne).trans (writes.kept ne)
  now := writes.fits _ rfl making.now
  before meaning among := making.before meaning (writes.before ▸ among)
  output := writes.output.trans making.output
  next := writes.next ▸ making.next
  streams g below := (writes.streams g (by omega)).trans (making.streams g below)

private theorem Making.setStream (making : Making path w v) (new : w.next ≤ h)
    (stream : Option Stream) :
    Making path w (v.setStream h stream) :=
  ⟨making.others, making.now, making.before, making.output, making.next,
    fun g below => (streams_setStream_ne (by omega) _).trans (making.streams g below)⟩

private theorem Making.unlinked (making : Making path w v) :
    Making path w (v.rebind path none) where
  others other ne := (making.others other ne).trans (Kept.of_eq (entries_rebind_ne ne _))
  now := by
    rw [file_rebind]
    exact blank_none
  before meaning among := by
    rw [entries_rebind] at among
    rcases List.mem_cons.mp among with rfl | old
    · exact .inl making.now
    · exact making.before meaning old
  output := making.output
  next := making.next
  streams := making.streams

private theorem Making.synced (making : Making path w v) : Making path w v.syncDirectory where
  others other ne := (making.others other ne).trans (syncDirectory_kept _ _)
  now := making.now
  before := nofun
  output := making.output
  next := making.next
  streams := making.streams

/-! ## The calls behind the open -/

/-- The name stands for the file that is being made. -/
def MakingThere (path : Path) (w v : World) : Prop := Making path w v ∧ (v.file path).isSome = true

/-- The file is there with its header, or it is to be given up. -/
def Finished (faults : Faults) (path journal : Path) (w : World) (made : Bool) (v : World) : Prop :=
  match made with
  | true => ∃ file, v.file path = some file ∧ file.bytes = headerBytes 0
  | false => faults.calls = true ∨ (w.file journal).isSome = true

/-- Up to its clean-up, creation fills the file that it has opened. -/
theorem createInto_spec (noSlash : 47 ∉ path) (apart : journal ≠ path) (making : Making path w u)
    (new : w.next ≤ h) (found : u.file path = some emptyFile)
    (stream : u.streams h = some { path, position := 0, pending := [] }) :
    wp (Steps faults) (MakingThere path w) (createInto h path journal)
      (Finished faults path journal w) u := by
  have here : MakingThere path w u := ⟨making, found ▸ rfl⟩
  have given_up : ∀ v, MakingThere path w v → faults.calls = true →
      wp (Steps faults) (MakingThere path w) (Pure.pure false) (Finished faults path journal w) v :=
    fun v underway calls => ⟨underway, .inl calls⟩
  have closing : faults.calls = true →
      wp (Steps faults) (MakingThere path w) (close h >>= fun _ => Pure.pure false)
      (Finished faults path journal w) u := by
    intro calls
    have closed : MakingThere path w (u.setStream h none) := ⟨making.setStream new none, here.2⟩
    exact wp_close here (given_up _ closed calls) fun _ _ => given_up _ closed calls
  have begun : Writes true (· = blankShape) path h u u :=
    .start here.2 stream fun _ _ => Shape.agrees_nil
  have moving : ∀ x, Writes true (· = blankShape) path h u x → MakingThere path w x :=
    fun x writes => ⟨making.writes new writes, writes.there⟩
  have closed : ∀ x, Writes true (· = blankShape) path h u x →
      MakingThere path w (x.setStream h none) :=
    fun x writes => ⟨(making.writes new writes).setStream new none, writes.there⟩
  have discarding : ∀ x, faults.calls = true → Writes true (· = blankShape) path h u x →
      wp (Steps faults) (MakingThere path w) (fclose h >>= fun _ => Pure.pure false)
        (Finished faults path journal w) x := by
    intro x calls writes
    obtain ⟨position, pending, stream, agrees⟩ := writes.stream
    have passed := fun written kept =>
        closed _ (writes.passOn ⟨_, position, pending⟩ rfl agrees written kept)
    exact wp_fclose stream (moving x writes) (fun _ => given_up _ (passed _ _) calls)
      fun _ _ _ _ => given_up _ (passed _ _) calls
  unfold createInto
  refine wp_fchmod here ?_ fun calls _ => closing calls
  refine wp_fdopen here ?_ fun calls _ => closing calls
  refine Writes.wp_header begun stream found (fun shape same => same ▸ blankShape_header) moving
    (fun x headed writes moved foundX content => ?_) fun calls x writes => discarding x calls writes
  refine Writes.wp_flushAndSync writes moved foundX moving
    (fun x after writes moved foundX synced same => ?_)
    fun why x writes => discarding x (why.resolve_right (not_not_intro (.inl rfl))) writes
  have image : after.bytes = headerBytes 0 := by
    rw [same, patch_nil, content]
    simp [patch, emptyFile]
  have done := closed x writes
  simp only [Bool.not_true, Bool.false_eq_true, ↓reduceIte]
  refine wp_fclose moved (moving x writes) (fun _ => ?_) fun why _ _ _ => ?_
  · rw [passOn_nil, setStream_setStream]
    have syncing :
        wp (Steps faults) (MakingThere path w) (utilSyncParentDirectory path >>= Pure.pure)
        (Finished faults path journal w) (x.setStream h none) := by
      refine wp_utilSyncParentDirectory noSlash done ?_ (fun _ _ => ?_) (fun calls => ?_)
        fun calls => ?_
      · exact ⟨⟨done.1.synced, done.2⟩, after, foundX, image⟩
      · exact ⟨done, after, foundX, image⟩
      · exact given_up _ done calls
      · exact given_up _ ⟨done.1.synced, done.2⟩ calls
    rw [bind_pure] at syncing
    refine wp_access done (fun present => ?_) (fun _ => syncing) fun calls _ _ _ => syncing
    rw [(done.1.others journal apart).same_file] at present
    exact ⟨done, .inr present⟩
  · have calls := why.resolve_right (not_not_intro (.inl rfl))
    rw [passOn_nil, setStream_setStream]
    exact given_up _ done calls

/-! ## Creation as a whole -/

/-- Where creation is stopped, it has not begun, or it had the name to itself. -/
def CreateStop (path : Path) (w v : World) : Prop := v = w ∨ w.file path = none ∧ Making path w v

/-- What creation comes to. -/
def CreateEnds (faults : Faults) (tableName : Bytes) (w : World) (status : TableCreateStatus)
    (v : World) : Prop :=
  match status with
  | .ok => w.file (tablePath tableName) = none ∧ ∃ file, v.file (tablePath tableName) = some file ∧
      file.bytes = headerBytes 0
  | _ => v = w ∧ (w.file (tablePath tableName)).isSome = true ∨ faults.calls = true ∨
      (w.file (journalPath tableName)).isSome = true

/-- A creation makes a table with no rows, or leaves none of its name behind; what it is
stopped at is no more than a part of its header. -/
theorem storageCreateTable_makes (valid : storageValidTableName tableName = true) :
    wp (Steps faults) (CreateStop (tablePath tableName) w) (storageCreateTable tableName)
      (CreateEnds faults tableName w) w := by
  have parts := storageValidTableName_parts valid
  rw [storageCreateTable_eq valid]
  refine wp_createFile (.inl rfl) (fun free => ?_) (fun present => ?_) fun calls error known => ?_
  · have making : Making (tablePath tableName) w _ := Making.opened free
    refine wp_seq
      (createInto_spec (tablePath_noSlash parts) (journalPath_ne_tablePath tableName) making
      (Nat.le_refl _)
      (file_rebind ..) (streams_setStream ..)) (fun v underway => .inr ⟨free, underway.1⟩) ?_
    rintro made v ⟨making, _⟩ finished
    cases made with
    | true => exact ⟨.inr ⟨free, making⟩, free, finished⟩
    | false =>
      have failed : ∀ v, Making (tablePath tableName) w v →
          wp (Steps faults) (CreateStop (tablePath tableName) w)
          (Pure.pure TableCreateStatus.ioError) (CreateEnds faults tableName w) v :=
        fun v making => ⟨.inr ⟨free, making⟩, .inr finished⟩
      exact wp_unlink (.inr ⟨free, making⟩) (fun _ => failed _ making.unlinked)
        (fun _ => failed _ making)
        fun _ _ => failed _ making
  · exact ⟨.inl rfl, .inl ⟨rfl, present⟩⟩
  · dsimp only [afterCreate]
    rw [if_neg known]
    exact ⟨.inl rfl, .inr (.inl calls)⟩

end SqlEngine
