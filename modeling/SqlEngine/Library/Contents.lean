import SqlEngine.Library.FileSystemRules

/-! What is kept of a file through writes, syncs and crashes. A shape fixes some bytes of
a file and bounds its length; a file that has a shape in each of its contents has it
after a crash too. -/
namespace SqlEngine.Library

/-- Some bytes at some offsets, and a bound on the length. A byte past the end of a file
counts as zero. -/
structure Shape where
  byte : Nat → UInt8 → Prop
  limit : Nat

namespace Shape

variable {shape : Shape} {bytes data more : List UInt8} {offset : Nat}

/-- A file content has the bytes and the length of a shape. -/
structure Fits (shape : Shape) (bytes : List UInt8) : Prop where
  length : bytes.length ≤ shape.limit
  byte : ∀ i b, shape.byte i b → bytes.getD i 0 = b

/-- Data for an offset puts no wrong byte there, and does not go past the bound. -/
structure Agrees (shape : Shape) (offset : Nat) (data : List UInt8) : Prop where
  length : data ≠ [] → offset + data.length ≤ shape.limit
  byte : ∀ i < data.length, ∀ b, shape.byte (offset + i) b → data.getD i 0 = b

theorem agrees_nil : shape.Agrees offset [] := ⟨fun nonempty => absurd rfl nonempty, nofun⟩

theorem Agrees.take (agrees : shape.Agrees offset data) (n : Nat) :
    shape.Agrees offset (data.take n) := by
  constructor
  · intro nonempty
    have bound := agrees.length fun empty => nonempty (by simp [empty])
    rw [List.length_take]
    omega
  · intro i inside b required
    rw [List.length_take] at inside
    rw [List.getD_eq_getElem?_getD, List.getElem?_take_of_lt (by omega),
      ← List.getD_eq_getElem?_getD]
    exact agrees.byte i (by omega) b required

theorem Agrees.drop (agrees : shape.Agrees offset data) (n : Nat) :
    shape.Agrees (offset + (data.take n).length) (data.drop n) := by
  rw [List.length_take]
  constructor
  · intro nonempty
    have bound := agrees.length fun empty => nonempty (by simp [empty])
    have rest : (data.drop n).length ≠ 0 := fun zero => nonempty (List.length_eq_zero_iff.mp zero)
    rw [List.length_drop] at rest ⊢
    omega
  · intro i inside b required
    rw [List.length_drop] at inside
    rw [List.getD_eq_getElem?_getD, List.getElem?_drop, ← List.getD_eq_getElem?_getD]
    refine agrees.byte (n + i) (by omega) b ?_
    rwa [show offset + (n + i) = offset + min n data.length + i by omega]

/-- Data that agrees with a shape is written without spoiling it. -/
theorem Fits.patch (fits : shape.Fits bytes) (agrees : shape.Agrees offset data) :
    shape.Fits (patch bytes offset data) := by
  constructor
  · by_cases empty : data = []
    · simpa [empty] using fits.length
    · have bound := agrees.length empty
      have before := fits.length
      rw [length_patch empty]
      omega
  · intro i b required
    rw [getD_patch]
    split
    · rename_i covered
      refine agrees.byte (i - offset) (by omega) b ?_
      rwa [Nat.add_sub_cancel' covered.1]
    · exact fits.byte i b required

/-- Cutting or extending keeps a shape whose bytes lie in front of the new end. -/
theorem Fits.resize {length : Nat} {narrow : Shape} (fits : shape.Fits bytes)
    (bound : length ≤ narrow.limit)
    (inside : ∀ i b, narrow.byte i b → i < length ∧ shape.byte i b) :
    narrow.Fits (resize bytes length) := by
  refine ⟨by simpa using bound, fun i b required => ?_⟩
  rw [getD_resize _ _ _ (inside i b required).1]
  exact fits.byte i b (inside i b required).2

/-- A shape that asks for less. -/
theorem Fits.weaken {wide : Shape} (fits : shape.Fits bytes) (bound : shape.limit ≤ wide.limit)
    (less : ∀ i b, wide.byte i b → shape.byte i b) : wide.Fits bytes :=
  ⟨Nat.le_trans fits.length bound, fun i b required => fits.byte i b (less i b required)⟩

/-- A shape that asks for less is agreed with sooner. -/
theorem Agrees.weaken {wide : Shape} (agrees : shape.Agrees offset data)
    (bound : shape.limit ≤ wide.limit) (less : ∀ i b, wide.byte i b → shape.byte i b) :
    wide.Agrees offset data :=
  ⟨fun nonempty => Nat.le_trans (agrees.length nonempty) bound,
    fun i inside b required => agrees.byte i inside b (less _ b required)⟩

/-- A torn file has every shape that all its contents have. -/
theorem Fits.torn {file : File} (each : ∀ content ∈ file.bytes :: file.older, shape.Fits content)
    (torn : Torn file bytes) : shape.Fits bytes := by
  constructor
  · obtain ⟨content, among, short⟩ := torn.shortEnough
    exact Nat.le_trans short (each content among).length
  · intro i b required
    by_cases inside : i < bytes.length
    · obtain ⟨content, among, same⟩ := torn.byte i inside
      rw [same]
      exact (each content among).byte i b required
    · -- a content that is no longer reads as zero here, and so does what is left
      obtain ⟨content, among, long⟩ := torn.longEnough
      have zero := (each content among).byte i b required
      rw [List.getD_eq_default _ _ (by omega)] at zero
      rw [List.getD_eq_default _ _ (by omega), zero]

end Shape

/-- A file that was synced after its last write survives as it is. -/
theorem Torn.synced {file : File} {bytes : List UInt8} (torn : Torn file bytes)
    (synced : file.older = []) :
    bytes = file.bytes := by
  obtain ⟨long, _, atLeast⟩ := torn.longEnough
  obtain ⟨short, _, atMost⟩ := torn.shortEnough
  simp_all only [List.mem_singleton]
  apply List.ext_getElem
  · omega
  · intro i left right
    obtain ⟨content, among, same⟩ := torn.byte i left
    rw [synced, List.mem_singleton] at among
    rw [among, List.getD_eq_getElem _ _ left, List.getD_eq_getElem _ _ right] at same
    exact same

/-! ## Contents and meanings -/

/-- The contents that matter: with crashes, all since the last sync. -/
def File.contents (crashes : Bool) (file : File) : List (List UInt8) :=
  if crashes then file.bytes :: file.older else [file.bytes]

/-- What a name may have stood for: with crashes, all since the last sync. -/
def Entry.earlier (crashes : Bool) (entry : Entry) : List (Option File) :=
  if crashes then entry.before else []

/-- A file may have the bytes that it shows. -/
theorem File.bytes_mem_contents (crashes : Bool) (file : File) :
    file.bytes ∈ file.contents crashes := by
  cases crashes <;> simp [contents]

theorem File.contents_synced {file : File} (synced : file.older = []) (crashes : Bool) :
    file.contents crashes = [file.bytes] := by
  cases crashes <;> simp [contents, synced]

/-- Every content of what a name stands for satisfies a condition. -/
def Throughout (crashes : Bool) (P : List UInt8 → Prop) (w : World) (path : Path) : Prop :=
  ∀ file, w.file path = some file → ∀ content ∈ file.contents crashes, P content

/-- A name stands for what it stood for, and no new meaning can come back. -/
structure Kept (entry after : Entry) : Prop where
  now : after.now = entry.now
  earlier : ∀ meaning ∈ after.before, meaning ∈ entry.before

theorem Kept.refl (entry : Entry) : Kept entry entry := ⟨rfl, fun _ among => among⟩

theorem Kept.of_eq {entry after : Entry} (same : after = entry) :
    Kept entry after := same ▸ Kept.refl entry

theorem Kept.trans {entry between after : Entry} (first : Kept entry between)
    (second : Kept between after) :
    Kept entry after :=
  ⟨second.now.trans first.now, fun meaning among =>
    first.earlier meaning (second.earlier meaning among)⟩

theorem Kept.subset {entry after : Entry} (kept : Kept entry after) {crashes : Bool}
    {meaning : Option File} (among : meaning ∈ after.earlier crashes) :
    meaning ∈ entry.earlier crashes := by
  cases crashes with
  | false => cases among
  | true => exact kept.earlier meaning among

variable {crashes : Bool} {P Q : List UInt8 → Prop} {w v : World} {path other : Path} {handle : Nat}
  {file : File}

theorem Kept.same_file (kept : Kept (w.entries path) (v.entries path)) :
    v.file path = w.file path := kept.now

theorem Throughout.congr (all : Throughout crashes P w path) (same : v.file path = w.file path) :
    Throughout crashes P v path :=
  fun file found => all file (same ▸ found)

theorem Throughout.mono (all : Throughout crashes P w path) (weaker : ∀ bytes, P bytes → Q bytes) :
    Throughout crashes Q w path :=
  fun file found content among => weaker content (all file found content among)

theorem Throughout.bytes (all : Throughout crashes P w path) (found : w.file path = some file) :
    P file.bytes := all file found _ (file.bytes_mem_contents crashes)

namespace World

/-! ## Writes -/

/-- What a write leaves of a file. -/
theorem file_write (crashes : Bool) (found : w.file path = some file) (offset : Nat)
    (data : List UInt8) :
    ∃ after, (w.write path offset data).file path = some after ∧
      (∀ content ∈ after.contents crashes, content ∈ file.contents crashes ∨
        content = patch file.bytes offset data) := by
  unfold write
  rw [found]
  dsimp only
  split
  · exact ⟨file, found, fun content among => .inl among⟩
  · split
    · rename_i fits
      refine ⟨_, congrArg Entry.now (entries_setEntry w path _), fun content among => ?_⟩
      cases crashes with
      | false => exact .inr (by simpa [File.contents] using among)
      | true =>
        simp only [File.contents, ↓reduceIte, List.mem_cons, List.mem_append,
          List.not_mem_nil, or_false]
          at among ⊢
        rcases among with rfl | older | rfl
        · exact .inr rfl
        · exact .inl (.inr older)
        · exact .inl (.inl rfl)
    · exact ⟨file, found, fun content among => .inl among⟩

/-- A write that has room changes the bytes it covers. -/
theorem file_write_roomy (found : w.file path = some file) {offset : Nat} {data : List UInt8}
    (room : Roomy offset data) :
    ∃ after, (w.write path offset data).file path = some after ∧
      after.bytes = patch file.bytes offset data := by
  unfold write
  rw [found]
  dsimp only
  by_cases empty : data = []
  · exact ⟨file, by simp only [empty, ↓reduceIte, found], by simp [empty]⟩
  · have fits : (patch file.bytes offset data).length ≤ maxFileSize := by
      have bound := room.resolve_left empty
      have before := file.fits
      rw [length_patch empty]
      omega
    simp only [empty, fits, ↓reduceIte, ↓reduceDIte]
    exact ⟨_, congrArg Entry.now (entries_setEntry w path _), rfl⟩

/-- A write leaves the earlier meanings of the name. -/
@[simp] theorem before_write (w : World) (path other : Path) (offset : Nat) (data : List UInt8) :
    ((w.write path offset data).entries other).before = (w.entries other).before := by
  by_cases same : other = path
  · subst same
    unfold write
    split
    · rfl
    · split
      · rfl
      · split
        · simp only [setFile, entries_setEntry]
        · rfl
  · rw [entries_write_ne same]

theorem entries_passOn_ne (ne : other ≠ stream.path) (handle : Nat) (data : List UInt8)
    (written kept : Nat) :
    (w.passOn handle stream data written kept).entries other = w.entries other :=
  entries_write_ne ne _ _

@[simp] theorem before_passOn (w : World) (handle : Nat) (stream : Stream) (data : List UInt8)
    (written kept : Nat) (other : Path) :
    ((w.passOn handle stream data written kept).entries other).before = (w.entries other).before :=
  before_write w stream.path other _ _

@[simp] theorem next_passOn (w : World) (handle : Nat) (stream : Stream) (data : List UInt8)
    (written kept : Nat) : (w.passOn handle stream data written kept).next = w.next :=
  next_write w stream.path _ _

@[simp] theorem output_passOn (w : World) (handle : Nat) (stream : Stream) (data : List UInt8)
    (written kept : Nat) : (w.passOn handle stream data written kept).output = w.output :=
  output_write w stream.path _ _

theorem streams_passOn_ne {g : Nat} (ne : g ≠ handle) (stream : Stream) (data : List UInt8)
    (written kept : Nat) : (w.passOn handle stream data written kept).streams g = w.streams g := by
  unfold passOn
  rw [streams_setStream_ne ne, streams_write]

/-! ## Syncs and names -/

theorem entries_syncFile_ne (ne : other ≠ path) :
    (w.syncFile path).entries other = w.entries other := by
  unfold syncFile
  split
  · rfl
  · exact entries_setEntry_ne ne _

@[simp] theorem before_syncFile (w : World) (path other : Path) :
    ((w.syncFile path).entries other).before = (w.entries other).before := by
  by_cases same : other = path
  · subst same
    unfold syncFile
    split
    · rfl
    · simp only [setFile, entries_setEntry]
  · rw [entries_syncFile_ne same]

private theorem syncFile_rest (w : World) (path : Path) :
    (w.syncFile path).streams = w.streams ∧ (w.syncFile path).next = w.next ∧
      (w.syncFile path).output = w.output := by
  unfold syncFile
  split <;> exact ⟨rfl, rfl, rfl⟩

@[simp] theorem streams_syncFile (w : World) (path : Path) :
    (w.syncFile path).streams = w.streams :=
  (syncFile_rest w path).1

@[simp] theorem next_syncFile (w : World) (path : Path) : (w.syncFile path).next = w.next :=
  (syncFile_rest w path).2.1

@[simp] theorem output_syncFile (w : World) (path : Path) : (w.syncFile path).output = w.output :=
  (syncFile_rest w path).2.2

/-- A sync makes the bytes that are read the only ones. -/
theorem file_syncFile (found : w.file path = some file) :
    (w.syncFile path).file path = some { file with older := [] } := by
  unfold syncFile
  rw [found]
  simp only [World.file, setFile, entries_setEntry]

@[simp] theorem entries_rebind (w : World) (path : Path) (now : Option File) :
    (w.rebind path now).entries path =
      { now, before := (w.entries path).now :: (w.entries path).before } :=
  entries_setEntry ..

theorem entries_rebind_ne (ne : other ≠ path) (now : Option File) :
    (w.rebind path now).entries other = w.entries other :=
  entries_setEntry_ne ne _

@[simp] theorem file_rebind (w : World) (path : Path) (now : Option File) :
    (w.rebind path now).file path = now := by
  simp [World.file]

/-- Syncing the directory keeps every entry. -/
theorem syncDirectory_kept (w : World) (path : Path) :
    Kept (w.entries path) (w.syncDirectory.entries path) := ⟨rfl, nofun⟩

@[simp] theorem file_syncDirectory (w : World) (path : Path) :
    w.syncDirectory.file path = w.file path := rfl

@[simp] theorem entries_opened (w : World) (path : Path) :
    (w.opened path).entries = w.entries := rfl

theorem streams_opened_ne {g : Nat} (ne : g ≠ w.next) (path : Path) :
    (w.opened path).streams g = w.streams g :=
  streams_setStream_ne ne _

/-- A new handle, as a cursor over the world with the next number. -/
theorem opened_eq (w : World) (path : Path) :
    w.opened path = { w with next := w.next + 1 }.cursor w.next path 0 := rfl

end World

open World

/-- A write keeps what patching the bytes keeps. -/
theorem Throughout.write {offset : Nat} {data : List UInt8} (all : Throughout crashes P w path)
    (keeps : ∀ bytes, P bytes → P (patch bytes offset data)) :
    Throughout crashes P (w.write path offset data) path := by
  cases found : w.file path with
  | none =>
    refine all.congr ?_
    unfold World.write
    rw [found]
    exact found
  | some file =>
    obtain ⟨after, here, contents⟩ := file_write crashes found offset data
    intro file' found' content among
    rw [here, Option.some.injEq] at found'
    subst found'
    rcases contents content among with old | rfl
    · exact all file found content old
    · exact keeps _ (all.bytes found)

theorem Throughout.syncFile (all : Throughout crashes P w path) :
    Throughout crashes P (w.syncFile path) path := by
  cases found : w.file path with
  | none =>
    refine all.congr ?_
    unfold World.syncFile
    rw [found]
    exact found
  | some file =>
    intro file' found' content among
    rw [file_syncFile found, Option.some.injEq] at found'
    subst found'
    rw [File.contents_synced rfl, List.mem_singleton] at among
    have holds := all.bytes found
    rwa [among]

/-- After a sync only the present bytes matter. -/
theorem throughout_synced (found : w.file path = some file) (synced : file.older = [])
    (holds : P file.bytes) :
    Throughout crashes P w path := by
  intro file' found' content among
  rw [found, Option.some.injEq] at found'
  subst found'
  rw [File.contents_synced synced, List.mem_singleton] at among
  exact among ▸ holds

/-- What a crash leaves of a name: something it stood for, torn. -/
theorem Crash.entry (crash : Crash w v) (path : Path) :
    (v.entries path).before = [] ∧
      ((v.file path = none ∧ none ∈ w.file path :: (w.entries path).before) ∨
        ∃ file left, some file ∈ w.file path :: (w.entries path).before ∧ v.file path = some left ∧
          left.older = [] ∧ Torn file left.bytes) := by
  obtain ⟨settled, ⟨possible, gone⟩ | ⟨file, left, possible, there, synced, torn⟩⟩ :=
  crash.entries path
  · exact ⟨settled, .inl ⟨gone, possible⟩⟩
  · exact ⟨settled, .inr ⟨file, left, possible, there, synced, torn⟩⟩

/-! ## Frames -/

/-- Files and output are as they were, and so are the handles that were open. -/
structure Quiet (w v : World) : Prop where
  entries : v.entries = w.entries
  output : v.output = w.output
  next : w.next ≤ v.next
  streams : ∀ g < w.next, v.streams g = w.streams g

theorem Quiet.refl (w : World) : Quiet w w := ⟨rfl, rfl, Nat.le_refl _, fun _ _ => rfl⟩

theorem Quiet.trans {u : World} (first : Quiet w u) (second : Quiet u v) : Quiet w v :=
  ⟨second.entries.trans first.entries, second.output.trans first.output,
    Nat.le_trans first.next second.next,
    fun g below => (second.streams g (Nat.lt_of_lt_of_le below first.next)).trans
      (first.streams g below)⟩

/-- A new handle that is in use, or was given up. -/
theorem Quiet.newHandle (w : World) (stream : Option Stream) :
    Quiet w ({ w with next := w.next + 1 }.setStream w.next stream) :=
  ⟨rfl, rfl, Nat.le_succ _, fun _ below => streams_setStream_ne (Nat.ne_of_lt below) _⟩

/-- Files whose names do not start with a stem are kept. -/
def KeptBut (stem : Path) (w v : World) : Prop :=
  ∀ path, ¬ stem <+: path → Kept (w.entries path) (v.entries path)

theorem KeptBut.refl (stem : Path) (w : World) : KeptBut stem w w := fun _ _ => Kept.refl _

theorem KeptBut.trans {stem : Path} {u : World} (first : KeptBut stem w u)
    (second : KeptBut stem u v) :
    KeptBut stem w v := fun path outside => (first path outside).trans (second path outside)

theorem KeptBut.of_eq {stem : Path} (same : v.entries = w.entries) : KeptBut stem w v :=
  fun path _ => Kept.of_eq (congrFun same path)

/-! ## Writing through one handle -/

/-- One handle has written to one file, in shapes it keeps; what it still buffers agrees
with them. -/
structure Writes (crashes : Bool) (shapes : Shape → Prop) (path : Path) (handle : Nat)
    (w v : World) : Prop where
  entries : ∀ other, other ≠ path → v.entries other = w.entries other
  before : (v.entries path).before = (w.entries path).before
  there : (v.file path).isSome = true
  output : v.output = w.output
  next : v.next = w.next
  streams : ∀ g, g ≠ handle → v.streams g = w.streams g
  fits : ∀ shape, shapes shape → Throughout crashes shape.Fits w path →
    Throughout crashes shape.Fits v path
  stream : ∃ position pending, v.streams handle = some { path, position, pending } ∧
    ∀ shape, shapes shape → shape.Agrees position pending

namespace Writes

variable {shapes : Shape → Prop} {position : Nat} {pending data : List UInt8}

/-- Writing starts with a stream whose buffered bytes agree with the shapes. -/
theorem start (there : (w.file path).isSome = true)
    (opened : w.streams handle = some { path, position, pending })
    (agrees : ∀ shape, shapes shape → shape.Agrees position pending) :
    Writes crashes shapes path handle w w :=
  ⟨fun _ _ => rfl, rfl, there, rfl, rfl, fun _ _ => rfl, fun _ _ fits => fits, position, pending,
    opened, agrees⟩

/-- Buffered bytes that agree with the shapes are passed on. -/
theorem passOn (writes : Writes crashes shapes path handle w v) (stream : Stream)
    (on : stream.path = path) (agrees : ∀ shape, shapes shape → shape.Agrees stream.position data)
    (written kept : Nat) :
    Writes crashes shapes path handle w (v.passOn handle stream data written kept) where
  entries other ne := (entries_passOn_ne (on ▸ ne) ..).trans (writes.entries other ne)
  before := (before_passOn ..).trans writes.before
  there := by
    obtain ⟨file, found⟩ := Option.isSome_iff_exists.mp writes.there
    obtain ⟨after, here, _⟩ := file_write false found stream.position (data.take written)
    subst on
    exact Option.isSome_iff_exists.mpr ⟨after, here⟩
  output := (output_passOn ..).trans writes.output
  next := (next_passOn ..).trans writes.next
  streams g ne := (streams_passOn_ne ne ..).trans (writes.streams g ne)
  fits shape among before := by
    subst on
    exact (writes.fits shape among before).write fun bytes fits =>
      fits.patch ((agrees shape among).take written)
  stream := by
    subst on
    exact ⟨_, _, by simp only [World.passOn, streams_setStream],
      fun shape among => ((agrees shape among).drop written).take kept⟩

/-- The stream moves on, or buffers bytes that agree with the shapes. -/
theorem setStream (writes : Writes crashes shapes path handle w v) (position : Nat)
    (pending : List UInt8) (agrees : ∀ shape, shapes shape → shape.Agrees position pending) :
    Writes crashes shapes path handle w
      (v.setStream handle (some { path, position, pending })) where
  entries := writes.entries
  before := writes.before
  there := writes.there
  output := writes.output
  next := writes.next
  streams g ne := (streams_setStream_ne ne _).trans (writes.streams g ne)
  fits := writes.fits
  stream := ⟨position, pending, streams_setStream .., agrees⟩

theorem syncFile (writes : Writes crashes shapes path handle w v) :
    Writes crashes shapes path handle w (v.syncFile path) where
  entries other ne := (entries_syncFile_ne ne).trans (writes.entries other ne)
  before := (before_syncFile ..).trans writes.before
  there := by
    obtain ⟨file, found⟩ := Option.isSome_iff_exists.mp writes.there
    rw [file_syncFile found]
    rfl
  output := (output_syncFile ..).trans writes.output
  next := (next_syncFile ..).trans writes.next
  streams g ne := (congrFun (streams_syncFile ..) g).trans (writes.streams g ne)
  fits shape among before := (writes.fits shape among before).syncFile
  stream := by
    rw [streams_syncFile]
    exact writes.stream

theorem kept (writes : Writes crashes shapes path handle w v) (ne : other ≠ path) :
    Kept (w.entries other) (v.entries other) := Kept.of_eq (writes.entries other ne)

end Writes

end SqlEngine.Library
