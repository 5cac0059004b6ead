import SqlEngine.Library.FileSystem

/-! Rules for the calls of the file system: for each call, what a program that makes it
has to be ready for. -/
namespace SqlEngine.Library

variable {faults : Faults} {inv : World → Prop} {post : α → World → Prop} {w v : World}
    {path other : Path}
  {handle : Nat} {file : File}

namespace World

/-! ## Worlds -/

@[simp] theorem entries_setStream (w : World) (handle : Nat) (stream : Option Stream) :
    (w.setStream handle stream).entries = w.entries := rfl

@[simp] theorem next_setStream (w : World) (handle : Nat) (stream : Option Stream) :
    (w.setStream handle stream).next = w.next := rfl

@[simp] theorem output_setStream (w : World) (handle : Nat) (stream : Option Stream) :
    (w.setStream handle stream).output = w.output := rfl

@[simp] theorem streams_setStream (w : World) (handle : Nat) (stream : Option Stream) :
    (w.setStream handle stream).streams handle = stream := by
  simp [setStream]

theorem streams_setStream_ne {g : Nat} (ne : g ≠ handle) (stream : Option Stream) :
    (w.setStream handle stream).streams g = w.streams g := by
  simp [setStream, ne]

@[simp] theorem file_setStream (w : World) (handle : Nat) (stream : Option Stream) (path : Path) :
    (w.setStream handle stream).file path = w.file path := rfl

@[simp] theorem setStream_setStream (w : World) (handle : Nat) (first second : Option Stream) :
    (w.setStream handle first).setStream handle second = w.setStream handle second := by
  simp only [setStream, World.mk.injEq, and_self, and_true, true_and]
  funext g
  split <;> rfl

theorem setStream_self (same : w.streams handle = stream) : w.setStream handle stream = w := by
  cases w
  simp only [setStream, World.mk.injEq, true_and, and_true]
  funext g
  split
  · rename_i eq
    rw [eq]
    exact same.symm
  · rfl

theorem file_congr (same : v.entries = w.entries) (path : Path) : v.file path = w.file path := by
  simp only [file, same]

@[simp] theorem entries_setEntry (w : World) (path : Path) (entry : Entry) :
    (w.setEntry path entry).entries path = entry := by
  simp [setEntry]

theorem entries_setEntry_ne (ne : other ≠ path) (entry : Entry) :
    (w.setEntry path entry).entries other = w.entries other := by
  simp [setEntry, ne]

theorem entries_write_ne (ne : other ≠ path) (offset : Nat) (data : List UInt8) :
    (w.write path offset data).entries other = w.entries other := by
  unfold write
  split
  · rfl
  · split
    · rfl
    · split
      · exact entries_setEntry_ne ne _
      · rfl

@[simp] theorem write_nil (w : World) (path : Path) (offset : Nat) :
    w.write path offset [] = w := by
  unfold write
  split <;> simp

private theorem write_rest (w : World) (path : Path) (offset : Nat) (data : List UInt8) :
    (w.write path offset data).streams = w.streams ∧ (w.write path offset data).next = w.next ∧
      (w.write path offset data).output = w.output := by
  unfold write
  split
  · exact ⟨rfl, rfl, rfl⟩
  · split
    · exact ⟨rfl, rfl, rfl⟩
    · split <;> exact ⟨rfl, rfl, rfl⟩

@[simp] theorem streams_write (w : World) (path : Path) (offset : Nat) (data : List UInt8) :
    (w.write path offset data).streams = w.streams := (write_rest w path offset data).1

@[simp] theorem next_write (w : World) (path : Path) (offset : Nat) (data : List UInt8) :
    (w.write path offset data).next = w.next := (write_rest w path offset data).2.1

@[simp] theorem output_write (w : World) (path : Path) (offset : Nat) (data : List UInt8) :
    (w.write path offset data).output = w.output := (write_rest w path offset data).2.2

theorem write_setStream (w : World) (handle : Nat) (stream : Option Stream) (path : Path)
    (offset : Nat) (data : List UInt8) :
    (w.setStream handle stream).write path offset data =
      (w.write path offset data).setStream handle stream := by
  unfold write
  rw [file_setStream]
  split
  · rfl
  · split
    · rfl
    · split <;> rfl

/-- What a handle passes on does not depend on what was noted for it. -/
theorem passOn_setStream (w : World) (handle : Nat) (noted : Option Stream) (stream : Stream)
    (data : List UInt8) (written kept : Nat) :
    (w.setStream handle noted).passOn handle stream data written kept =
      w.passOn handle stream data written kept := by
  unfold passOn
  rw [write_setStream, setStream_setStream]

/-- The same world with an open file at an offset, nothing being buffered. -/
def cursor (w : World) (handle : Nat) (path : Path) (position : Nat) : World :=
  w.setStream handle (some { path, position, pending := [] })

@[simp] theorem entries_cursor (w : World) (handle : Nat) (path : Path) (position : Nat) :
    (w.cursor handle path position).entries = w.entries := rfl

@[simp] theorem next_cursor (w : World) (handle : Nat) (path : Path) (position : Nat) :
    (w.cursor handle path position).next = w.next := rfl

@[simp] theorem output_cursor (w : World) (handle : Nat) (path : Path) (position : Nat) :
    (w.cursor handle path position).output = w.output := rfl

@[simp] theorem streams_cursor (w : World) (handle : Nat) (path : Path) (position : Nat) :
    (w.cursor handle path position).streams handle = some { path, position, pending := [] } := by
  simp [cursor]

@[simp] theorem cursor_cursor (w : World) (handle : Nat) (path : Path) (first second : Nat) :
    (w.cursor handle path first).cursor handle path second = w.cursor handle path second := by
  simp [cursor]

/-- The same world with some text printed. -/
def printed (w : World) (text : List UInt8) : World := { w with output := w.output ++ text }

@[simp] theorem output_printed (w : World) (text : List UInt8) :
    (w.printed text).output = w.output ++ text := rfl

@[simp] theorem printed_printed (w : World) (first second : List UInt8) :
    (w.printed first).printed second = w.printed (first ++ second) := by
  simp [printed]

theorem printed_nil (w : World) : w.printed [] = w := by
  simp [printed]

theorem setStream_printed (w : World) (text : List UInt8) (handle : Nat) (stream : Option Stream) :
    (w.printed text).setStream handle stream = (w.setStream handle stream).printed text := rfl

theorem cursor_printed (w : World) (text : List UInt8) (handle : Nat) (path : Path)
    (position : Nat) :
    (w.printed text).cursor handle path position = (w.cursor handle path position).printed text :=
  rfl

/-- Passing on bytes when there are none leaves only the stream without buffered bytes. -/
@[simp] theorem passOn_nil (w : World) (handle : Nat) (stream : Stream) (written kept : Nat) :
    w.passOn handle stream [] written kept =
      w.setStream handle (some { stream with pending := [] }) := by
  simp [passOn]

end World

open World Program

/-! ## Calls -/

private theorem wp_act {c : Call} {next : Answer c → Prog α} (holds : inv w)
    (possible : ∃ choice, Allowed faults w choice c)
    (each : ∀ choice, Allowed faults w choice c →
      wp (Steps faults) inv (next (act w choice c).1) post (act w choice c).2) :
    wp (Steps faults) inv (Program.call c next) post w := by
  refine ⟨holds, ?_, ?_⟩
  · obtain ⟨choice, allowed⟩ := possible
    exact ⟨_, _, choice, allowed, rfl⟩
  · rintro reply after ⟨choice, allowed, did⟩
    have done := each choice allowed
    rwa [did] at done

namespace Posix

private theorem wp_call {c : Call} {next : Answer c → Prog α} (holds : inv w)
    (named : ∀ choice, succeed w choice c = succeed w {} c)
    (plain : Allowed faults w {} c)
    (ok : wp (Steps faults) inv (next (succeed w {} c).1) post (succeed w {} c).2)
    (failed : ∀ choice error, choice.error = some error → Allowed faults w choice c →
      wp (Steps faults) inv (next (fail w choice error c).1) post (fail w choice error c).2) :
    wp (Steps faults) inv (call c >>= next) post w := by
  refine wp_act holds ⟨{}, plain⟩ fun choice allowed => ?_
  unfold act
  cases chosen : choice.error with
  | none =>
    dsimp only
    rw [named choice]
    exact ok
  | some error => exact failed choice error chosen allowed

private theorem allowed_fails {choice : Choice} {error : Errno} {c : Call}
    (chosen : choice.error = some error) (allowed : Allowed faults w choice c) :
    faults.calls = true ∧ error ≠ .enoent ∧ error ≠ .eexist := by
  unfold Allowed at allowed
  rw [chosen] at allowed
  exact ⟨allowed.1, allowed.2.1, allowed.2.2.1⟩

/-- Any call may do what it may do under fewer faults. -/
theorem allowed_any {choice : Choice} {c : Call} (allowed : Allowed faults w choice c) :
    Allowed .any w choice c := by
  unfold Allowed at allowed ⊢
  cases chosen : choice.error with
  | none =>
    rw [chosen] at allowed
    exact allowed
  | some error =>
    rw [chosen] at allowed
    obtain ⟨_, noent, exist, which⟩ := allowed
    refine ⟨rfl, noent, exist, ?_⟩
    cases c <;> first | exact which | exact rfl | exact fun _ => rfl

/-- What returns under some faults returns when any call may fail. -/
theorem returns_any {p : Prog α} {value : α} (ran : Returns (Steps faults) p w value v) :
    Returns (Steps .any) p w value v := by
  refine returns_mono ?_ ran
  rintro call w answer after ⟨choice, allowed, acted⟩
  exact ⟨choice, allowed_any allowed, acted⟩

/-- `access` tells whether the name stands for a file, or fails. -/
theorem wp_access {next : Except Errno Unit → Prog α} (holds : inv w)
    (present : (w.file path).isSome = true → wp (Steps faults) inv (next (.ok ())) post w)
    (absent : w.file path = none → wp (Steps faults) inv (next (.error .enoent)) post w)
    (failed : faults.calls = true → faults.access = true → ∀ error, error ≠ .enoent →
      wp (Steps faults) inv (next (.error error)) post w) :
    wp (Steps faults) inv (access path >>= next) post w := by
  refine wp_call holds (fun _ => rfl) trivial ?_ fun choice error chosen allowed => ?_
  · simp only [succeed]
    split
    · rename_i found
      exact present found
    · rename_i missing
      exact absent (by simpa using missing)
  · obtain ⟨calls, missing, _⟩ := allowed_fails chosen allowed
    unfold Allowed at allowed
    rw [chosen] at allowed
    exact failed calls allowed.2.2.2 error missing

private theorem wp_ite_file {there gone : β × World} (next : β → Prog α)
    (present : (w.file path).isSome = true → wp (Steps faults) inv (next there.1) post there.2)
    (absent : w.file path = none → wp (Steps faults) inv (next gone.1) post gone.2) :
    wp (Steps faults) inv (next (if (w.file path).isSome then there else gone).1) post
      (if (w.file path).isSome then there else gone).2 := by
  split
  · rename_i found
    exact present found
  · rename_i missing
    exact absent (by simpa using missing)

/-- Opening a file that exists. -/
theorem wp_openFile {next : Except Errno Nat → Prog α} (holds : inv w)
    (present : (w.file path).isSome = true →
      wp (Steps faults) inv (next (.ok w.next)) post (w.opened path))
    (absent : w.file path = none → wp (Steps faults) inv (next (.error .enoent)) post w)
    (failed : faults.calls = true → ∀ error, error ≠ .enoent →
      wp (Steps faults) inv (next (.error error)) post w) :
    wp (Steps faults) inv (openFile path false >>= next) post w := by
  refine wp_call holds (fun _ => rfl) trivial ?_ fun choice error chosen allowed => ?_
  · simp only [succeed, Bool.false_eq_true, ↓reduceIte]
    exact wp_ite_file next present absent
  · obtain ⟨calls, missing, _⟩ := allowed_fails chosen allowed
    exact failed calls error missing

/-- An empty file: what creation leaves. -/
def emptyFile : File := { bytes := [], older := [], fits := Nat.zero_le _ }

/-- Creating a file that must not exist. -/
theorem wp_createFile {next : Except Errno Nat → Prog α} (holds : inv w)
    (created : w.file path = none → wp (Steps faults) inv (next (.ok w.next)) post
      ((w.rebind path (some emptyFile)).opened path))
    (present : (w.file path).isSome = true → wp (Steps faults) inv (next (.error .eexist)) post w)
    (failed : faults.calls = true → ∀ error, error ≠ .eexist →
      wp (Steps faults) inv (next (.error error)) post w) :
    wp (Steps faults) inv (openFile path true >>= next) post w := by
  refine wp_call holds (fun _ => rfl) trivial ?_ fun choice error chosen allowed => ?_
  · simp only [succeed, ↓reduceIte]
    exact wp_ite_file next present created
  · obtain ⟨calls, _, there⟩ := allowed_fails chosen allowed
    exact failed calls error there

/-- A temporary file gets a name of its own. -/
theorem wp_mkstemp {template : Path} {next : Except Errno (Nat × Path) → Prog α} (holds : inv w)
    (possible : faults.calls = true ∨ ∃ suffix, isPortableSuffix suffix = true ∧
      w.file (template.take (template.length - 6) ++ suffix) = none)
    (made : ∀ suffix, isPortableSuffix suffix = true →
      w.file (template.take (template.length - 6) ++ suffix) = none →
      wp (Steps faults) inv
      (next (.ok (w.next, template.take (template.length - 6) ++ suffix))) post
        ((w.rebind (template.take (template.length - 6) ++ suffix) (some emptyFile)).opened
          (template.take (template.length - 6) ++ suffix)))
    (failed : faults.calls = true → ∀ error, wp (Steps faults) inv (next (.error error)) post w) :
    wp (Steps faults) inv (mkstemp template >>= next) post w := by
  refine wp_act holds ?_ fun choice allowed => ?_
  · rcases possible with calls | ⟨suffix, portable, fresh⟩
    · exact ⟨{ error := some .eio }, calls, nofun, nofun, trivial⟩
    · exact ⟨{ suffix }, portable, fresh⟩
  · unfold act
    cases chosen : choice.error with
    | none =>
      unfold Allowed at allowed
      rw [chosen] at allowed
      exact made choice.suffix allowed.1 allowed.2
    | some error => exact failed (allowed_fails chosen allowed).1 error

theorem wp_fchmod {next : Except Errno Unit → Prog α} (holds : inv w)
    (ok : wp (Steps faults) inv (next (.ok ())) post w)
    (failed : faults.calls = true → ∀ error, wp (Steps faults) inv (next (.error error)) post w) :
    wp (Steps faults) inv (fchmod handle >>= next) post w :=
  wp_call holds (fun _ => rfl) trivial ok fun _ error chosen allowed =>
    failed (allowed_fails chosen allowed).1 error

/-- `fdopen` makes a stream of the descriptor, under the same number. -/
theorem wp_fdopen {next : Except Errno Unit → Prog α} (holds : inv w)
    (ok : wp (Steps faults) inv (next (.ok ())) post w)
    (failed : faults.calls = true → ∀ error, wp (Steps faults) inv (next (.error error)) post w) :
    wp (Steps faults) inv (fdopen handle >>= next) post w :=
  wp_call holds (fun _ => rfl) trivial ok fun _ error chosen allowed =>
    failed (allowed_fails chosen allowed).1 error

/-- `close` gives the descriptor up, whatever it answers. -/
theorem wp_close {next : Except Errno Unit → Prog α} (holds : inv w)
    (ok : wp (Steps faults) inv (next (.ok ())) post (w.setStream handle none))
    (failed : faults.calls = true → ∀ error,
      wp (Steps faults) inv (next (.error error)) post (w.setStream handle none)) :
    wp (Steps faults) inv (close handle >>= next) post w :=
  wp_call holds (fun _ => rfl) trivial ok fun _ error chosen allowed =>
    failed (allowed_fails chosen allowed).1 error

theorem wp_openDirectory {next : Except Errno Unit → Prog α} (holds : inv w)
    (ok : wp (Steps faults) inv (next (.ok ())) post w)
    (failed : faults.calls = true → ∀ error, wp (Steps faults) inv (next (.error error)) post w) :
    wp (Steps faults) inv (openDirectory path >>= next) post w :=
  wp_call holds (fun _ => rfl) trivial ok fun _ error chosen allowed =>
    failed (allowed_fails chosen allowed).1 error

theorem wp_closeDirectory {next : Except Errno Unit → Prog α} (holds : inv w)
    (ok : wp (Steps faults) inv (next (.ok ())) post w)
    (failed : faults.calls = true → ∀ error, wp (Steps faults) inv (next (.error error)) post w) :
    wp (Steps faults) inv (closeDirectory >>= next) post w :=
  wp_call holds (fun _ => rfl) trivial ok fun _ error chosen allowed =>
    failed (allowed_fails chosen allowed).1 error

/-- A failing sync says that it is not supported only where that is possible. -/
theorem wp_fsyncDirectory {next : Except Errno Unit → Prog α} (holds : inv w)
    (ok : wp (Steps faults) inv (next (.ok ())) post w.syncDirectory)
    (failed : faults.calls = true →
      ∀ error, (error = .einval ∨ error = .enotsup → faults.unsupported = true) →
      wp (Steps faults) inv (next (.error error)) post w) :
    wp (Steps faults) inv (fsyncDirectory >>= next) post w := by
  refine wp_call holds (fun _ => rfl) trivial ok fun choice error chosen allowed => ?_
  have calls := (allowed_fails chosen allowed).1
  unfold Allowed at allowed
  rw [chosen] at allowed
  exact failed calls error allowed.2.2.2

/-- `unlink` takes a name away. -/
theorem wp_unlink {next : Except Errno Unit → Prog α} (holds : inv w)
    (ok : (w.file path).isSome = true →
      wp (Steps faults) inv (next (.ok ())) post (w.rebind path none))
    (absent : w.file path = none → wp (Steps faults) inv (next (.error .enoent)) post w)
    (failed : faults.calls = true → ∀ error, wp (Steps faults) inv (next (.error error)) post w) :
    wp (Steps faults) inv (unlink path >>= next) post w := by
  refine wp_call holds (fun _ => rfl) trivial ?_ fun _ error chosen allowed =>
    failed (allowed_fails chosen allowed).1 error
  simp only [succeed]
  exact wp_ite_file next ok absent

/-- `rename` gives a file the name of another in one step. -/
theorem wp_rename {source target : Path} {next : Except Errno Unit → Prog α} (holds : inv w)
    (found : w.file source = some file) (distinct : source ≠ target)
    (ok : wp (Steps faults) inv (next (.ok ())) post
      ((w.rebind target (some file)).rebind source none))
    (failed : faults.calls = true → ∀ error, wp (Steps faults) inv (next (.error error)) post w) :
    wp (Steps faults) inv (rename source target >>= next) post w := by
  refine wp_call holds (fun _ => rfl) trivial ?_ fun _ error chosen allowed =>
    failed (allowed_fails chosen allowed).1 error
  simp only [succeed, found, distinct, ↓reduceIte]
  exact ok

/-- Memory is granted, or refused where calls may fail. -/
theorem wp_allocate {next : Bool → Prog α} (holds : inv w)
    (granted : wp (Steps faults) inv (next true) post w)
    (refused : faults.calls = true → wp (Steps faults) inv (next false) post w) :
    wp (Steps faults) inv (allocate >>= next) post w :=
  wp_call holds (fun _ => rfl) trivial granted fun _ _ chosen allowed =>
    refused (allowed_fails chosen allowed).1

/-- Printing appends to the output. -/
theorem wp_print {data : List UInt8} {next : Unit → Prog α} (holds : inv w)
    (done : wp (Steps faults) inv (next ()) post (w.printed data)) :
    wp (Steps faults) inv (print data >>= next) post w := by
  refine wp_call holds (fun _ => rfl) trivial done fun choice error chosen allowed => ?_
  unfold Allowed at allowed
  rw [chosen] at allowed
  exact allowed.2.2.2.elim

/-- `fopen` opens a file that is there. -/
theorem wp_fopen {next : Except Errno Nat → Prog α} (holds : inv w)
    (present : (w.file path).isSome = true →
      wp (Steps faults) inv (next (.ok w.next)) post (w.opened path))
    (absent : w.file path = none → wp (Steps faults) inv (next (.error .enoent)) post w)
    (failed : faults.calls = true → ∀ error, error ≠ .enoent →
      wp (Steps faults) inv (next (.error error)) post w) :
    wp (Steps faults) inv (fopen path >>= next) post w := by
  refine wp_call holds (fun _ => rfl) trivial ?_ fun choice error chosen allowed => ?_
  · simp only [succeed]
    exact wp_ite_file next present absent
  · obtain ⟨calls, missing, _⟩ := allowed_fails chosen allowed
    exact failed calls error missing

/-! ## Reading -/

/-- Moving in a file when nothing is buffered. -/
theorem wp_fseek_cursor {position : Nat} {target : Option Nat} {next : Except Errno Unit → Prog α}
    (found : w.file path = some file) (holds : inv (w.cursor handle path position))
    (ok : wp (Steps faults) inv (next (.ok ())) post
      (w.cursor handle path (target.getD file.bytes.length)))
    (failed : faults.calls = true → ∀ error,
      wp (Steps faults) inv (next (.error error)) post (w.cursor handle path position)) :
    wp (Steps faults) inv (fseek handle target >>= next) post (w.cursor handle path position) := by
  refine wp_call holds (fun _ => rfl) trivial ?_ fun choice error chosen allowed => ?_
  · cases target <;>
      simpa [succeed, onStream, flush, Roomy, found, cursor] using ok
  · have calls := (allowed_fails chosen allowed).1
    simpa [fail, onStream, cursor] using failed calls error

/-- `ftell` tells the position of a cursor. -/
theorem wp_ftell_cursor {position : Nat} {next : Except Errno Nat → Prog α}
    (holds : inv (w.cursor handle path position)) (fits : position ≤ maxFileSize)
    (ok : wp (Steps faults) inv (next (.ok position)) post (w.cursor handle path position))
    (failed : faults.calls = true → ∀ error,
      wp (Steps faults) inv (next (.error error)) post (w.cursor handle path position)) :
    wp (Steps faults) inv (ftell handle >>= next) post (w.cursor handle path position) := by
  refine wp_call holds (fun _ => rfl) trivial ?_ fun choice error chosen allowed => ?_
  · simpa [succeed, onStream, fits] using ok
  · exact failed (allowed_fails chosen allowed).1 error

/-- A failing read returns fewer bytes than asked for. -/
theorem wp_fread_cursor {position count : Nat} {next : List UInt8 → Prog α}
    (found : w.file path = some file) (holds : inv (w.cursor handle path position))
    (some_bytes : 0 < count)
    (ok : wp (Steps faults) inv (next (slice file.bytes position count)) post
      (w.cursor handle path (position + (slice file.bytes position count).length)))
    (short : faults.calls = true → ∀ data, data.length < count →
      wp (Steps faults) inv (next data) post (w.cursor handle path (position + data.length))) :
    wp (Steps faults) inv (fread handle count >>= next) post (w.cursor handle path position) := by
  refine wp_call holds (fun _ => rfl) trivial ?_ fun choice error chosen allowed => ?_
  · simpa [succeed, onStream, found, cursor] using ok
  · have length := length_slice file.bytes position (min choice.written (count - 1))
    simpa [fail, onStream, found, cursor] using short (allowed_fails chosen allowed).1
      (slice file.bytes position (min choice.written (count - 1))) (by omega)

/-- `fread` reads the bytes at a cursor and moves it behind them. -/
theorem wp_read_cursor {position count : Nat} {next : Except Errno (List UInt8) → Prog α}
    (found : w.file path = some file) (holds : inv (w.cursor handle path position))
    (ok : wp (Steps faults) inv (next (.ok (slice file.bytes position count))) post
      (w.cursor handle path (position + (slice file.bytes position count).length)))
    (failed : faults.calls = true → ∀ error,
      wp (Steps faults) inv (next (.error error)) post (w.cursor handle path position)) :
    wp (Steps faults) inv (read handle count >>= next) post (w.cursor handle path position) := by
  refine wp_call holds (fun _ => rfl) trivial ?_ fun choice error chosen allowed => ?_
  · simpa [succeed, onStream, found, cursor] using ok
  · exact failed (allowed_fails chosen allowed).1 error

/-! ## Writing -/

/-- `fwrite` buffers its data. -/
theorem wp_fwrite {stream : Stream} {data : List UInt8} {next : Except Errno Unit → Prog α}
    (opened : w.streams handle = some stream) (holds : inv w)
    (ok : wp (Steps faults) inv (next (.ok ())) post
      (w.setStream handle (some { stream with pending := stream.pending ++ data })))
    (failed : faults.calls = true →
      ∀ error written kept, wp (Steps faults) inv (next (.error error)) post
      (w.passOn handle stream (stream.pending ++ data) written kept)) :
    wp (Steps faults) inv (fwrite handle data >>= next) post w := by
  refine wp_call holds (fun _ => rfl) trivial ?_ fun choice error chosen allowed => ?_
  · simpa [succeed, onStream, opened] using ok
  · simpa [fail, onStream, opened] using
      failed (allowed_fails chosen allowed).1 error choice.written choice.kept

private theorem passOn_nothing {stream : Stream} (opened : w.streams handle = some stream) :
    w.passOn handle stream stream.pending 0 stream.pending.length = w := by
  have same : w.setStream handle (some stream) = w := setStream_self opened
  simpa [passOn] using same

/-- A flush passes everything on, or fails: also when no file is that large. -/
theorem wp_fflush {stream : Stream} {next : Except Errno Unit → Prog α}
    (opened : w.streams handle = some stream) (holds : inv w)
    (ok : Roomy stream.position stream.pending → wp (Steps faults) inv (next (.ok ())) post
      (w.passOn handle stream stream.pending stream.pending.length 0))
    (failed : faults.calls = true ∨ ¬ Roomy stream.position stream.pending → ∀ error written kept,
      wp (Steps faults) inv (next (.error error)) post
      (w.passOn handle stream stream.pending written kept)) :
    wp (Steps faults) inv (fflush handle >>= next) post w := by
  refine wp_call holds (fun _ => rfl) trivial ?_ fun choice error chosen allowed => ?_
  · by_cases room : Roomy stream.position stream.pending
    · simpa [succeed, onStream, opened, flush, room] using ok room
    · simpa [succeed, onStream, opened, flush, room, passOn_nothing opened] using
        failed (.inr room) .eio 0 stream.pending.length
  · simpa [fail, onStream, opened] using
      failed (.inl (allowed_fails chosen allowed).1) error choice.written choice.kept

/-- Moving to an offset passes the buffered bytes on first. -/
theorem wp_fseek {stream : Stream} {position : Nat} {next : Except Errno Unit → Prog α}
    (opened : w.streams handle = some stream) (holds : inv w)
    (ok : Roomy stream.position stream.pending → wp (Steps faults) inv (next (.ok ())) post
      ((w.passOn handle stream stream.pending stream.pending.length 0).setStream handle
        (some { stream with position, pending := [] })))
    (failed : faults.calls = true ∨ ¬ Roomy stream.position stream.pending → ∀ error written kept,
      wp (Steps faults) inv (next (.error error)) post
      (w.passOn handle stream stream.pending written kept)) :
    wp (Steps faults) inv (fseek handle (some position) >>= next) post w := by
  refine wp_call holds (fun _ => rfl) trivial ?_ fun choice error chosen allowed => ?_
  · by_cases room : Roomy stream.position stream.pending
    · simpa [succeed, onStream, opened, flush, room] using ok room
    · simpa [succeed, onStream, opened, flush, room, passOn_nothing opened] using
        failed (.inr room) .eio 0 stream.pending.length
  · simpa [fail, onStream, opened] using
      failed (.inl (allowed_fails chosen allowed).1) error choice.written choice.kept

/-- Moving to the end passes the buffered bytes on first, too. -/
theorem wp_fseek_end {stream : Stream} {next : Except Errno Unit → Prog α}
    (opened : w.streams handle = some stream) (holds : inv w)
    (ok : ∀ file, (w.passOn handle stream stream.pending stream.pending.length 0).file stream.path =
      some file →
      wp (Steps faults) inv (next (.ok ())) post
        ((w.passOn handle stream stream.pending stream.pending.length 0).setStream handle
          (some { stream with position := file.bytes.length, pending := [] })))
    (failed : ∀ error written kept,
      wp (Steps faults) inv (next (.error error)) post
      (w.passOn handle stream stream.pending written kept)) :
    wp (Steps faults) inv (fseek handle none >>= next) post w := by
  refine wp_call holds (fun _ => rfl) trivial ?_ fun choice error chosen allowed => ?_
  · by_cases room : Roomy stream.position stream.pending
    · cases found :
        (w.passOn handle stream stream.pending stream.pending.length 0).file stream.path with
      | none => simpa [succeed, onStream, opened, flush, room,
          found] using failed .eio stream.pending.length 0
      | some file => simpa [succeed, onStream, opened, flush, room, found] using ok file found
    · simpa [succeed, onStream, opened, flush, room, passOn_nothing opened] using
        failed .eio 0 stream.pending.length
  · simpa [fail, onStream, opened] using failed error choice.written choice.kept

/-- Closing passes the buffered bytes on, or some of them; the handle is gone. -/
theorem wp_fclose {stream : Stream} {next : Except Errno Unit → Prog α}
    (opened : w.streams handle = some stream) (holds : inv w)
    (ok : Roomy stream.position stream.pending → wp (Steps faults) inv (next (.ok ())) post
      ((w.passOn handle stream stream.pending stream.pending.length 0).setStream handle none))
    (failed : faults.calls = true ∨ ¬ Roomy stream.position stream.pending → ∀ error written kept,
      wp (Steps faults) inv (next (.error error)) post
        ((w.passOn handle stream stream.pending written kept).setStream handle none)) :
    wp (Steps faults) inv (fclose handle >>= next) post w := by
  refine wp_call holds (fun _ => rfl) trivial ?_ fun choice error chosen allowed => ?_
  · by_cases room : Roomy stream.position stream.pending
    · simpa [succeed, onStream, opened, flush, room] using ok room
    · simpa [succeed, onStream, opened, flush, room, passOn_nothing opened] using
        failed (.inr room) .eio 0 stream.pending.length
  · simpa [fail, onStream, opened] using
      failed (.inl (allowed_fails chosen allowed).1) error choice.written choice.kept

/-- `fclose` closes a stream without buffered data, whatever it answers. -/
theorem wp_fclose_cursor {position : Nat} {next : Except Errno Unit → Prog α}
    (holds : inv (w.cursor handle path position))
    (closed : ∀ answer, wp (Steps faults) inv (next answer) post (w.setStream handle none)) :
    wp (Steps faults) inv (fclose handle >>= next) post (w.cursor handle path position) := by
  refine wp_fclose (streams_cursor ..) holds (fun _ => ?_) fun _ error _ _ => ?_
  · simpa [cursor] using closed (.ok ())
  · simpa [cursor] using closed (.error error)

/-- `fsync` makes what was passed on durable. -/
theorem wp_fsync {stream : Stream} {next : Except Errno Unit → Prog α}
    (opened : w.streams handle = some stream) (holds : inv w)
    (ok : wp (Steps faults) inv (next (.ok ())) post (w.syncFile stream.path))
    (failed : faults.calls = true → ∀ error, wp (Steps faults) inv (next (.error error)) post w) :
    wp (Steps faults) inv (fsync handle >>= next) post w := by
  refine wp_call holds (fun _ => rfl) trivial ?_ fun _ error chosen allowed =>
    failed (allowed_fails chosen allowed).1 error
  simpa [succeed, onStream, opened] using ok

/-- The content of a file is cut or extended. -/
def resizedFile (file : File) (length : Nat) (fits : length ≤ maxFileSize) : File :=
  { bytes := resize file.bytes length, older := file.older ++ [file.bytes],
    fits := by simpa using fits }

/-- `ftruncate` cuts the file, or fills it up with zeros. -/
theorem wp_ftruncate {stream : Stream} {length : Nat} {next : Except Errno Unit → Prog α}
    (opened : w.streams handle = some stream) (found : w.file stream.path = some file)
    (fits : length ≤ maxFileSize) (holds : inv w)
    (ok : wp (Steps faults) inv (next (.ok ())) post
      (w.setFile stream.path (resizedFile file length fits)))
    (failed : faults.calls = true → ∀ error, wp (Steps faults) inv (next (.error error)) post w) :
    wp (Steps faults) inv (ftruncate handle length >>= next) post w := by
  refine wp_call holds (fun _ => rfl) trivial ?_ fun _ error chosen allowed =>
    failed (allowed_fails chosen allowed).1 error
  simpa [succeed, onStream, opened, found, fits, resizedFile] using ok

end Posix

end SqlEngine.Library
