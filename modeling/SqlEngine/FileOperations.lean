import SqlEngine.Library.Contents
import SqlEngine.LayoutProofs
import SqlEngine.Storage

/-! What the file helpers of the engine do: buffered writes, flushing with a sync, syncing
the directory, and temporary files. -/
namespace SqlEngine

open Library Program World Posix

variable {faults : Faults} {inv : World → Prop} {post : α → World → Prop} {w u v : World}
    {path temp : Path}
  {h : Nat} {file : File} {stream : Stream}

/-- Nothing has changed but a file on the side, and the handles opened since. -/
structure SameBut (temp : Path) (w v : World) : Prop where
  entries : ∀ path, path ≠ temp → v.entries path = w.entries path
  output : v.output = w.output
  next : w.next ≤ v.next
  streams : ∀ g < w.next, v.streams g = w.streams g

theorem SameBut.refl (temp : Path) (w : World) : SameBut temp w w :=
  ⟨fun _ _ => rfl, rfl, Nat.le_refl _, fun _ _ => rfl⟩

theorem SameBut.setStream (same : SameBut temp w v) (new : w.next ≤ h) (stream : Option Stream) :
    SameBut temp w (v.setStream h stream) :=
  ⟨same.entries, same.output, same.next, fun g below =>
    (streams_setStream_ne (by omega) _).trans (same.streams g below)⟩

theorem SameBut.passOn (same : SameBut temp w v) (new : w.next ≤ h) (on : stream.path = temp)
    (data : List UInt8) (written kept : Nat) :
    SameBut temp w (v.passOn h stream data written kept) := by
  subst on
  refine ⟨fun path ne => ?_, ?_, ?_, fun g below => ?_⟩
  · rw [entries_passOn_ne ne]
    exact same.entries path ne
  · rw [output_passOn]
    exact same.output
  · rw [next_passOn]
    exact same.next
  · rw [streams_passOn_ne (by omega)]
    exact same.streams g below

theorem SameBut.syncFile (same : SameBut temp w v) : SameBut temp w (v.syncFile temp) := by
  refine ⟨fun path ne => ?_, ?_, ?_, fun g below => ?_⟩
  · rw [entries_syncFile_ne ne]
    exact same.entries path ne
  · rw [output_syncFile]
    exact same.output
  · rw [next_syncFile]
    exact same.next
  · rw [streams_syncFile]
    exact same.streams g below

theorem SameBut.rebind (same : SameBut temp w v) (now : Option File) :
    SameBut temp w (v.rebind temp now) :=
  ⟨fun path ne => (entries_rebind_ne ne _).trans (same.entries path ne), same.output, same.next,
    same.streams⟩

theorem SameBut.opened (same : SameBut temp w v) (path : Path) : SameBut temp w (v.opened path) :=
  ⟨same.entries, same.output, Nat.le_succ_of_le same.next, fun g below =>
    (streams_opened_ne (Nat.ne_of_lt (Nat.lt_of_lt_of_le below same.next)) _).trans
      (same.streams g below)⟩

theorem SameBut.same_file (same : SameBut temp w v) (ne : path ≠ temp) :
    v.file path = w.file path :=
  congrArg Entry.now (same.entries path ne)

/-! ## Writing -/

/-- Fields are buffered one after the other; a failing write passes on and keeps some of
what is buffered then. -/
theorem wp_writeFields {fields : List Bytes} {next : Bool → Prog α}
    (opened : w.streams h = some stream)
    (holds : ∀ n, inv
      (w.setStream h (some { stream with pending := (stream.pending ++ fields.flatten).take n })))
    (ok : wp (Steps faults) inv (next true) post
      (w.setStream h (some { stream with pending := stream.pending ++ fields.flatten })))
    (failed : faults.calls = true → ∀ n written kept, wp (Steps faults) inv (next false) post
      (w.passOn h stream ((stream.pending ++ fields.flatten).take n) written kept)) :
    wp (Steps faults) inv (writeFields h fields >>= next) post w := by
  induction fields generalizing stream w with
  | nil =>
    have same : w.setStream h (some { stream with pending := stream.pending ++ [].flatten }) = w :=
      setStream_self (by simpa using opened)
    rw [same] at ok
    exact ok
  | cons field fields ih =>
    have here : inv w := by
      have at_start := holds stream.pending.length
      rwa [List.take_left', setStream_self opened] at at_start
      rfl
    rw [List.flatten_cons, ← List.append_assoc] at holds ok failed
    unfold writeFields
    rw [Program.bind_assoc]
    refine wp_fwrite opened here ?_ fun calls error written kept => ?_
    · refine ih (streams_setStream ..) (fun n => ?_) ?_ fun calls n written kept => ?_
      · rw [setStream_setStream]
        exact holds n
      · rwa [setStream_setStream]
      · rw [passOn_setStream]
        exact failed calls n written kept
    · have stopped := failed calls (stream.pending ++ field).length written kept
      rwa [List.take_left'] at stopped
      rfl

/-- Flushing, then syncing. -/
theorem wp_utilFlushAndSync {next : Bool → Prog α} (opened : w.streams h = some stream)
    (holds : inv w)
    (passing : inv (w.passOn h stream stream.pending stream.pending.length 0))
    (ok : Roomy stream.position stream.pending → wp (Steps faults) inv (next true) post
      ((w.passOn h stream stream.pending stream.pending.length 0).syncFile stream.path))
    (unflushed : faults.calls = true ∨ ¬ Roomy stream.position stream.pending → ∀ written kept,
      wp (Steps faults) inv (next false) post (w.passOn h stream stream.pending written kept))
    (unsynced : faults.calls = true → wp (Steps faults) inv (next false) post
      (w.passOn h stream stream.pending stream.pending.length 0)) :
    wp (Steps faults) inv (utilFlushAndSync h >>= next) post w := by
  unfold utilFlushAndSync
  rw [Program.bind_assoc]
  refine wp_fflush opened holds (fun room => ?_) fun why error written kept =>
    unflushed why written kept
  have same : (w.passOn h stream stream.pending stream.pending.length 0).streams h =
      some { stream with position := stream.position + stream.pending.length, pending := [] } := by
    simp [World.passOn]
  dsimp only
  rw [Program.bind_assoc]
  exact wp_fsync same passing (ok room) fun calls error => unsynced calls

/-! ## The directory -/

theorem parentDirectory_here (noSlash : 47 ∉ path) : parentDirectory path = some (str ".") := by
  simp [parentDirectory, lastSlash, noSlash]

/-- Syncing the directory of a path. A sync that is not supported counts as done. -/
theorem wp_syncNamedDirectory {next : Bool → Prog α} {directory : Path}
    (named : parentDirectory path = some directory) (holds : inv w)
    (synced : wp (Steps faults) inv (next true) post w.syncDirectory)
    (ignored : faults.calls = true → faults.unsupported = true →
      wp (Steps faults) inv (next true) post w)
    (failed : faults.calls = true → wp (Steps faults) inv (next false) post w)
    (unclosed : faults.calls = true → wp (Steps faults) inv (next false) post w.syncDirectory) :
    wp (Steps faults) inv (utilSyncParentDirectory path >>= next) post w := by
  unfold utilSyncParentDirectory
  rw [named]
  dsimp only
  rw [Program.bind_assoc]
  refine wp_openDirectory holds ?_ fun calls error => failed calls
  dsimp only
  rw [Program.bind_assoc]
  refine wp_fsyncDirectory holds ?_ fun calls error supported => ?_
  · rw [Program.bind_assoc]
    exact wp_closeDirectory (wp_start synced) synced fun calls error => unclosed calls
  · rw [Program.bind_assoc]
    by_cases ignorable : error = .einval ∨ error = .enotsup
    · have done : (error == .einval || error == .enotsup) = true := by
        rcases ignorable with rfl | rfl <;> rfl
      have passed := ignored calls (supported ignorable)
      refine wp_closeDirectory holds ?_ fun _ closing => ?_
      · dsimp only
        rw [done]
        exact passed
      · dsimp only
        rw [done]
        exact passed
    · have not_done : (error == .einval || error == .enotsup) = false := by
        cases error <;> first | rfl | exact absurd (by decide) ignorable
      refine wp_closeDirectory holds ?_ fun _ closing => ?_
      · dsimp only
        rw [not_done]
        exact failed calls
      · dsimp only
        rw [not_done]
        exact failed calls

/-- A path without a directory names one in the current directory. -/
theorem wp_utilSyncParentDirectory {next : Bool → Prog α} (noSlash : 47 ∉ path) (holds : inv w)
    (synced : wp (Steps faults) inv (next true) post w.syncDirectory)
    (ignored : faults.calls = true → faults.unsupported = true →
      wp (Steps faults) inv (next true) post w)
    (failed : faults.calls = true → wp (Steps faults) inv (next false) post w)
    (unclosed : faults.calls = true → wp (Steps faults) inv (next false) post w.syncDirectory) :
    wp (Steps faults) inv (utilSyncParentDirectory path >>= next) post w :=
  wp_syncNamedDirectory (parentDirectory_here noSlash) holds synced ignored failed unclosed

/-! ## Temporary files -/

/-- Some name for a temporary file beside a path is free. -/
def Spare (path : Path) (w : World) : Prop :=
  ∃ suffix, isPortableSuffix suffix = true ∧ w.file (path ++ str ".tmp." ++ suffix) = none

/-- A temporary file beside a path: its descriptor, its name, and an empty file. -/
theorem wp_utilSecureTempFile {size : Nat} {next : Except Errno (Nat × Path) → Prog α}
    (room : path.length + 12 ≤ size)
    (holds : ∀ suffix v, isPortableSuffix suffix = true →
      SameBut (path ++ str ".tmp." ++ suffix) w v → inv v)
    (possible : faults.calls = true ∨ Spare path w)
    (made : ∀ suffix, isPortableSuffix suffix = true →
      w.file (path ++ str ".tmp." ++ suffix) = none →
      wp (Steps faults) inv (next (.ok (w.next, path ++ str ".tmp." ++ suffix))) post
        ((w.rebind (path ++ str ".tmp." ++ suffix) (some emptyFile)).opened
          (path ++ str ".tmp." ++ suffix)))
    (failed : faults.calls = true → ∀ errno suffix v, isPortableSuffix suffix = true →
      SameBut (path ++ str ".tmp." ++ suffix) w v → wp (Steps faults) inv
      (next (.error errno)) post v) :
    wp (Steps faults) inv (utilSecureTempFile path size >>= next) post w := by
  have length : tempSuffix.length = 11 := rfl
  have template : (path ++ tempSuffix).take ((path ++ tempSuffix).length - 6) =
      path ++ str ".tmp." := by
    rw [List.length_append, length, show tempSuffix = str ".tmp." ++ str "XXXXXX" from rfl,
      ← List.append_assoc,
      List.take_left']
    rw [List.length_append]
    rfl
  have portable : isPortableSuffix (str "XXXXXX") = true := by decide
  unfold utilSecureTempFile
  rw [if_neg (by omega), if_neg (by omega), Program.bind_assoc]
  refine wp_mkstemp (holds _ w portable (SameBut.refl _ w)) ?_ (fun suffix good fresh => ?_)
    fun calls error => ?_
  · rwa [template]
  · rw [template] at fresh ⊢
    have here := ((SameBut.refl (path ++ str ".tmp." ++ suffix) w).rebind (some emptyFile)).opened
      (path ++ str ".tmp." ++ suffix)
    dsimp only
    rw [Program.bind_assoc]
    refine wp_fchmod (holds _ _ good here) (made suffix good fresh) fun calls error => ?_
    have closed := here.setStream (Nat.le_refl _) none
    dsimp only
    rw [Program.bind_assoc]
    have unlinking : wp (Steps faults) inv
        ((unlink (path ++ str ".tmp." ++ suffix) >>= fun _ => Pure.pure (Except.error error)) >>=
          next) post
        (((w.rebind (path ++ str ".tmp." ++ suffix) (some emptyFile)).opened
          (path ++ str ".tmp." ++ suffix)).setStream w.next none) := by
      rw [Program.bind_assoc]
      exact wp_unlink (holds _ _ good closed)
        (fun _ => failed calls error _ _ good (closed.rebind none))
        (fun _ => failed calls error _ _ good closed) fun _ _ => failed calls error _ _ good closed
    exact wp_close (holds _ _ good here) unlinking fun _ _ => unlinking
  · exact failed calls error _ w portable (SameBut.refl _ w)

/-! ## Writing through one handle -/

section Writes

variable {crashes : Bool} {shapes : Shape → Prop} {position : Nat} {pending : Bytes}

private theorem file_passOn (found : v.file path = some file) (room : Roomy position pending) :
    ∃ after, (v.passOn h { path, position, pending } pending pending.length 0).file path =
      some after ∧
      after.bytes = patch file.bytes position pending := by
  obtain ⟨after, here, bytes⟩ := file_write_roomy found room
  refine ⟨after, ?_, bytes⟩
  unfold World.passOn
  rw [List.take_length]
  exact here

private theorem streams_passOn (v : World) (h : Nat) (stream : Stream) :
    (v.passOn h stream stream.pending stream.pending.length 0).streams h =
      some { stream with position := stream.position + stream.pending.length, pending := [] } := by
  simp [World.passOn]

/-- `util_flush_and_sync` on a stream: what was buffered is durable, or the call failed in
writes that agree with the shapes. -/
theorem Writes.wp_flushAndSync {next : Bool → Prog α} (writes : Writes crashes shapes path h w v)
    (opened : v.streams h = some { path, position, pending }) (found : v.file path = some file)
    (holds : ∀ x, Writes crashes shapes path h w x → inv x)
    (ok : ∀ x after, Writes crashes shapes path h w x →
      x.streams h = some { path, position := position + pending.length, pending := [] } →
      x.file path = some after → after.older = [] →
        after.bytes = patch file.bytes position pending →
      wp (Steps faults) inv (next true) post x)
    (failed : faults.calls = true ∨ ¬ Roomy position pending →
      ∀ x, Writes crashes shapes path h w x →
      wp (Steps faults) inv (next false) post x) :
    wp (Steps faults) inv (utilFlushAndSync h >>= next) post v := by
  have agrees : ∀ shape, shapes shape → shape.Agrees position pending := by
    obtain ⟨_, _, same, agrees⟩ := writes.stream
    rw [opened] at same
    cases same
    exact agrees
  have passed := fun written kept => writes.passOn ⟨path, position, pending⟩ rfl agrees written kept
  refine wp_utilFlushAndSync opened (holds _ writes) (holds _ (passed _ _)) (fun room => ?_)
    (fun why written kept => failed why _ (passed _ _)) fun calls =>
      failed (.inl calls) _ (passed _ _)
  obtain ⟨after, here, bytes⟩ := file_passOn found room
  refine ok _ { after with older := [] } (passed _ _).syncFile ?_ (file_syncFile here) rfl bytes
  rw [streams_syncFile]
  exact streams_passOn v h ⟨path, position, pending⟩

/-- A header is written field by field; whatever was written agrees with the shapes. -/
theorem Writes.wp_fields {fields : List Bytes} {next : Bool → Prog α}
    (writes : Writes crashes shapes path h w v)
    (opened : v.streams h = some { path, position, pending })
    (agrees : ∀ shape, shapes shape → shape.Agrees position (pending ++ fields.flatten))
    (holds : ∀ x, Writes crashes shapes path h w x → inv x)
    (ok : ∀ x, Writes crashes shapes path h w x →
      x.streams h = some { path, position, pending := pending ++ fields.flatten } →
        x.entries = v.entries →
      wp (Steps faults) inv (next true) post x)
    (failed : faults.calls = true → ∀ x, Writes crashes shapes path h w x →
      wp (Steps faults) inv (next false) post x) :
    wp (Steps faults) inv (writeFields h fields >>= next) post v :=
  wp_writeFields opened
    (fun n => holds _ (writes.setStream _ _ fun shape among => (agrees shape among).take n))
    (ok _ (writes.setStream _ _ agrees) (streams_setStream ..) rfl)
    fun calls n written kept => failed calls _
      (writes.passOn _ rfl (fun shape among => (agrees shape among).take n) written kept)

private theorem headerFields_flatten (rowCount : UInt64) :
    (headerFields rowCount).flatten = headerBytes rowCount := by
  simp [headerFields, headerBytes]

private theorem length_headerFields (rowCount : UInt64) :
    (headerFields rowCount).flatten.length = 64 := by
  simp [headerFields]

/-- Writing a header through a handle that buffers nothing. -/
theorem Writes.wp_header {rowCount : UInt64} {next : Except TableStatus Unit → Prog α}
    (writes : Writes crashes shapes path h w v)
    (opened : v.streams h = some { path, position, pending := [] })
    (found : v.file path = some file)
    (agrees : ∀ shape, shapes shape → shape.Agrees 0 (headerBytes rowCount))
    (holds : ∀ x, Writes crashes shapes path h w x → inv x)
    (ok : ∀ x after, Writes crashes shapes path h w x →
      x.streams h = some { path, position := 64, pending := [] } → x.file path = some after →
      after.bytes = patch file.bytes 0 (headerBytes rowCount) → wp (Steps faults) inv
      (next (.ok ())) post x)
    (failed : faults.calls = true → ∀ x, Writes crashes shapes path h w x →
      wp (Steps faults) inv (next (.error .ioError)) post x) :
    wp (Steps faults) inv (writeHeader h rowCount >>= next) post v := by
  have flattened := headerFields_flatten rowCount
  have size : (headerBytes rowCount).length = 64 := by rw [← flattened, length_headerFields]
  have nothing : ∀ position, ∀ shape, shapes shape → shape.Agrees position [] :=
    fun _ _ _ => Shape.agrees_nil
  have room : Roomy position [] := .inl rfl
  unfold writeHeader
  rw [Program.bind_assoc]
  refine wp_fseek opened (holds _ writes) (fun _ => ?_) fun why error written kept => ?_
  · rw [passOn_nil, setStream_setStream]
    dsimp only
    rw [Program.bind_assoc]
    refine Writes.wp_fields (writes.setStream 0 [] (nothing 0)) (streams_setStream ..)
      (by simpa [flattened] using agrees) holds (fun x writes buffered same => ?_)
        fun calls x writes =>
        failed calls x writes
    rw [List.nil_append, flattened] at buffered
    have here : x.file path = some file := (file_congr same path).trans found
    have passed := fun written kept =>
        writes.passOn ⟨path, 0, headerBytes rowCount⟩ rfl agrees written kept
    have full : Roomy 0 (headerBytes rowCount) := .inr (by rw [size]; decide)
    simp only [Bool.not_true, Bool.false_eq_true, ↓reduceIte]
    rw [Program.bind_assoc]
    refine wp_fflush buffered (holds _ writes) (fun _ => ?_) fun why error written kept => ?_
    · obtain ⟨after, there, bytes⟩ := file_passOn here full
      refine ok _ after (passed _ _) ?_ there bytes
      have moved := streams_passOn x h ⟨path, 0, headerBytes rowCount⟩
      rwa [size, Nat.zero_add] at moved
    · exact failed (why.resolve_right (not_not_intro full)) _ (passed _ _)
  · exact failed (why.resolve_right (not_not_intro room)) _ (writes.passOn _ rfl (nothing _) _ _)

end Writes

/-! ## A file on the side -/

/-- Since a temporary file was made nothing but it was written, through its own handle. -/
abbrev WritesAside (temp : Path) (w : World) : World → Prop :=
  Writes false (fun _ => False) temp w.next ((w.rebind temp (some emptyFile)).opened temp)

/-- Writing a temporary file starts with an empty one that was opened. -/
theorem writesAside_start (temp : Path) (w : World) :
    WritesAside temp w ((w.rebind temp (some emptyFile)).opened temp) := by
  have found : ((w.rebind temp (some emptyFile)).opened temp).file temp = some emptyFile :=
    file_rebind ..
  exact .start (Option.isSome_iff_exists.mpr ⟨_, found⟩) (streams_setStream ..) fun _ => False.elim

theorem sameBut_aside {x : World} (writes : WritesAside temp w x) : SameBut temp w x := by
  have same := ((SameBut.refl temp w).rebind (some emptyFile)).opened temp
  exact ⟨fun other ne => (writes.entries other ne).trans (same.entries other ne),
    writes.output.trans same.output,
    writes.next ▸ same.next, fun g below =>
      (writes.streams g (by omega)).trans (same.streams g below)⟩

section GivenUp

variable {result : α} (holds : ∀ v, SameBut temp w v → inv v)
    (done : ∀ v, SameBut temp w v → post result v)

include holds done

/-- A temporary file whose handle is gone is given up. -/
theorem wp_unlink_aside (same : SameBut temp w v) :
    wp (Steps faults) inv (unlink temp >>= fun _ => Pure.pure result) post v := by
  have unlinked := same.rebind none
  exact wp_unlink (holds v same) (fun _ => ⟨holds _ unlinked, done _ unlinked⟩)
    (fun _ => ⟨holds _ same, done _ same⟩) fun _ _ => ⟨holds _ same, done _ same⟩

/-- A temporary file is given up. -/
theorem wp_discard_aside {x : World} (writes : WritesAside temp w x) :
    wp (Steps faults) inv (discard w.next temp >>= fun _ => Pure.pure result) post x := by
  obtain ⟨position, pending, stream, _⟩ := writes.stream
  have same := sameBut_aside writes
  have closed : ∀ written kept, SameBut temp w
      ((x.passOn w.next { path := temp, position, pending } pending written kept).setStream
        w.next none) :=
    fun written kept => (same.passOn (Nat.le_refl _) rfl _ _ _).setStream (Nat.le_refl _) none
  unfold discard
  rw [Program.bind_assoc]
  refine wp_fclose stream (holds _ same) (fun _ => ?_) fun _ _ written kept => ?_
  · rw [Program.bind_assoc]
    exact wp_unlink_aside holds done (closed _ _)
  · rw [Program.bind_assoc]
    exact wp_unlink_aside holds done (closed written kept)

end GivenUp

end SqlEngine
