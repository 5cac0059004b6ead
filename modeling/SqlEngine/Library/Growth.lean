import SqlEngine.Library.Contents

/-! Calls that never shorten a file: all but those that truncate, create or remove one. -/
namespace SqlEngine.Library

open World

/-- A call leaves every name in place and no file shorter. -/
def Call.Grows : Call → Prop
  | .openFile _ create => create = false
  | .mkstemp _ | .ftruncate _ _ | .unlink _ | .rename _ _ => False
  | _ => True

variable {faults : Faults} {crashes : Bool} {P : List UInt8 → Prop} {w v : World} {path : Path}
    {call : Call} {choice : Choice}
  {stream : Stream} {handle : Nat} {data : List UInt8} {written kept : Nat}

/-- The files are as they were, or one of them was written or synced. -/
inductive Rewritten (w v : World) : Prop where
  | same (files : v.file = w.file)
  | written (path : Path) (offset : Nat) (data : List UInt8)
      (files : v.file = (w.write path offset data).file)
  | synced (path : Path) (files : v.file = (w.syncFile path).file)

private theorem rewritten_passOn : Rewritten w (w.passOn handle stream data written kept) :=
  .written stream.path stream.position (data.take written) rfl

private theorem rewritten_onStream {α : Type} {bad : α} {act : Stream → α × World}
    (each : ∀ stream, Rewritten w (act stream).2) :
    Rewritten w (onStream w handle bad act).2 := by
  unfold onStream
  split
  · exact .same rfl
  · exact each _

private theorem rewritten_setStream {v : World} (rewritten : Rewritten w v)
    (noted : Option Stream) :
    Rewritten w (v.setStream handle noted) := by
  cases rewritten with
  | same files => exact .same files
  | written path offset data files => exact .written path offset data files
  | synced path files => exact .synced path files

private theorem rewritten_flush : Rewritten w (w.flush handle stream).2 := by
  unfold World.flush
  split
  · exact rewritten_passOn
  · exact .same rfl

private theorem rewritten_ite {α : Type} {condition : Prop} [Decidable condition]
    {one other : α × World} (first : Rewritten w one.2) (second : Rewritten w other.2) :
    Rewritten w (if condition then one else other).2 := by
  split
  · exact first
  · exact second

private theorem rewritten_read {α : Type} {bad : α} {next : File → α × World}
    (each : ∀ file, (next file).2.file = w.file) :
    Rewritten w (match w.file path with
      | none => (bad, w)
      | some file => next file).2 := by
  split
  · exact .same rfl
  · exact .same (each _)

private theorem rewritten_succeed (grows : call.Grows) : Rewritten w (succeed w choice call).2 := by
  cases call with
  | openFile path create =>
    obtain rfl : create = false := grows
    exact rewritten_ite (.same rfl) (.same rfl)
  | mkstemp | ftruncate | unlink | rename => exact grows.elim
  | fopen path => exact rewritten_ite (.same rfl) (.same rfl)
  | read => exact rewritten_onStream fun _ => rewritten_read fun _ => rfl
  | fread => exact rewritten_onStream fun _ => rewritten_read fun _ => rfl
  | fseek handle target =>
    refine rewritten_onStream fun stream => ?_
    have flushed : Rewritten w (w.flush handle stream).2 := rewritten_flush
    cases sought : w.flush handle stream with
    | mk answer v =>
      rw [sought] at flushed
      rcases answer with error | _
      · exact flushed
      · dsimp only
        split
        · exact rewritten_setStream flushed _
        · exact rewritten_setStream flushed _
        · exact flushed
  | ftell => exact rewritten_onStream fun _ => rewritten_ite (.same rfl) (.same rfl)
  | fwrite => exact rewritten_onStream fun _ => .same rfl
  | fflush => exact rewritten_onStream fun _ => rewritten_flush
  | fsync => exact rewritten_onStream fun stream => .synced stream.path rfl
  | fclose => exact rewritten_onStream fun _ => rewritten_setStream rewritten_flush _
  | fsyncDirectory => exact .same rfl
  | _ => exact .same rfl

private theorem rewritten_fail (grows : call.Grows) (error : Errno) :
    Rewritten w (fail w choice error call).2 := by
  cases call with
  | mkstemp | ftruncate | unlink | rename => exact grows.elim
  | fseek | fflush | fwrite => exact rewritten_onStream fun _ => rewritten_passOn
  | fread => exact rewritten_onStream fun _ => rewritten_read fun _ => rfl
  | fclose => exact rewritten_onStream fun _ => rewritten_setStream rewritten_passOn _
  | _ => exact .same rfl

/-- A call that grows files only writes or syncs one. -/
theorem Call.Grows.rewrites {answer : Answer call} (grows : call.Grows)
    (did : Steps faults call w answer v) :
    Rewritten w v := by
  obtain ⟨choice, _, acted⟩ := did
  obtain rfl : (act w choice call).2 = v := congrArg Prod.snd acted
  unfold act
  split
  · exact rewritten_succeed grows
  · exact rewritten_fail grows _

private theorem isSome_syncFile (there : (w.file path).isSome = true) (other : Path) :
    ((w.syncFile other).file path).isSome = true := by
  by_cases same : path = other
  · obtain ⟨file, found⟩ := Option.isSome_iff_exists.mp there
    rw [← same, file_syncFile found]
    rfl
  · rw [World.file, entries_syncFile_ne same]
    exact there

private theorem isSome_write (there : (w.file path).isSome = true) (other : Path) (offset : Nat) :
    ((w.write other offset data).file path).isSome = true := by
  by_cases same : path = other
  · obtain ⟨file, found⟩ := Option.isSome_iff_exists.mp there
    obtain ⟨after, here, _⟩ := file_write false found offset data
    rw [← same, here]
    rfl
  · rw [World.file, entries_write_ne same]
    exact there

/-- A file that is there has some property in each of its contents. -/
def ThereThroughout (crashes : Bool) (P : List UInt8 → Prop) (path : Path) (w : World) : Prop :=
  (w.file path).isSome = true ∧ Throughout crashes P w path

/-- What no write spoils, no call that grows files does. -/
theorem Call.Grows.keeps {answer : Answer call} (grows : call.Grows)
    (did : Steps faults call w answer v)
    (closed : ∀ bytes offset data, P bytes → P (patch bytes offset data))
    (holds : ThereThroughout crashes P path w) :
    ThereThroughout crashes P path v := by
  obtain ⟨there, all⟩ := holds
  cases grows.rewrites did with
  | same files => exact ⟨files ▸ there, all.congr (congrFun files path)⟩
  | written other offset data files =>
    refine ⟨files ▸ isSome_write there other offset, ?_⟩
    refine Throughout.congr ?_ (congrFun files path)
    by_cases same : path = other
    · subst same
      exact all.write fun bytes holds => closed bytes offset data holds
    · exact all.congr (congrArg Entry.now (entries_write_ne same ..))
  | synced other files =>
    refine ⟨files ▸ isSome_syncFile there other, ?_⟩
    refine Throughout.congr ?_ (congrFun files path)
    by_cases same : path = other
    · subst same
      exact all.syncFile
    · exact all.congr (congrArg Entry.now (entries_syncFile_ne same))

/-- No write makes a content shorter. -/
theorem patch_grows {length : Nat} (bytes : List UInt8) (offset : Nat) (data : List UInt8)
    (long : length ≤ bytes.length) :
    length ≤ (patch bytes offset data).length := by
  by_cases empty : data = []
  · rwa [empty, patch_nil]
  · rw [length_patch empty]
    omega

end SqlEngine.Library
