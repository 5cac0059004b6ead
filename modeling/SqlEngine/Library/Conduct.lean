import SqlEngine.Library.Contents
import SqlEngine.Library.Monitor

/-! How a program uses files: a monitor for the calls that knows what is open.

A descriptor comes from `open` or `mkstemp` and a stream from `fopen`, or from `fdopen` on a
descriptor; each is closed once, by the call for its kind, and used only before. A policy
says which names and which bytes of output are allowed. A program that was verified against
the monitor touches nothing else in any directory, whichever of its calls fail. -/
namespace SqlEngine.Library

open Program World

/-- What a number stands for that was opened and not closed. -/
inductive HandleKind where
  | descriptor
  | stream
  deriving DecidableEq

/-- What a program has open. -/
structure Conduct where
  handles : Nat → Option HandleKind
  directory : Bool

namespace Conduct

/-- Nothing is open. -/
def idle : Conduct := { handles := fun _ => none, directory := false }

def note (s : Conduct) (handle : Nat) (kind : Option HandleKind) : Conduct :=
  { s with handles := fun h => if h = handle then kind else s.handles h }

@[simp] theorem handles_note (s : Conduct) (handle : Nat) (kind : Option HandleKind) :
    (s.note handle kind).handles handle = kind := if_pos rfl

theorem handles_note_ne {h handle : Nat} (ne : h ≠ handle) (s : Conduct)
    (kind : Option HandleKind) :
    (s.note handle kind).handles h = s.handles h := if_neg ne

/-- What is open behind a call. Closing a handle gives it up whatever the call answers. -/
def after (s : Conduct) : (c : Call) → Answer c → Conduct
  | .openFile _ _, .ok handle => s.note handle (some .descriptor)
  | .mkstemp _, .ok (handle, _) => s.note handle (some .descriptor)
  | .fopen _, .ok handle => s.note handle (some .stream)
  | .fdopen handle, .ok () => s.note handle (some .stream)
  | .close handle, _ => s.note handle none
  | .fclose handle, _ => s.note handle none
  | .openDirectory _, .ok () => { s with directory := true }
  | .closeDirectory, _ => { s with directory := false }
  | _, _ => s

/-- What a call may answer: a new handle is not one that is open, and a temporary file is
named after its template. -/
def Possible (s : Conduct) : (c : Call) → Answer c → Prop
  | .openFile _ _, .ok handle => s.handles handle = none
  | .fopen _, .ok handle => s.handles handle = none
  | .mkstemp template, .ok (handle, path) => s.handles handle = none ∧
      ∃ suffix, isPortableSuffix suffix = true ∧
        path = template.take (template.length - 6) ++ suffix
  | _, _ => True

theorem exists_possible (s : Conduct) (c : Call) : ∃ answer, s.Possible c answer := by
  cases c with
  | openFile | fopen | mkstemp | ftell | read => exact ⟨.error .eio, trivial⟩
  | fread => exact ⟨[], trivial⟩
  | allocate => exact ⟨false, trivial⟩
  | print => exact ⟨(), trivial⟩
  | _ => exact ⟨.error .eio, trivial⟩

end Conduct

/-- The names and the bytes of output that a program may use. -/
structure Policy where
  path : Path → Prop
  directory : Path → Prop
  byte : UInt8 → Prop

namespace Policy

variable (policy : Policy)

/-- A call is allowed where it is made. -/
def Permits (s : Conduct) : Call → Prop
  | .access path | .openFile path _ | .fopen path | .unlink path => policy.path path
  | .mkstemp template => ∀ suffix, isPortableSuffix suffix = true →
      policy.path (template.take (template.length - 6) ++ suffix)
  | .rename source target => policy.path source ∧ policy.path target
  | .fchmod handle | .fdopen handle | .close handle | .read handle _ =>
    s.handles handle = some .descriptor
  | .fseek handle _ | .ftell handle | .fread handle _ | .fwrite handle _ | .fflush handle |
      .fsync handle
  | .ftruncate handle _ | .fclose handle => s.handles handle = some .stream
  | .openDirectory path => policy.directory path ∧ s.directory = false
  | .fsyncDirectory | .closeDirectory => s.directory = true
  | .allocate => True
  | .print data => ∀ c ∈ data, policy.byte c

/-- The monitor. -/
def watch : Step Call Answer Conduct := fun c s answer next =>
  policy.Permits s c ∧ s.Possible c answer ∧ next = s.after c answer

/-- What is known of a directory while a program keeps to the policy: the files of other
names and the handles of others are as they were at first, and a handle that the program
opened and does not have any more is closed. -/
structure Sees (base : World) (s : Conduct) (w : World) : Prop where
  next : base.next ≤ w.next
  handles : ∀ h kind, s.handles h = some kind → base.next ≤ h ∧ h < w.next ∧
    ∀ stream, w.streams h = some stream → policy.path stream.path
  closed : ∀ h, base.next ≤ h → h < w.next → s.handles h = none → w.streams h = none
  entries : ∀ path, ¬ policy.path path → Kept (base.entries path) (w.entries path)
  streams : ∀ h < base.next, w.streams h = base.streams h
  output : ∃ text, w.output = base.output ++ text ∧ ∀ c ∈ text, policy.byte c

end Policy

variable {policy : Policy} {base w v : World} {s : Conduct} {path : Path} {handle : Nat}
    {kind : HandleKind} {faults : Faults}

namespace Policy.Sees

/-- Before its first call a run has no handle, and every file is as it was. -/
theorem start (w : World) : policy.Sees w .idle w :=
  ⟨Nat.le_refl _, nofun, fun _ new below => absurd below (Nat.not_lt_of_le new),
    fun _ _ => Kept.refl _, fun _ _ => rfl, [], (List.append_nil _).symm, fun _ among =>
      absurd among List.not_mem_nil⟩

private theorem forget (sees : policy.Sees base s w) (gone : w.streams handle = none) :
    policy.Sees base (s.note handle none) w where
  next := sees.next
  handles h kind noted := by
    by_cases same : h = handle
    · rw [same, Conduct.handles_note] at noted
      cases noted
    · exact sees.handles h kind ((Conduct.handles_note_ne same ..).symm.trans noted)
  closed h new below noted := by
    by_cases same : h = handle
    · exact same ▸ gone
    · exact sees.closed h new below ((Conduct.handles_note_ne same ..).symm.trans noted)
  entries := sees.entries
  streams := sees.streams
  output := sees.output

private theorem turn {other : HandleKind} (sees : policy.Sees base s w)
    (opened : s.handles handle = some kind) :
    policy.Sees base (s.note handle (some other)) w where
  next := sees.next
  handles h kind' noted := by
    by_cases same : h = handle
    · exact sees.handles h kind (same ▸ opened)
    · exact sees.handles h kind' ((Conduct.handles_note_ne same ..).symm.trans noted)
  closed h new below noted := by
    by_cases same : h = handle
    · rw [same, Conduct.handles_note] at noted
      cases noted
    · exact sees.closed h new below ((Conduct.handles_note_ne same ..).symm.trans noted)
  entries := sees.entries
  streams := sees.streams
  output := sees.output

private theorem touched (sees : policy.Sees base s w) (allowed : policy.path path)
    (entries : ∀ other, other ≠ path → v.entries other = w.entries other)
    (streams : v.streams = w.streams) (next : v.next = w.next) (output : v.output = w.output) :
    policy.Sees base s v where
  next := next ▸ sees.next
  handles := streams ▸ next ▸ sees.handles
  closed := streams ▸ next ▸ sees.closed
  entries other off := (entries other fun same => off (same ▸ allowed)) ▸ sees.entries other off
  streams := streams ▸ sees.streams
  output := output ▸ sees.output

private theorem write (sees : policy.Sees base s w) (allowed : policy.path path) (offset : Nat)
    (data : List UInt8) :
    policy.Sees base s (w.write path offset data) :=
  sees.touched allowed (fun _ ne => entries_write_ne ne offset data) (streams_write ..)
    (next_write ..) (output_write ..)

private theorem rebind (sees : policy.Sees base s w) (allowed : policy.path path)
    (now : Option File) :
    policy.Sees base s (w.rebind path now) :=
  sees.touched allowed (fun _ ne => entries_rebind_ne ne now) rfl rfl rfl

private theorem syncFile (sees : policy.Sees base s w) (allowed : policy.path path) :
    policy.Sees base s (w.syncFile path) :=
  sees.touched allowed (fun _ ne => entries_syncFile_ne ne) (streams_syncFile ..) (next_syncFile ..)
    (output_syncFile ..)

private theorem setStream (sees : policy.Sees base s w) (opened : s.handles handle = some kind)
    {noted : Option Stream} (allowed : ∀ stream, noted = some stream → policy.path stream.path) :
    policy.Sees base s (w.setStream handle noted) where
  next := sees.next
  handles h other open' := by
    obtain ⟨new, below, on⟩ := sees.handles h other open'
    refine ⟨new, below, fun stream => ?_⟩
    by_cases same : h = handle
    · rw [same, streams_setStream]
      exact allowed stream
    · rw [streams_setStream_ne same]
      exact on stream
  closed h new below noted := by
    have different : h ≠ handle := by
      rintro rfl
      rw [opened] at noted
      cases noted
    rw [streams_setStream_ne different]
    exact sees.closed h new below noted
  entries := sees.entries
  streams h old := by
    obtain ⟨new, _, _⟩ := sees.handles handle kind opened
    rw [streams_setStream_ne (by omega)]
    exact sees.streams h old
  output := sees.output

private theorem shut (sees : policy.Sees base s w) (opened : s.handles handle = some kind) :
    policy.Sees base (s.note handle none) (w.setStream handle none) :=
  (sees.setStream opened fun _ closed => by cases closed).forget (streams_setStream ..)

private theorem passOn {stream : Stream} (sees : policy.Sees base s w)
    (opened : s.handles handle = some kind) (allowed : policy.path stream.path) (data : List UInt8)
    (written kept : Nat) :
    policy.Sees base s (w.passOn handle stream data written kept) := by
  refine (sees.write allowed stream.position (data.take written)).setStream opened ?_
  rintro _ ⟨⟩
  exact allowed

private theorem flush {stream : Stream} (sees : policy.Sees base s w)
    (opened : s.handles handle = some kind) (allowed : policy.path stream.path) :
    policy.Sees base s (w.flush handle stream).2 := by
  unfold World.flush
  split
  · exact sees.passOn opened allowed _ _ _
  · exact sees

private theorem newHandle (sees : policy.Sees base s w) (allowed : policy.path path) :
    policy.Sees base (s.note w.next (some kind)) (w.opened path) where
  next := Nat.le_succ_of_le sees.next
  handles h kind' noted := by
    by_cases same : h = w.next
    · subst same
      refine ⟨sees.next, Nat.lt_succ_self _, fun stream there => ?_⟩
      rw [World.opened, streams_setStream, Option.some.injEq] at there
      exact there ▸ allowed
    · obtain ⟨new, below, on⟩ :=
        sees.handles h kind' ((Conduct.handles_note_ne same ..).symm.trans noted)
      refine ⟨new, Nat.lt_succ_of_lt below, fun stream there => on stream ?_⟩
      rwa [streams_opened_ne same] at there
  closed h new below noted := by
    have different : h ≠ w.next := by
      rintro rfl
      rw [Conduct.handles_note] at noted
      cases noted
    rw [streams_opened_ne different]
    exact sees.closed h new (Nat.lt_of_le_of_ne (Nat.le_of_lt_succ below) different)
      ((Conduct.handles_note_ne different ..).symm.trans noted)
  entries := sees.entries
  streams h old := by
    rw [streams_opened_ne (by have := sees.next; omega)]
    exact sees.streams h old
  output := sees.output

private theorem fresh (sees : policy.Sees base s w) : s.handles w.next = none := by
  cases noted : s.handles w.next with
  | none => rfl
  | some kind =>
    obtain ⟨_, below, _⟩ := sees.handles _ kind noted
    exact absurd below (Nat.lt_irrefl _)

end Policy.Sees

/-- What a call comes to under the monitor. -/
private def Watched (policy : Policy) (base : World) (s : Conduct) (c : Call)
    (result : Answer c × World) : Prop :=
  s.Possible c result.1 ∧ policy.Sees base (s.after c result.1) result.2

private theorem seen_onStream {α : Type} {bad : α} {act : Stream → α × World}
    (sees : policy.Sees base s w) (opened : s.handles handle = some kind)
    (each : ∀ stream, policy.path stream.path → policy.Sees base s (act stream).2) :
    policy.Sees base s (onStream w handle bad act).2 := by
  unfold onStream
  split
  · exact sees
  · rename_i stream there
    exact each stream ((sees.handles handle kind opened).2.2 stream there)

private theorem seen_read {α : Type} {bad : α} {next : File → α × World}
    (sees : policy.Sees base s w) (each : ∀ file, policy.Sees base s (next file).2) :
    policy.Sees base s (match w.file path with
      | none => (bad, w)
      | some file => next file).2 := by
  split
  · exact sees
  · exact each _

private theorem seen_moved {stream : Stream} (sees : policy.Sees base s w)
    (opened : s.handles handle = some kind) (allowed : policy.path stream.path) (position : Nat)
    (pending : List UInt8) :
    policy.Sees base s (w.setStream handle (some { stream with position, pending })) := by
  refine sees.setStream opened ?_
  rintro _ ⟨⟩
  exact allowed

private theorem watched_succeed {c : Call} {choice : Choice} (sees : policy.Sees base s w)
    (permits : policy.Permits s c) (allowed : Allowed faults w choice c)
    (chosen : choice.error = none) :
    Watched policy base s c (succeed w choice c) := by
  cases c with
  | openFile path create =>
    have made : policy.Sees base s
        (w.rebind path (some { bytes := [], older := [], fits := Nat.zero_le _ })) :=
      sees.rebind permits _
    cases create with
    | true =>
      simp only [succeed, ↓reduceIte]
      split
      · exact ⟨trivial, sees⟩
      · exact ⟨sees.fresh, made.newHandle permits⟩
    | false =>
      simp only [succeed, Bool.false_eq_true, ↓reduceIte]
      split
      · exact ⟨sees.fresh, sees.newHandle permits⟩
      · exact ⟨trivial, sees⟩
  | fopen path =>
    simp only [succeed]
    split
    · exact ⟨sees.fresh, sees.newHandle permits⟩
    · exact ⟨trivial, sees⟩
  | mkstemp template =>
    unfold Allowed at allowed
    rw [chosen] at allowed
    have named := permits _ allowed.1
    exact ⟨⟨sees.fresh, _, allowed.1, rfl⟩, (sees.rebind named _).newHandle named⟩
  | fdopen handle => exact ⟨trivial, sees.turn permits⟩
  | close handle => exact ⟨trivial, sees.shut permits⟩
  | fclose handle =>
    refine ⟨trivial, ?_⟩
    change policy.Sees base (s.note handle none) (onStream w handle _ _).2
    unfold onStream
    split
    · rename_i gone
      exact sees.forget gone
    · rename_i stream there
      exact (sees.flush permits ((sees.handles handle _ permits).2.2 stream there)).shut permits
  | read handle count =>
    exact ⟨trivial, seen_onStream sees permits fun stream allowed => seen_read sees fun file =>
      seen_moved sees permits allowed _ _⟩
  | fread handle count =>
    exact ⟨trivial, seen_onStream sees permits fun stream allowed => seen_read sees fun file =>
      seen_moved sees permits allowed _ _⟩
  | fseek handle target =>
    refine ⟨trivial, seen_onStream sees permits fun stream on => ?_⟩
    have flushed := sees.flush permits on
    cases sought : w.flush handle stream with
    | mk answer v =>
      rw [sought] at flushed
      rcases answer with error | _
      · exact flushed
      · dsimp only
        split
        · exact seen_moved flushed permits on _ _
        · exact seen_moved flushed permits on _ _
        · exact flushed
  | ftell handle =>
    refine ⟨trivial, seen_onStream sees permits fun stream allowed => ?_⟩
    split <;> exact sees
  | fwrite handle data =>
    exact ⟨trivial, seen_onStream sees permits fun stream allowed =>
      seen_moved sees permits allowed _ _⟩
  | fflush handle =>
    exact ⟨trivial, seen_onStream sees permits fun stream allowed => sees.flush permits allowed⟩
  | fsync handle =>
    exact ⟨trivial, seen_onStream sees permits fun stream allowed => sees.syncFile allowed⟩
  | ftruncate handle length =>
    refine ⟨trivial, seen_onStream sees permits fun stream allowed => seen_read sees fun file => ?_⟩
    split
    · exact sees.touched allowed (fun _ ne => entries_setEntry_ne ne _) rfl rfl rfl
    · exact sees
  | unlink path =>
    refine ⟨trivial, ?_⟩
    simp only [succeed]
    split
    · exact sees.rebind permits none
    · exact sees
  | rename source target =>
    refine ⟨trivial, ?_⟩
    simp only [succeed]
    split
    · exact sees
    · split
      · exact sees
      · exact (sees.rebind permits.2 _).rebind permits.1 none
  | fsyncDirectory =>
    exact ⟨trivial, sees.next, sees.handles, sees.closed, fun path off =>
      (sees.entries path off).trans (syncDirectory_kept w path),
      sees.streams, sees.output⟩
  | print data =>
    obtain ⟨text, same, good⟩ := sees.output
    refine ⟨trivial, sees.next, sees.handles, sees.closed, sees.entries, sees.streams, text ++ data,
      ?_, fun c among => ?_⟩
    · exact (congrArg (· ++ data) same).trans (List.append_assoc ..)
    · exact (List.mem_append.mp among).elim (good c) (permits c)
  | openDirectory | closeDirectory =>
    exact ⟨trivial, sees.next, sees.handles, sees.closed, sees.entries, sees.streams, sees.output⟩
  | _ => exact ⟨trivial, sees⟩

private theorem watched_fail {c : Call} {choice : Choice} (error : Errno)
    (sees : policy.Sees base s w) (permits : policy.Permits s c) :
    Watched policy base s c (fail w choice error c) := by
  cases c with
  | fseek handle target =>
    exact ⟨trivial, seen_onStream sees permits fun stream allowed =>
      sees.passOn permits allowed _ _ _⟩
  | fflush handle =>
    exact ⟨trivial, seen_onStream sees permits fun stream allowed =>
      sees.passOn permits allowed _ _ _⟩
  | fwrite handle data =>
    exact ⟨trivial, seen_onStream sees permits fun stream allowed =>
      sees.passOn permits allowed _ _ _⟩
  | fread handle count =>
    exact ⟨trivial, seen_onStream sees permits fun stream allowed => seen_read sees fun file =>
      seen_moved sees permits allowed _ _⟩
  | close handle => exact ⟨trivial, sees.shut permits⟩
  | fclose handle =>
    refine ⟨trivial, ?_⟩
    change policy.Sees base (s.note handle none) (onStream w handle _ _).2
    unfold onStream
    split
    · rename_i gone
      exact sees.forget gone
    · rename_i stream there
      exact (sees.passOn permits
        ((sees.handles handle _ permits).2.2 stream there) _ _ _).shut permits
  | closeDirectory =>
    exact ⟨trivial, sees.next, sees.handles, sees.closed, sees.entries, sees.streams, sees.output⟩
  | _ => exact ⟨trivial, sees⟩

/-- The monitor follows the file system, whatever may fail. -/
theorem follows_watch : Follows policy.watch (Steps faults) (policy.Sees base) := by
  rintro c s w answer v sees ⟨_, _, permits, _⟩ ⟨choice, allowed, acted⟩
  obtain ⟨rfl, rfl⟩ := Prod.mk.inj acted
  have watched : Watched policy base s c (act w choice c) := by
    unfold act
    cases chosen : choice.error with
    | none => exact watched_succeed sees permits allowed chosen
    | some error => exact watched_fail error sees permits
  exact ⟨_, ⟨permits, watched.1, rfl⟩, watched.2⟩

/-! ## Verifying a program -/

section Rules

variable {α β : Type} {p : Prog α} {next : α → Prog β} {ends : α → Conduct → Prop}
    {after : β → Conduct → Prop} {c : Call}

/-- A program keeps to a policy, and leaves open what it should. -/
def Conducts (policy : Policy) (s : Conduct) (p : Prog α) (ends : α → Conduct → Prop) : Prop :=
  wp policy.watch (fun _ => True) p ends s

/-- It leaves open what was open. -/
def Stays (policy : Policy) (s : Conduct) (p : Prog α) : Prop :=
  Conducts policy s p fun _ t => t = s

theorem conducts_pure {value : α} (holds : ends value s) :
    Conducts policy s (Pure.pure value) ends := ⟨trivial, holds⟩

theorem stays_pure (value : α) : Stays policy s (Pure.pure value) := ⟨trivial, rfl⟩

/-- The sequence rule: the second part conducts itself from where the first ends. -/
theorem conducts_bind (first : Conducts policy s p ends)
    (rest : ∀ value t, ends value t → Conducts policy t (next value) after) :
    Conducts policy s (p >>= next) after :=
  wp_seq first (fun _ _ => trivial) fun value t _ => rest value t

/-- A part that leaves open what was open. -/
theorem conducts_stays (first : Stays policy s p)
    (rest : ∀ value, Conducts policy s (next value) after) :
    Conducts policy s (p >>= next) after := by
  refine conducts_bind first ?_
  rintro value _ rfl
  exact rest value

/-- Two parts that leave the handles as they are, in sequence. -/
theorem stays_bind (first : Stays policy s p) (rest : ∀ value, Stays policy s (next value)) :
    Stays policy s (p >>= next) :=
  conducts_stays first rest

theorem conducts_mono {wider : α → Conduct → Prop} (conducts : Conducts policy s p ends)
    (widen : ∀ value t, ends value t → wider value t) : Conducts policy s p wider :=
  wp_mono conducts (fun _ _ => trivial) fun value t _ => widen value t

/-- A call that is allowed. -/
theorem conducts_call {next : Answer c → Prog β} (permits : policy.Permits s c)
    (each : ∀ answer, s.Possible c answer →
      Conducts policy (s.after c answer) (next answer) after) :
    Conducts policy s (perform c >>= next) after := by
  obtain ⟨answer, possible⟩ := s.exists_possible c
  refine ⟨trivial, ⟨answer, _, permits, possible, rfl⟩, ?_⟩
  rintro answer _ ⟨_, possible, rfl⟩
  exact each answer possible

/-- A call that opens and closes nothing. -/
theorem stays_call (permits : policy.Permits s c) (quiet : ∀ answer, s.after c answer = s) :
    Stays policy s (perform c) := by
  obtain ⟨answer, possible⟩ := s.exists_possible c
  refine ⟨trivial, ⟨answer, _, permits, possible, rfl⟩, ?_⟩
  rintro answer _ ⟨_, _, rfl⟩
  exact ⟨trivial, quiet answer⟩

end Rules

end SqlEngine.Library
