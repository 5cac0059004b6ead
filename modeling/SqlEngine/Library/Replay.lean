import SqlEngine.Library.FileSystem
import SqlEngine.Library.Interleaving

/-! Runs of a program under given choices, and the crashes that lose nothing but what some
names stand for. Both are computed, so a concrete run can be followed. -/
namespace SqlEngine.Library

open Program World

/-- The choices a call has, as a test. -/
def allows (faults : Faults) (w : World) (choice : Choice) (call : Call) : Bool :=
  match choice.error with
  | none =>
    match call with
    | .mkstemp template =>
      isPortableSuffix choice.suffix &&
        (w.file (template.take (template.length - 6) ++ choice.suffix)).isNone
    | _ => true
  | some error =>
    faults.calls && error ≠ .enoent && error ≠ .eexist &&
      match call with
      | .access _ => faults.access
      | .fsyncDirectory => faults.unsupported || error ≠ .einval && error ≠ .enotsup
      | .print _ => false
      | _ => true

theorem allowed_of_allows {faults : Faults} {w : World} {choice : Choice} {call : Call}
    (passes : allows faults w choice call = true) : Allowed faults w choice call := by
  unfold allows at passes
  unfold Allowed
  cases chosen : choice.error with
  | none =>
    rw [chosen] at passes
    cases call <;> simp_all
  | some error =>
    rw [chosen] at passes
    cases call <;> (simp_all; try grind)

/-- A run under a list of choices, one for each call. A call behind the list succeeds
under the plain choice. -/
def replay (faults : Faults) : Program Call Answer α → List Choice → World → Option (α × World)
  | .pure value, _, w => some (value, w)
  | .call op next, choices, w =>
    let choice := choices.headD {}
    if allows faults w choice op then
      replay faults (next (act w choice op).1) choices.tail (act w choice op).2
    else none

private theorem replay_returns {faults : Faults} {p : Program Call Answer α} {choices : List Choice}
    {w v : World} {value : α}
    (ran : replay faults p choices w = some (value, v)) : Returns (Steps faults) p w value v := by
  induction p generalizing choices w with
  | pure result =>
    cases ran
    exact .pure
  | call op next ih =>
    simp only [replay] at ran
    split at ran
    · rename_i passes
      exact .call ⟨_, allowed_of_allows passes, rfl⟩ (ih _ ran)
    · cases ran

/-- The world behind a run, or where it started if it is not possible. -/
def replayed (faults : Faults) (p : Program Call Answer α) (choices : List Choice)
    (w : World) : World :=
  ((replay faults p choices w).map Prod.snd).getD w

theorem replayed_returns {faults : Faults} {p : Program Call Answer α} {choices : List Choice}
    {w : World} {value : α}
    (ran : (replay faults p choices w).map Prod.fst = some value) :
    Returns (Steps faults) p w value (replayed faults p choices w) := by
  obtain ⟨⟨_, v⟩, done, rfl⟩ := Option.map_eq_some_iff.mp ran
  rw [replayed, done]
  exact replay_returns done

/-- The choices that a rule makes along a run. -/
def chosen (rule : Call → Choice) : Program Call Answer α → World → List Choice
  | .pure _, _ => []
  | .call op next, w => rule op :: chosen rule (next (act w (rule op) op).1) (act w (rule op) op).2

/-- The point a program is stopped at when its choices are used up. -/
def replayStopped (faults : Faults) : Program Call Answer α → List Choice → World → Option World
  | .pure _, _, w => some w
  | .call _ _, [], w => some w
  | .call op next, choice :: choices, w =>
    if allows faults w choice op then
      replayStopped faults (next (act w choice op).1) choices (act w choice op).2
    else none

private theorem replayStopped_stops {faults : Faults} {p : Program Call Answer α}
    {choices : List Choice} {w v : World}
    (ran : replayStopped faults p choices w = some v) : Stops (Steps faults) p w v := by
  induction p generalizing choices w with
  | pure result =>
    cases ran
    exact .here
  | call op next ih =>
    cases choices with
    | nil =>
      cases ran
      exact .here
    | cons choice choices =>
      unfold replayStopped at ran
      split at ran
      · rename_i passes
        exact .call ⟨_, allowed_of_allows passes, rfl⟩ (ih _ ran)
      · cases ran

/-- The world in which a run was stopped, or where it started if it is not possible. -/
def stoppedAt (faults : Faults) (p : Program Call Answer α) (choices : List Choice)
    (w : World) : World :=
  (replayStopped faults p choices w).getD w

/-- A replay stops its program where the choices end. -/
theorem stoppedAt_stops {faults : Faults} {p : Program Call Answer α} {choices : List Choice}
    {w : World} :
    Stops (Steps faults) p w (stoppedAt faults p choices w) := by
  unfold stoppedAt
  cases stopped : replayStopped faults p choices w with
  | none => exact .here
  | some v => exact replayStopped_stops stopped

/-- Programs that take turns, each turn with the choice of its call. A turn of a program
that has ended is none. -/
def replayTurns (faults : Faults) : List (Nat × Choice) → List (Program Call Answer α) × World →
    Option (List (Program Call Answer α) × World)
  | [], at_end => some at_end
  | (i, choice) :: turns, (programs, w) =>
    match programs[i]? with
    | some (.call op next) =>
      if allows faults w choice op then
        replayTurns faults turns (programs.set i (next (act w choice op).1), (act w choice op).2)
      else none
    | _ => none

private theorem replayTurns_interleaved {faults : Faults} {turns : List (Nat × Choice)}
    {before behind : List (Program Call Answer α) × World}
    (ran : replayTurns faults turns before = some behind) :
    Interleaved (Steps faults) before behind := by
  induction turns generalizing before with
  | nil =>
    cases ran
    exact .refl
  | cons turn turns ih =>
    obtain ⟨i, choice⟩ := turn
    obtain ⟨programs, w⟩ := before
    unfold replayTurns at ran
    split at ran
    · rename_i op next following
      split at ran
      · rename_i passes
        exact .head (.call following ⟨_, allowed_of_allows passes, rfl⟩) (ih ran)
      · cases ran
    · cases ran

/-- What some programs get to by their turns, or where they started if these are not possible. -/
def turned (faults : Faults) (turns : List (Nat × Choice))
    (before : List (Program Call Answer α) × World) :
    List (Program Call Answer α) × World := (replayTurns faults turns before).getD before

/-- Replayed turns are an interleaving. -/
theorem turned_interleaved {faults : Faults} {turns : List (Nat × Choice)}
    {before : List (Program Call Answer α) × World} :
    Interleaved (Steps faults) before (turned faults turns before) := by
  unfold turned
  cases ran : replayTurns faults turns before with
  | none => exact .refl
  | some behind => exact replayTurns_interleaved ran

/-- What a crash may leave: the contents as they are, and for each name what it stands
for or, counted from the last, what it stood for earlier. -/
def revert (back : Path → Nat) (w : World) : World :=
  { entries := fun path =>
      { now := (((w.entries path).now :: (w.entries path).before)[back path]?.getD
        (w.entries path).now).map
          fun file => { file with older := [] }
        before := [] }
    streams := fun _ => none
    next := w.next
    output := w.output }

private theorem torn_self (file : File) : Torn file file.bytes :=
  ⟨⟨file.bytes, .head _, Nat.le_refl _⟩, ⟨file.bytes, .head _, Nat.le_refl _⟩,
    fun _ _ => ⟨file.bytes, .head _, rfl⟩⟩

/-- A crash may take every name back to an earlier meaning. -/
theorem crash_revert (back : Path → Nat) (w : World) : Crash w (revert back w) := by
  refine ⟨fun path => ⟨rfl, ?_⟩, fun _ => rfl⟩
  have among : ((w.entries path).now :: (w.entries path).before)[back path]?.getD
      (w.entries path).now ∈
      (w.entries path).now :: (w.entries path).before := by
    cases found : ((w.entries path).now :: (w.entries path).before)[back path]? with
    | none => exact .head _
    | some meaning => exact List.mem_of_getElem? found
  cases meaning : ((w.entries path).now :: (w.entries path).before)[back path]?.getD
    (w.entries path).now with
  | none =>
    rw [meaning] at among
    exact .inl ⟨among, by simp [revert, meaning]⟩
  | some file =>
    rw [meaning] at among
    exact .inr ⟨file, { file with older := [] }, among, by simp [revert, meaning], rfl,
      torn_self file⟩

end SqlEngine.Library
