import Mathlib.Logic.Relation
import SqlEngine.Library.Program

/-! Programs that take turns on one state, call by call, and races for a resource: the
first call of every program takes the resource where it is free, and the program that has
it is the only one that changes the state until it has won or given up. -/
namespace SqlEngine.Library.Program

variable {Op : Type} {Reply : Op → Type} {α β σ : Type} {step : Step Op Reply σ}

/-- One of the programs makes its next call. -/
inductive Turn (step : Step Op Reply σ) :
    List (Program Op Reply α) × σ → List (Program Op Reply α) × σ → Prop where
  | call {programs : List (Program Op Reply α)} {i : Nat} {op : Op}
      {next : Reply op → Program Op Reply α}
      {reply : Reply op} {state after : σ} (following : programs[i]? = some (.call op next))
      (did : step op state reply after) :
        Turn step (programs, state) (programs.set i (next reply), after)

/-- What some programs get to, in any order of their calls. -/
abbrev Interleaved (step : Step Op Reply σ) :
    List (Program Op Reply α) × σ → List (Program Op Reply α) × σ → Prop :=
  Relation.ReflTransGen (Turn step)

/-- The value of a program that has ended. -/
def value? : Program Op Reply α → Option α
  | .pure value => some value
  | .call _ _ => none

theorem value?_eq {program : Program Op Reply α} {value : α} (ended : program.value? = some value) :
    program = .pure value := by
  cases program with
  | pure result => exact congrArg _ (Option.some.inj ended)
  | call op next => cases ended

variable (step) (free : σ → Prop) (lost : α → Prop) (won : α → σ → Prop)

/-- A program that has the resource, which is not free in front of any of its calls. In the
end it has lost or won. -/
def Holds : Program Op Reply α → σ → Prop
  | .pure value, state => lost value ∨ won value state
  | .call op next, state => ¬ free state ∧ ∀ reply after, step op state reply after →
      Holds (next reply) after

/-- A program that holds the resource, or has won it. -/
def Holder : Program Op Reply α → σ → Prop
  | .pure value, state => won value state
  | .call op next, state =>
    ¬ free state ∧ ∀ reply after, step op state reply after →
      Holds step free lost won (next reply) after

/-- A program whose first call takes the resource where it is free, or changes nothing and
loses. -/
def Enters (program : Program Op Reply α) : Prop :=
  ∃ op next, program = .call op next ∧ ∀ state reply after, step op state reply after →
    (after = state ∧ ∃ value, next reply = .pure value ∧ lost value) ∨
      free state ∧ Holds step free lost won (next reply) after

/-- A program that has not begun, or has lost. -/
def Outside (program : Program Op Reply α) : Prop :=
  Enters step free lost won program ∨ ∃ value, program = .pure value ∧ lost value

/-- The states of a race: at most one program has the resource. -/
inductive Racing : List (Program Op Reply α) × σ → Prop where
  | nobody (outside : ∀ program ∈ programs, Outside step free lost won program) :
      Racing (programs, state)
  | somebody {programs : List (Program Op Reply α)} {state : σ} {i : Nat}
      {program : Program Op Reply α}
      (here : programs[i]? = some program) (holder : Holder step free lost won program state)
      (others : ∀ j : Nat, j ≠ i → ∀ other, programs[j]? = some other →
        Outside step free lost won other) :
      Racing (programs, state)

variable {step free lost won} {programs later : List (Program Op Reply α)}
    {program : Program Op Reply α}
  {state after : σ} {value : α} {i j : Nat}

/-- What is verified to keep the resource taken holds it, if what follows does. -/
theorem holds_bind {p : Program Op Reply β} {finish : β → Program Op Reply α} {post : β → σ → Prop}
    (verified : wp step (fun s => ¬ free s) p post state)
    (finishes : ∀ b s, ¬ free s → post b s → Holds step free lost won (finish b) s) :
    Holds step free lost won (p >>= finish) state := by
  induction p generalizing state with
  | pure b => exact finishes b state verified.1 verified.2
  | call op next ih =>
    exact ⟨verified.1, fun reply after did => ih reply (verified.2.2 reply after did)⟩

/-- A program that returns from outside has lost the race. -/
theorem Outside.pure_lost (outside : Outside step free lost won (.pure value)) : lost value := by
  rcases outside with ⟨op, next, same, _⟩ | ⟨other, same, gone⟩
  · cases same
  · cases same
    exact gone

/-- A program outside that is called changes nothing and loses, or takes the resource. -/
theorem Outside.call {op : Op} {next : Reply op → Program Op Reply α} {reply : Reply op}
    (outside : Outside step free lost won (.call op next)) (did : step op state reply after) :
    (after = state ∧ ∃ value, next reply = .pure value ∧ lost value) ∨
      free state ∧ Holds step free lost won (next reply) after := by
  rcases outside with ⟨op, next, same, each⟩ | ⟨other, same, _⟩
  · cases same
    exact each state reply after did
  · cases same

/-- A program that holds the resource has lost it, or is still the holder. -/
theorem Holds.cases (holds : Holds step free lost won program state) :
    (∃ value, program = .pure value ∧ lost value) ∨ Holder step free lost won program state := by
  cases program with
  | pure value => exact holds.imp_left fun gone => ⟨value, rfl, gone⟩
  | call op next => exact .inr holds

/-- While a program holds the resource it is not free. -/
theorem Holder.taken (kept : ∀ value state, won value state → ¬ free state)
    (holder : Holder step free lost won program state) : ¬ free state := by
  cases program with
  | pure value => exact kept value state holder
  | call op next => exact holder.1

private theorem outside_set (outside : ∀ program ∈ programs, Outside step free lost won program)
    (also : Outside step free lost won program) :
    ∀ other ∈ programs.set i program, Outside step free lost won other := fun other member =>
  (List.mem_or_eq_of_mem_set member).elim (outside other) fun same => same ▸ also

private theorem others_outside
    (others : ∀ j, j ≠ i → ∀ other, programs[j]? = some other → Outside step free lost won other)
    (also : Outside step free lost won program) :
    ∀ other ∈ programs.set i program, Outside step free lost won other := by
  intro other member
  obtain ⟨j, found⟩ := List.getElem?_of_mem member
  by_cases here : i = j
  · subst here
    rw [List.getElem?_set, if_pos rfl] at found
    split at found
    · rw [Option.some.injEq] at found
      exact found ▸ also
    · cases found
  · rw [List.getElem?_set_ne here] at found
    exact others j (Ne.symm here) other found

private theorem racing_set
    (others : ∀ j, j ≠ i → ∀ other, programs[j]? = some other → Outside step free lost won other)
    (there : i < programs.length) (holds : Holds step free lost won program after) :
    Racing step free lost won (programs.set i program, after) := by
  -- A turn of one program, behind which it holds the resource or is outside again.
  rcases holds.cases with gone | holder
  · exact .nobody (others_outside others (.inr gone))
  · refine .somebody (List.getElem?_set_self there) holder fun j ne other found => ?_
    rw [List.getElem?_set_ne (Ne.symm ne)] at found
    exact others j ne other found

/-- A turn keeps the race one of at most one holder. -/
theorem Racing.turn (kept : ∀ value state, won value state → ¬ free state)
    {before behind : List (Program Op Reply α) × σ} (racing : Racing step free lost won before)
    (turn : Turn step before behind) : Racing step free lost won behind := by
  obtain @⟨programs, i, op, next, reply, state, after, following, did⟩ := turn
  have there : i < programs.length := (List.getElem?_eq_some_iff.mp following).1
  cases racing with
  | nobody outside =>
    rcases (outside _ (List.mem_of_getElem? following)).call did with ⟨rfl, gone⟩ | ⟨_, holds⟩
    · exact .nobody (outside_set outside (.inr gone))
    · exact racing_set (fun j _ other found =>
        outside other (List.mem_of_getElem? found)) there holds
  | @somebody _ _ k _ here holder others =>
    by_cases same : i = k
    · subst same
      rw [following, Option.some.injEq] at here
      subst here
      exact racing_set others there (holder.2 reply after did)
    · rcases (others i same _ following).call did with ⟨rfl, gone⟩ | ⟨nobody, _⟩
      · refine .somebody ((List.getElem?_set_ne same).trans here) holder fun j ne other found => ?_
        by_cases own : i = j
        · subst own
          rw [List.getElem?_set_self there, Option.some.injEq] at found
          exact found ▸ .inr gone
        · rw [List.getElem?_set_ne own] at found
          exact others j ne other found
      · exact absurd nobody (holder.taken kept)

/-- The run lemma: the race goes on in every interleaving. -/
theorem Racing.run (kept : ∀ value state, won value state → ¬ free state)
    {before behind : List (Program Op Reply α) × σ} (racing : Racing step free lost won before)
    (run : Interleaved step before behind) : Racing step free lost won behind := by
  induction run with
  | refl => exact racing
  | tail _ turn ih => exact ih.turn kept turn

/-- A program that has ended and has not lost is the only holder. -/
theorem Racing.winner (racing : Racing step free lost won (programs, state))
    (ended : programs[i]? = some (.pure value))
    (stands : ¬ lost value) :
    won value state ∧ ∀ j, j ≠ i → ∀ other, programs[j]? = some other →
      Outside step free lost won other := by
  cases racing with
  | nobody outside => exact absurd (outside _ (List.mem_of_getElem? ended)).pure_lost stands
  | @somebody _ _ k _ here holder others =>
    by_cases same : i = k
    · subst same
      rw [ended, Option.some.injEq] at here
      subst here
      exact ⟨holder, others⟩
    · exact absurd (others i same _ ended).pure_lost stands

/-- No two programs return with the resource. -/
theorem Racing.unique (racing : Racing step free lost won (programs, state)) {first second : α}
    (one : programs[i]? = some (.pure first)) (stands : ¬ lost first)
    (two : programs[j]? = some (.pure second)) (stands' : ¬ lost second) :
    i = j := by
  refine Decidable.byContradiction fun different => ?_
  exact stands' ((racing.winner one stands).2 j (Ne.symm different) _ two).pure_lost

/-- Where the resource is taken and no program holds it, nothing changes any more, and
whoever has not ended loses. -/
theorem settled_run {before behind : List (Program Op Reply α) × σ} (taken : ¬ free before.2)
    (idle : ∀ program ∈ before.1, Outside step free lost won program ∨
      ∃ value, program = .pure value)
    (run : Interleaved step before behind) :
    behind.2 = before.2 ∧
      ∀ program ∈ behind.1, program ∈ before.1 ∨ ∃ value, program = .pure value ∧ lost value := by
  induction run with
  | refl => exact ⟨rfl, fun _ member => .inl member⟩
  | tail _ turn ih =>
    obtain @⟨programs, i, op, next, reply, state, after, following, did⟩ := turn
    obtain ⟨same, each⟩ := ih
    have outside : Outside step free lost won (.call op next) := by
      rcases each _ (List.mem_of_getElem? following) with old | ⟨_, ended, _⟩
      · rcases idle _ old with outside | ⟨_, ended⟩
        · exact outside
        · cases ended
      · cases ended
    rcases outside.call did with ⟨rfl, gone⟩ | ⟨nobody, _⟩
    · refine ⟨same, fun program member => ?_⟩
      rcases List.mem_or_eq_of_mem_set member with old | rfl
      · exact each program old
      · exact .inr gone
    · have here : state = _ := same
      exact absurd nobody (here ▸ taken)

end SqlEngine.Library.Program
