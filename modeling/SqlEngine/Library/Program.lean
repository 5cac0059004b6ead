/-! Programs over an interface of operations, and a weakest precondition for them.

A program is a tree of calls. What a call may do is a relation between the state, its
reply and the next state, so a caller of this module chooses which failures are
possible. A run may be stopped in front of any call; the running invariant of the weakest
precondition is what holds at each of these points. -/
namespace SqlEngine.Library

/-- A program that performs operations and goes on with their replies. -/
inductive Program (Op : Type) (Reply : Op → Type) (α : Type) where
  | pure (value : α)
  | call (op : Op) (next : Reply op → Program Op Reply α)

namespace Program

variable {Op : Type} {Reply : Op → Type} {α β σ : Type}

protected def bind : Program Op Reply α → (α → Program Op Reply β) → Program Op Reply β
  | pure value, next => next value
  | call op reply, next => call op fun r => (reply r).bind next

instance : Monad (Program Op Reply) where
  pure := pure
  bind := Program.bind

/-- One operation. -/
def perform (op : Op) : Program Op Reply (Reply op) := call op pure

@[simp] theorem pure_eq (value : α) : (Pure.pure value : Program Op Reply α) = pure value := rfl

@[simp] theorem pure_bind (value : α) (next : α → Program Op Reply β) :
    (pure value >>= next) = next value := rfl

@[simp] theorem perform_bind (op : Op) (next : Reply op → Program Op Reply β) :
    (perform op >>= next) = call op next := rfl

private theorem bind_pure_self (p : Program Op Reply α) : (p >>= pure) = p := by
  induction p with
  | pure value => rfl
  | call op next ih => exact congrArg (call op) (funext ih)

theorem bind_assoc {γ : Type} (p : Program Op Reply α) (f : α → Program Op Reply β)
    (g : β → Program Op Reply γ) : (p >>= f) >>= g = p >>= fun a => f a >>= g := by
  induction p with
  | pure value => rfl
  | call op next ih => exact congrArg (call op) (funext ih)

/-- A sequence is cut where each way to go on is itself a sequence. -/
theorem bind_cut {γ : Type} {p : Program Op Reply α} {f : α → Program Op Reply γ}
    {g : α → Program Op Reply β} {k : β → Program Op Reply γ} (each : ∀ a, f a = g a >>= k) :
    p >>= f = (p >>= g) >>= k := by
  rw [bind_assoc]
  exact congrArg (p >>= ·) (funext each)

instance : LawfulMonad (Program Op Reply) :=
  LawfulMonad.mk' _ (fun p => bind_pure_self p) (fun _ _ => rfl) bind_assoc

/-- What a call may do: its reply and the state behind it. -/
abbrev Step (Op : Type) (Reply : Op → Type) (σ : Type) := (op : Op) → σ → Reply op → σ → Prop

/-- The complete runs of a program. -/
inductive Returns (step : Step Op Reply σ) : Program Op Reply α → σ → α → σ → Prop where
  | pure : Returns step (.pure value) state value state
  | call (did : step op state reply between)
      (went : Returns step (next reply) between value after) :
      Returns step (.call op next) state value after

/-- The runs of a program that are stopped in front of a call, or before it returns. -/
inductive Stops (step : Step Op Reply σ) : Program Op Reply α → σ → σ → Prop where
  | here : Stops step p state state
  | call (did : step op state reply between) (went : Stops step (next reply) between after) :
      Stops step (.call op next) state after

/-- Whatever the calls do, the program returns in a state that satisfies `post`, and
`inv` holds wherever it can be stopped. No call is stuck. -/
def wp (step : Step Op Reply σ) (inv : σ → Prop) : Program Op Reply α → (α → σ → Prop) → σ → Prop
  | pure value, post, state => inv state ∧ post value state
  | call op next, post, state => inv state ∧ (∃ reply after, step op state reply after) ∧
      ∀ reply after, step op state reply after → wp step inv (next reply) post after

variable {step : Step Op Reply σ} {inv weaker : σ → Prop} {post : α → σ → Prop} {state after : σ}

/-- The invariant holds where the program starts. -/
theorem wp_start {p : Program Op Reply α} (verified : wp step inv p post state) : inv state := by
  cases p with
  | pure value => exact verified.1
  | call op next => exact verified.1

/-- The rule of consequence. -/
theorem wp_mono {p : Program Op Reply α} {wider : α → σ → Prop}
    (verified : wp step inv p post state) (weaken : ∀ s, inv s → weaker s)
    (widen : ∀ a s, inv s → post a s → wider a s) :
    wp step weaker p wider state := by
  induction p generalizing state with
  | pure value => exact ⟨weaken _ verified.1, widen _ _ verified.1 verified.2⟩
  | call op next ih =>
    exact ⟨weaken _ verified.1, verified.2.1, fun r s did => ih r (verified.2.2 r s did)⟩

/-- Two verifications of one program. -/
theorem wp_and {p : Program Op Reply α} {other : α → σ → Prop} (one : wp step inv p post state)
    (two : wp step weaker p other state) :
    wp step inv p (fun a s => post a s ∧ other a s) state := by
  induction p generalizing state with
  | pure value => exact ⟨one.1, one.2, two.2⟩
  | call op next ih =>
    exact ⟨one.1, one.2.1, fun r s did => ih r (one.2.2 r s did) (two.2.2 r s did)⟩

/-- Two verifications of one program, with both invariants. -/
theorem wp_both {p : Program Op Reply α} {other : α → σ → Prop} (one : wp step inv p post state)
    (two : wp step weaker p other state) :
    wp step (fun s => inv s ∧ weaker s) p (fun a s => post a s ∧ other a s) state := by
  induction p generalizing state with
  | pure value => exact ⟨⟨one.1, two.1⟩, one.2, two.2⟩
  | call op next ih =>
    exact ⟨⟨one.1, two.1⟩, one.2.1, fun r s did => ih r (one.2.2 r s did) (two.2.2 r s did)⟩

/-- Sequencing: what the first part establishes is what the second part starts from. -/
theorem wp_bind {p : Program Op Reply α} {next : α → Program Op Reply β} {post : β → σ → Prop}
    (verified : wp step inv p (fun a s => wp step inv (next a) post s) state) :
    wp step inv (p >>= next) post state := by
  induction p generalizing state with
  | pure value => exact verified.2
  | call op reply ih => exact ⟨verified.1, verified.2.1, fun r s did => ih r (verified.2.2 r s did)⟩

/-- A part that was verified on its own is used inside a longer program. -/
theorem wp_seq {p : Program Op Reply α} {next : α → Program Op Reply β} {post : β → σ → Prop}
    {narrow : σ → Prop} {middle : α → σ → Prop} (part : wp step narrow p middle state)
    (weaken : ∀ s, narrow s → inv s)
    (rest : ∀ a s, narrow s → middle a s → wp step inv (next a) post s) :
    wp step inv (p >>= next) post state :=
  wp_bind (wp_mono part weaken rest)

/-- A run that returns ends in the invariant and the postcondition. -/
theorem wp_returns {p : Program Op Reply α} {value : α} (verified : wp step inv p post state)
    (ran : Returns step p state value after) : inv after ∧ post value after := by
  induction ran with
  | pure => exact verified
  | call did went ih => exact ih (verified.2.2 _ _ did)

/-- A run that is stopped anywhere ends in the invariant. -/
theorem wp_stops {p : Program Op Reply α} (verified : wp step inv p post state)
    (stopped : Stops step p state after) : inv after := by
  induction stopped with
  | here => exact wp_start verified
  | call did went ih => exact ih (verified.2.2 _ _ did)

/-- A verified program has a complete run. -/
theorem wp_progress {p : Program Op Reply α} (verified : wp step inv p post state) :
    ∃ value after, Returns step p state value after := by
  induction p generalizing state with
  | pure value => exact ⟨value, state, .pure⟩
  | call op next ih =>
    obtain ⟨_, ⟨reply, between, did⟩, each⟩ := verified
    obtain ⟨value, after, went⟩ := ih reply (each reply between did)
    exact ⟨value, after, .call did went⟩

/-- Where every reply is possible, two ways to go on that agree on the verified results
make the same sequence. -/
theorem bind_congr {p : Program Op Reply α} {f g : α → Program Op Reply β}
    (verified : wp step inv p (fun a _ => f a = g a) state)
    (every : ∀ op s reply, ∃ after, step op s reply after) : p >>= f = p >>= g := by
  induction p generalizing state with
  | pure value => exact verified.2
  | call op next ih =>
    refine congrArg (call op) (funext fun reply => ?_)
    obtain ⟨after, did⟩ := every op state reply
    exact ih reply (verified.2.2 reply after did)

/-- A program is not the rest of itself behind a call. -/
theorem call_ne_self (op : Op) (reply : Reply op) (p : Program Op Reply α) :
    call op (fun _ => p) ≠ p := by
  induction p with
  | pure value => exact nofun
  | call op' next ih =>
    intro same
    obtain ⟨rfl, rest⟩ := call.inj same
    have inside : call op next = next reply := congrFun (eq_of_heq rest) reply
    have constant : next = fun _ => call op next := (eq_of_heq rest).symm
    exact ih reply (inside ▸ congrArg (call op) constant).symm

/-- A run of a sequence is a run of its first part and then one of the rest. -/
theorem returns_bind {p : Program Op Reply α} {next : α → Program Op Reply β} {value : β} :
    Returns step (p >>= next) state value after ↔
      ∃ first between, Returns step p state first between ∧
        Returns step (next first) between value after := by
  constructor
  · intro ran
    induction p generalizing state with
    | pure first => exact ⟨first, state, .pure, ran⟩
    | call op reply ih =>
      cases ran with
      | call did went =>
        obtain ⟨first, between, part, rest⟩ := ih _ went
        exact ⟨first, between, .call did part, rest⟩
  · rintro ⟨first, between, part, rest⟩
    induction part with
    | pure => exact rest
    | call did _ ih => exact .call did (ih rest)

/-- Where the invariant of a verified program makes one kind of step another kind, its runs
of the one kind are of the other. -/
theorem returns_refine {p : Program Op Reply α} {value : α} {fewer other : Step Op Reply σ}
    (verified : wp step inv p post state) (within : ∀ op s r s', fewer op s r s' → step op s r s')
    (refines : ∀ op s r s', inv s → fewer op s r s' → other op s r s')
    (ran : Returns fewer p state value after) :
    Returns other p state value after := by
  induction ran with
  | pure => exact .pure
  | call did went ih =>
    exact .call (refines _ _ _ _ verified.1 did) (ih (verified.2.2 _ _ (within _ _ _ _ did)))

/-- A run is one under any steps that allow more. -/
theorem returns_mono {p : Program Op Reply α} {value : α} {fewer : Step Op Reply σ}
    (within : ∀ op s r s', fewer op s r s' → step op s r s')
    (ran : Returns fewer p state value after) :
    Returns step p state value after := by
  induction ran with
  | pure => exact .pure
  | call did went ih => exact .call (within _ _ _ _ did) ih

/-- What a program returns where a call has one answer. -/
def answered (answer : (op : Op) → Reply op) : Program Op Reply α → α
  | pure value => value
  | call op next => (next (answer op)).answered answer

/-- Where every call may leave the state as it is, a program returns. -/
theorem returns_answered {p : Program Op Reply α} {answer : (op : Op) → Reply op}
    (possible : ∀ op, step op state (answer op) state) :
    Returns step p state (p.answered answer) state := by
  induction p with
  | pure value => exact .pure
  | call op next ih => exact .call (possible op) (ih (answer op))

/-- A program over a smaller interface, as a program over a larger one. -/
def lift {Op' : Type} {Reply' : Op' → Type} (name : Op → Op')
    (answer : (op : Op) → Reply' (name op) → Reply op) : Program Op Reply α → Program Op' Reply' α
  | pure value => pure value
  | call op next => call (name op) fun r => (next (answer op r)).lift name answer

/-- A lifted program that leaves the state alone ends with one of the results of the
program over the smaller interface. -/
theorem wp_lift {Op' : Type} {Reply' : Op' → Type} {name : Op → Op'}
    {answer : (op : Op) → Reply' (name op) → Reply op} {step : Step Op' Reply' σ}
    (small : Step Op Reply Unit) (p : Program Op Reply α) (holds : inv state)
    (goes : ∀ op, ∃ reply after, step (name op) state reply after)
    (same : ∀ op reply after, step (name op) state reply after →
      after = state ∧ small op () (answer op reply) ())
    (returned : ∀ value, Returns small p () value () → post value state) :
    wp step inv (p.lift name answer) post state := by
  induction p with
  | pure value => exact ⟨holds, returned value .pure⟩
  | call op next ih =>
    refine ⟨holds, goes op, fun reply after did => ?_⟩
    obtain ⟨rfl, replied⟩ := same op reply after did
    exact ih (answer op reply) fun value went => returned value (.call replied went)

end Program

end SqlEngine.Library
