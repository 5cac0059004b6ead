import SqlEngine.Library.Program

/-! Which calls a program makes, whatever they answer.

A program may make only calls of one kind; what such calls keep, the program keeps. More
generally a program runs under a monitor, which has states and steps of its own and forbids
a call by having no step for it. A program is verified against the monitor alone. Where the
monitor follows the steps of a system, it comes along every run of the program on the system. -/
namespace SqlEngine.Library.Program

variable {Op : Type} {Reply : Op → Type} {α β σ μ : Type}

/-! ## Calls of one kind -/

/-- Whatever its calls answer, a program makes only calls of a kind. -/
def Only (kind : Op → Prop) : Program Op Reply α → Prop
  | pure _ => True
  | call op next => kind op ∧ ∀ reply, Only kind (next reply)

section Only

variable {kind : Op → Prop} {step : Step Op Reply σ} {inv held : σ → Prop} {post : α → σ → Prop}
    {p : Program Op Reply α}
  {state : σ}

theorem only_pure (value : α) : Only kind (Pure.pure value : Program Op Reply α) := trivial

theorem only_perform {op : Op} (of_kind : kind op) :
    Only kind (perform op : Program Op Reply (Reply op)) :=
  ⟨of_kind, fun _ => trivial⟩

theorem only_bind {next : α → Program Op Reply β} (first : Only kind p)
    (rest : ∀ value, Only kind (next value)) :
    Only kind (p >>= next) := by
  induction p with
  | pure value => exact rest value
  | call op reply ih => exact ⟨first.1, fun r => ih r (first.2 r)⟩

/-- What calls of a kind keep, such a program keeps. -/
theorem Only.keeps (only : Only kind p)
    (kept : ∀ op s reply after, kind op → held s → step op s reply after → held after)
    (holds : held state) (verified : wp step inv p post state) :
    wp step (fun s => inv s ∧ held s) p (fun a s => post a s ∧ held s) state := by
  induction p generalizing state with
  | pure value => exact ⟨⟨verified.1, holds⟩, verified.2, holds⟩
  | call op next ih =>
    exact ⟨⟨verified.1, holds⟩, verified.2.1,
      fun r s did => ih r (only.2 r) (kept _ _ _ _ only.1 holds did) (verified.2.2 r s did)⟩

end Only

/-! ## Results of one kind -/

/-- Whatever its calls answer, a program returns only certain values. -/
def Yields (allowed : α → Prop) : Program Op Reply α → Prop
  | pure value => allowed value
  | call _ next => ∀ reply, Yields allowed (next reply)

section Yields

variable {allowed : α → Prop} {p : Program Op Reply α} {step : Step Op Reply σ} {inv : σ → Prop}
    {post : α → σ → Prop}
  {state : σ}

theorem yields_bind {p : Program Op Reply β} {next : β → Program Op Reply α}
    (rest : ∀ value, Yields allowed (next value)) :
    Yields allowed (p >>= next) := by
  induction p with
  | pure value => exact rest value
  | call op reply ih => exact fun r => ih r

/-- What a program can return at all, it returns in every run. -/
theorem wp_yields (yields : Yields allowed p) (verified : wp step inv p post state) :
    wp step inv p (fun a s => post a s ∧ allowed a) state := by
  induction p generalizing state with
  | pure value => exact ⟨verified.1, verified.2, yields⟩
  | call op next ih =>
    exact ⟨verified.1, verified.2.1, fun r s did => ih r (yields r) (verified.2.2 r s did)⟩

end Yields

/-! ## Traces -/

/-- A call and its answer. -/
structure Event (Op : Type) (Reply : Op → Type) where
  op : Op
  reply : Reply op

/-- What a program has done on a system, and the rest of it. -/
inductive Traces (step : Step Op Reply σ) : Program Op Reply α → σ → List (Event Op Reply) →
    Program Op Reply α → σ → Prop where
  | here : Traces step p state [] p state
  | call (did : step op state reply between)
      (went : Traces step (next reply) between trace rest after) :
      Traces step (.call op next) state (⟨op, reply⟩ :: trace) rest after

/-- A monitor comes along a trace. -/
inductive Accepts (monitor : Step Op Reply μ) : μ → List (Event Op Reply) → μ → Prop where
  | here : Accepts monitor seen [] seen
  | call (moved : monitor op seen reply next) (went : Accepts monitor next trace last) :
      Accepts monitor seen (⟨op, reply⟩ :: trace) last

section Traces

variable {step : Step Op Reply σ} {p rest : Program Op Reply α} {state after : σ}
    {trace : List (Event Op Reply)} {value : α}

/-- A stopped run has a trace. -/
theorem stops_traces (stopped : Stops step p state after) :
    ∃ trace rest, Traces step p state trace rest after := by
  induction stopped with
  | here => exact ⟨[], _, .here⟩
  | call did _ ih =>
    obtain ⟨trace, rest, went⟩ := ih
    exact ⟨_, rest, .call did went⟩

theorem returns_traces (ran : Returns step p state value after) :
    ∃ trace, Traces step p state trace (.pure value) after := by
  induction ran with
  | pure => exact ⟨[], .here⟩
  | call did _ ih =>
    obtain ⟨trace, went⟩ := ih
    exact ⟨_, .call did went⟩

end Traces

/-! ## Monitors -/

/-- A monitor has a step for a call. -/
def Permits (monitor : Step Op Reply μ) (op : Op) (seen : μ) : Prop :=
  ∃ reply next, monitor op seen reply next

/-- What a system does where a monitor permits it, the monitor does too. -/
def Follows (monitor : Step Op Reply μ) (step : Step Op Reply σ) (sees : μ → σ → Prop) : Prop :=
  ∀ op seen state reply after, sees seen state → Permits monitor op seen →
    step op state reply after →
    ∃ next, monitor op seen reply next ∧ sees next after

variable {step : Step Op Reply σ} {monitor : Step Op Reply μ} {sees : μ → σ → Prop}
    {noted : μ → Prop} {ends : α → μ → Prop}
  {p rest : Program Op Reply α} {state after : σ} {seen : μ} {trace : List (Event Op Reply)}

/-- A run of a program that was verified against a monitor: the monitor comes along, and
at the end of the program it is where it should be. -/
theorem watched_traces (follows : Follows monitor step sees)
    (verified : wp monitor noted p ends seen) (related : sees seen state)
    (ran : Traces step p state trace rest after) :
    ∃ last, Accepts monitor seen trace last ∧ sees last after ∧ noted last ∧
      ∀ value, rest = .pure value → ends value last := by
  induction ran generalizing seen with
  | @here p state =>
    refine ⟨seen, .here, related, wp_start verified, ?_⟩
    rintro value rfl
    exact verified.2
  | call did _ ih =>
    obtain ⟨next, moved, related'⟩ := follows _ _ _ _ _ related verified.2.1 did
    obtain ⟨last, accepts, rest⟩ := ih (verified.2.2 _ _ moved) related'
    exact ⟨last, .call moved accepts, rest⟩

end SqlEngine.Library.Program
