import Mathlib.Data.List.Basic

/-! # Runs of a step function

A system here is a step function from a state and an action to the next state; an
action that never returns (a kernel oops, exhausted fuel) is an error and ends the
run.  `Along` says that a property holds of every action of a run in the state it
is taken in, which is how both "after every call" and "every call of the run meets
the condition" are written.
-/

namespace TestPrograms.Foundations

variable {σ α ε : Type} (step : σ → α → Except ε σ)

def run : σ → List α → Except ε σ
  | state, [] => .ok state
  | state, action :: actions =>
    match step state action with
    | .ok next => run next actions
    | .error stuck => .error stuck

/-- `P` holds of each action of the run in the state it is taken in. -/
def Along (P : σ → α → Prop) : σ → List α → Prop
  | _, [] => True
  | state, action :: actions =>
    P state action ∧ ∀ next, step state action = .ok next → Along P next actions

variable {step}

theorem run_cons_ok {state next : σ} {action : α} (actions : List α)
    (steps : step state action = .ok next) :
    run step state (action :: actions) = run step next actions := by
  simp only [run, steps]

theorem run_cons_inv {state final : σ} {action : α} {actions : List α}
    (returns : run step state (action :: actions) = .ok final) :
    ∃ next, step state action = .ok next ∧ run step next actions = .ok final := by
  simp only [run] at returns
  split at returns
  · rename_i next steps
    exact ⟨next, steps, returns⟩
  · contradiction

theorem Along.cons_ok {P : σ → α → Prop} {state next : σ} {action : α} {actions : List α}
    (steps : step state action = .ok next) :
    Along step P state (action :: actions) ↔ P state action ∧ Along step P next actions := by
  simp only [Along, steps, Except.ok.injEq, forall_eq']

/-- What holds of the first action whatever it is holds of the state the run starts in. -/
theorem Along.head {P : σ → Prop} {state : σ} {actions : List α}
    (along : Along step (fun s _ => P s) state actions) (some : actions ≠ []) : P state := by
  cases actions with
  | nil => exact absurd rfl some
  | cons action actions => exact along.1

/-- Under an invariant, what a property of each call implies of that call it implies
    of the whole run. -/
theorem Along.imp {P Q : σ → α → Prop} (I : σ → Prop)
    (implies : ∀ state action, I state → P state action → Q state action)
    (preserved : ∀ state action next, I state → P state action → Q state action →
      step state action = .ok next → I next)
    {state : σ} {actions : List α} (start : I state) (along : Along step P state actions) :
    Along step Q state actions := by
  induction actions generalizing state with
  | nil => trivial
  | cons action actions ih =>
    have holds := implies state action start along.1
    refine ⟨holds, fun next steps => ih ?_ (along.2 next steps)⟩
    exact preserved state action next start along.1 holds steps

theorem Along.and {P Q : σ → α → Prop} {state : σ} {actions : List α}
    (left : Along step P state actions) (right : Along step Q state actions) :
    Along step (fun s a => P s a ∧ Q s a) state actions := by
  induction actions generalizing state with
  | nil => trivial
  | cons action actions ih =>
    exact ⟨⟨left.1, right.1⟩, fun next steps => ih (left.2 next steps) (right.2 next steps)⟩

theorem along_of_forall {P : σ → α → Prop} {state : σ} {actions : List α}
    (all : ∀ action ∈ actions, ∀ state, P state action) : Along step P state actions := by
  induction actions generalizing state with
  | nil => trivial
  | cons action actions ih =>
    exact ⟨all action List.mem_cons_self state, fun next _ =>
      ih fun later member => all later (List.mem_cons_of_mem _ member)⟩

/-- What each step preserves when the action meets `Q`, a whole run of such
    actions preserves. -/
theorem run_invariant {Q : σ → α → Prop} (I : σ → Prop)
    (preserved : ∀ state action next, I state → Q state action →
      step state action = .ok next → I next)
    {state final : σ} {actions : List α} (start : I state)
    (meets : Along step Q state actions) (returns : run step state actions = .ok final) :
    I final := by
  induction actions generalizing state with
  | nil =>
    simp only [run, Except.ok.injEq] at returns
    exact returns ▸ start
  | cons action actions ih =>
    obtain ⟨next, steps, returns⟩ := run_cons_inv returns
    exact ih (preserved state action next start meets.1 steps) (meets.2 next steps) returns

theorem run_append (state : σ) (first second : List α) :
    run step state (first ++ second) =
      (run step state first).bind fun middle => run step middle second := by
  induction first generalizing state with
  | nil => rfl
  | cons action first ih =>
    simp only [List.cons_append, run]
    cases step state action with
    | error stuck => rfl
    | ok next => exact ih next

/-- An invariant that may speak of all the actions taken so far. -/
theorem run_history (I : List α → σ → Prop)
    (preserved : ∀ past state action next, I past state → step state action = .ok next →
      I (past ++ [action]) next)
    {past : List α} {state final : σ} {actions : List α} (start : I past state)
    (returns : run step state actions = .ok final) : I (past ++ actions) final := by
  induction actions generalizing past state with
  | nil =>
    cases returns
    rwa [List.append_nil]
  | cons action actions ih =>
    obtain ⟨next, steps, returns⟩ := run_cons_inv returns
    rw [List.append_cons]
    exact ih (preserved past state action next start steps) returns

theorem Along.append {P : σ → α → Prop} {state : σ} {first second : List α} :
    Along step P state (first ++ second) ↔ Along step P state first ∧
      ∀ middle, run step state first = .ok middle → Along step P middle second := by
  induction first generalizing state with
  | nil =>
    refine ⟨fun along => ⟨trivial, ?_⟩, fun both => both.2 state rfl⟩
    rintro _ ⟨⟩
    exact along
  | cons action first ih =>
    constructor
    · intro along
      refine ⟨⟨along.1, fun next steps => (ih.mp (along.2 next steps)).1⟩, fun middle returns => ?_⟩
      obtain ⟨next, steps, returns⟩ := run_cons_inv returns
      exact (ih.mp (along.2 next steps)).2 middle returns
    · rintro ⟨along, rest⟩
      refine ⟨along.1, fun next steps => ih.mpr ⟨along.2 next steps, fun middle returns => ?_⟩⟩
      exact rest middle ((run_cons_ok first steps).trans returns)

theorem Along.append_ok {P : σ → α → Prop} {state middle : σ} {first second : List α}
    (returns : run step state first = .ok middle) :
    Along step P state (first ++ second) ↔ Along step P state first ∧ Along step P middle second := by
  rw [Along.append]
  simp only [returns, Except.ok.injEq, forall_eq']

theorem run_append_ok {state middle : σ} {first : List α} (second : List α)
    (returns : run step state first = .ok middle) :
    run step state (first ++ second) = run step middle second := by
  rw [run_append, returns]
  rfl

theorem along_iff_splits {P : σ → α → Prop} {state : σ} {actions : List α} :
    Along step P state actions ↔ ∀ before action after middle,
      actions = before ++ action :: after → run step state before = .ok middle → P middle action := by
  constructor
  · rintro along before action after middle rfl returns
    exact ((Along.append.mp along).2 middle returns).1
  · intro all
    induction actions generalizing state with
    | nil => trivial
    | cons action actions ih =>
      refine ⟨all [] action actions state rfl rfl, fun next steps => ih ?_⟩
      intro before later after middle splits returns
      exact all (action :: before) later after middle (by rw [splits, List.cons_append])
        ((run_cons_ok before steps).trans returns)

theorem run_total (total : ∀ state action, ∃ next, step state action = .ok next) (state : σ)
    (actions : List α) : ∃ final, run step state actions = .ok final := by
  induction actions generalizing state with
  | nil => exact ⟨state, rfl⟩
  | cons action actions ih =>
    obtain ⟨next, steps⟩ := total state action
    rw [run_cons_ok actions steps]
    exact ih next

/-! ## Notes taken along a run -/

/-- What an observer has noted by the end of a run, who notes something at each action. -/
def carry {γ : Type} (step : σ → α → Except ε σ) (note : σ → α → γ → γ) : σ → γ → List α → γ
  | _, noted, [] => noted
  | state, noted, action :: actions =>
    match step state action with
    | .ok next => carry step note next (note state action noted) actions
    | .error _ => noted

/-- An invariant between the state and what has been noted. -/
theorem carry_invariant {γ : Type} {note : σ → α → γ → γ} {Q : σ → α → Prop} (I : γ → σ → Prop)
    (preserved : ∀ noted state action next, I noted state → Q state action →
      step state action = .ok next → I (note state action noted) next)
    {noted : γ} {state final : σ} {actions : List α} (start : I noted state)
    (meets : Along step Q state actions) (returns : run step state actions = .ok final) :
    I (carry step note state noted actions) final := by
  induction actions generalizing noted state with
  | nil =>
    cases returns
    exact start
  | cons action actions ih =>
    obtain ⟨next, steps, returns⟩ := run_cons_inv returns
    simp only [carry, steps]
    exact ih (preserved noted state action next start meets.1 steps) (meets.2 next steps) returns

/-! ## Simulations -/

section

variable {τ ε' : Type} {step' : τ → α → Except ε' τ} {Related : σ → τ → Prop}

/-- What one machine does in a run another does that simulates it while `P` holds. -/
theorem run_simulates {P : σ → α → Prop}
    (simulates : ∀ s t action next, Related s t → P s action → step s action = .ok next →
      ∃ next', step' t action = .ok next' ∧ Related next next')
    {s final : σ} {t : τ} {actions : List α} (related : Related s t)
    (along : Along step P s actions) (returns : run step s actions = .ok final) :
    ∃ final', run step' t actions = .ok final' ∧ Related final final' := by
  induction actions generalizing s t with
  | nil =>
    cases returns
    exact ⟨t, rfl, related⟩
  | cons action actions ih =>
    obtain ⟨next, steps, returns⟩ := run_cons_inv returns
    obtain ⟨next', steps', related'⟩ := simulates s t action next related along.1 steps
    rw [run_cons_ok actions steps']
    exact ih related' (along.2 next steps) returns

end

end TestPrograms.Foundations
