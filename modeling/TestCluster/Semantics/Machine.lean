import Mathlib.Logic.Relation
import Mathlib.Tactic.SplitIfs

/-!
# Machines driven by events

A machine is a partial step function: an event is either refused in the current
state or leads to one next state. Everything a program can do is then a list of
events, and everything that can be said about all of its runs goes through one
induction, stated here once.

## Main definitions

* `Semantics.run` — the state a list of events leads to, if none of them is refused
* `Semantics.Reachable` — the states reached by steps that all meet a condition
* `Semantics.results` — what a machine answers that takes every operation

## Main results

* `Reachable.invariant` — a property of the start that every admitted step keeps
  holds in every reachable state
* `Reachable.project` — a run of a machine is one of each of its components
* `Reachable.of_run` — an executed run is a proof of reachability
* `results_eq` — machines whose steps answer alike answer alike in all runs
-/

namespace Semantics

variable {σ ε : Type*}

/-- The state reached by handling the events in order; `none` if one is refused. -/
def run (step : σ → ε → Option σ) : σ → List ε → Option σ
  | s, [] => some s
  | s, e :: es => (step s e).bind fun s' => run step s' es

@[simp] theorem run_nil (step : σ → ε → Option σ) (s : σ) : run step s [] = some s := rfl

@[simp] theorem run_cons (step : σ → ε → Option σ) (s : σ) (e : ε) (es : List ε) :
    run step s (e :: es) = (step s e).bind fun s' => run step s' es := rfl

theorem run_append (step : σ → ε → Option σ) (s : σ) (es es' : List ε) :
    run step s (es ++ es') = (run step s es).bind fun s' => run step s' es' := by
  induction es generalizing s with
  | nil => rfl
  | cons e es ih =>
    rw [List.cons_append, run_cons, run_cons, Option.bind_assoc]
    exact congrArg _ (funext fun s' => ih s')

/-- `Reachable step ok s₀ s`: some run from `s₀` ends in `s`, and each of its steps
meets the condition `ok` on the state before it and its event. -/
inductive Reachable (step : σ → ε → Option σ) (ok : σ → ε → Prop) (s₀ : σ) : σ → Prop
  | start : Reachable step ok s₀ s₀
  | next {s s' : σ} {e : ε} :
      Reachable step ok s₀ s → ok s e → step s e = some s' → Reachable step ok s₀ s'

/-- The condition that admits every step. -/
def anyStep : σ → ε → Prop := fun _ _ => True

instance (s : σ) (e : ε) : Decidable (anyStep s e) := inferInstanceAs (Decidable True)

namespace Reachable

variable {step : σ → ε → Option σ} {ok ok' : σ → ε → Prop} {s₀ s s' : σ}

/-- **Invariant rule.** What holds at the start and is kept by every admitted step
holds in every reachable state. -/
theorem invariant {I : σ → Prop} (h : Reachable step ok s₀ s) (hstart : I s₀)
    (hstep : ∀ s e s', I s → ok s e → step s e = some s' → I s') : I s := by
  induction h with
  | start => exact hstart
  | next _ hok hs ih => exact hstep _ _ _ ih hok hs

/-- The invariant rule when the step lemma also needs to know that the state before
the step was reachable. -/
theorem invariant' {I : σ → Prop} (h : Reachable step ok s₀ s) (hstart : I s₀)
    (hstep : ∀ s e s', Reachable step ok s₀ s → I s → ok s e → step s e = some s' → I s') :
    I s := by
  induction h with
  | start => exact hstart
  | next hr hok hs ih => exact hstep _ _ _ hr ih hok hs

/-- A weaker condition on the steps admits more runs. -/
theorem mono (hsub : ∀ s e, ok s e → ok' s e) (h : Reachable step ok s₀ s) :
    Reachable step ok' s₀ s := by
  induction h with
  | start => exact .start
  | next _ hok hs ih => exact .next ih (hsub _ _ hok) hs

theorem trans (h : Reachable step ok s₀ s) (h' : Reachable step ok s s') :
    Reachable step ok s₀ s' := by
  induction h' with
  | start => exact h
  | next _ hok hs ih => exact .next ih hok hs

/-- **Component rule.** Where a step of the machine is a step of a component, or leaves it as
it is, a run of the machine is a run of the component. -/
theorem project {σ' ε' : Type*} {step' : σ' → ε' → Option σ'} {ok' : σ' → ε' → Prop}
    (f : σ → σ') (h : Reachable step ok s₀ s)
    (hstep : ∀ s e s', ok s e → step s e = some s' →
      f s' = f s ∨ ∃ e', ok' (f s) e' ∧ step' (f s) e' = some (f s')) :
    Reachable step' ok' (f s₀) (f s) := by
  induction h with
  | start => exact .start
  | next _ hok hs ih =>
    rcases hstep _ _ _ hok hs with hsame | ⟨e', hok', hs'⟩
    · rw [hsame]
      exact ih
    · exact .next ih hok' hs'

/-- Executing a run whose steps are checked against the condition proves its last
state reachable. -/
theorem of_guarded_run [∀ s e, Decidable (ok s e)] {es : List ε}
    (h : run (fun s e => if ok s e then step s e else none) s₀ es = some s) :
    Reachable step ok s₀ s := by
  induction es generalizing s₀ with
  | nil =>
    obtain rfl := Option.some_inj.mp h
    exact .start
  | cons e es ih =>
    rw [run_cons, Option.bind_eq_some_iff] at h
    obtain ⟨s₁, hs₁, hrest⟩ := h
    split_ifs at hs₁ with hok
    exact (Reachable.next .start hok hs₁).trans (ih hrest)

/-- Executing a run whose events meet the condition in every state proves its last state
reachable. -/
theorem of_run_of_forall {es : List ε} (hok : ∀ e ∈ es, ∀ s, ok s e)
    (h : run step s₀ es = some s) : Reachable step ok s₀ s := by
  induction es generalizing s₀ with
  | nil =>
    obtain rfl := Option.some_inj.mp h
    exact .start
  | cons e es ih =>
    obtain ⟨hhead, htail⟩ := List.forall_mem_cons.mp hok
    rw [run_cons, Option.bind_eq_some_iff] at h
    obtain ⟨s₁, hs₁, hrest⟩ := h
    exact (Reachable.next .start (hhead _) hs₁).trans (ih htail hrest)

/-- An executed run proves its last state reachable. -/
theorem of_run {es : List ε} (h : run step s₀ es = some s) : Reachable step anyStep s₀ s := by
  have hguard : run (fun s e => if anyStep s e then step s e else none) s₀ es = some s := by
    simpa [anyStep] using h
  exact of_guarded_run hguard

end Reachable

/-! ### Machines that answer -/

section Results

variable {τ α β : Type*}

/-- What the operations return, one after the other. -/
def results (perform : σ → α → β × σ) : σ → List α → List β
  | _, [] => []
  | s, a :: as => (perform s a).1 :: results perform (perform s a).2 as

/-- **Simulation rule.** Two machines that answer alike in related states, and stay in related
states, answer alike in all runs. -/
theorem results_eq {perform : σ → α → β × σ} {perform' : τ → α → β × τ} {R : σ → τ → Prop}
    (hstep : ∀ s t a, R s t → (perform s a).1 = (perform' t a).1 ∧
      R (perform s a).2 (perform' t a).2) {s : σ} {t : τ} (h : R s t) (as : List α) :
    results perform s as = results perform' t as := by
  induction as generalizing s t with
  | nil => rfl
  | cons a as ih =>
    obtain ⟨hresult, hnext⟩ := hstep s t a h
    rw [results, results, hresult, ih hnext]

end Results

end Semantics
