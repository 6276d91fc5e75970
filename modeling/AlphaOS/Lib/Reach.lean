import Mathlib.Order.Basic

set_option relaxedAutoImplicit false
set_option autoImplicit false

/-!
# Reachable states of a guarded transition system

A system is given by its initial states, a step relation labelled by actions, and a guard on
the pairs (state, action). The guard says which steps are considered: with the guard `True`
these are all runs of the system, with a stronger guard only the runs each of whose steps
meets it.

## Main definitions

* `Transition.Reach` — the states reached by guarded steps from an initial state.
* `Transition.Run` — a run as the sequence of its states and actions.

## Main results

* `Transition.Reach.invariant` — a property of the initial states that every guarded step
  keeps holds of every reachable state.
* `Transition.Reach.of_guard_imp` — a weaker guard reaches more states.
* `Transition.Run.reach` — the states of a run are reachable.
-/

namespace Transition

variable {σ α : Type*} {init : σ → Prop} {step : σ → α → σ → Prop} {ok ok' : σ → α → Prop}

/-- The states reached from an initial state by steps that meet the guard `ok`. -/
inductive Reach (init : σ → Prop) (step : σ → α → σ → Prop) (ok : σ → α → Prop) : σ → Prop
  | start {s : σ} (h : init s) : Reach init step ok s
  | next {s s' : σ} {a : α} (h : Reach init step ok s) (hok : ok s a) (hs : step s a s') :
      Reach init step ok s'

/-- **The invariant rule**: what the initial states have and every guarded step keeps, every
reachable state has. -/
theorem Reach.invariant {I : σ → Prop} (h0 : ∀ s, init s → I s)
    (hstep : ∀ s a s', I s → ok s a → step s a s' → I s') {s : σ}
    (h : Reach init step ok s) : I s := by
  induction h with
  | start h => exact h0 _ h
  | next _ hok hs ih => exact hstep _ _ _ ih hok hs

/-- A weaker guard reaches at least as many states. -/
theorem Reach.of_guard_imp (himp : ∀ s a, ok s a → ok' s a) {s : σ}
    (h : Reach init step ok s) : Reach init step ok' s := by
  induction h with
  | start h => exact .start h
  | next _ hok hs ih => exact .next ih (himp _ _ hok) hs

/-- A run of `N` steps: `τ i` is the state before the action `a i`. -/
structure Run (init : σ → Prop) (step : σ → α → σ → Prop) (N : ℕ) (τ : ℕ → σ) (a : ℕ → α) :
    Prop where
  start : init (τ 0)
  step : ∀ i < N, step (τ i) (a i) (τ (i + 1))

/-- The states of a run are reachable. -/
theorem Run.reach {N : ℕ} {τ : ℕ → σ} {a : ℕ → α} (h : Run init step N τ a) {i : ℕ} (hi : i ≤ N) :
    Reach init step (fun _ _ => True) (τ i) := by
  induction i with
  | zero => exact .start h.start
  | succ i ih => exact (ih (by omega)).next trivial (h.step i (by omega))

end Transition
