import Mathlib.Data.Nat.Notation
import Mathlib.Order.Basic

set_option relaxedAutoImplicit false
set_option autoImplicit false

/-!
# Programs that may not return

Programs on an explicit state with loops that wait for something outside the program. Such a loop
may wait forever, so a program is run with a bound on the rounds of each of its waiting loops; a
larger bound does not change what a run that ended has given.

## Main definitions

* `Bounded.Prog` — a program, with the fact that its results do not depend on the bound.
* `Bounded.Prog.poll` — a loop that repeats an action until it gives a value.
* `Bounded.Prog.forRange` — a counting loop of programs.
* `Bounded.Returns`, `Bounded.Ends` — the program returns with a result; total correctness: it
  returns, and its result satisfies a condition.
* `Bounded.Hangs` — the program never returns.

## Main results

* `Bounded.ends_bind`, `ends_poll`, `ends_forRange` — the rules of total correctness.
* `Bounded.hangs_bind_of_ends`, `hangs_poll`, `hangs_forRange` — the rules for programs that never
  return.
* `Bounded.Hangs.not_ends` — the two exclude each other.
-/

namespace Bounded

/-- A program on states `σ` with values in `α`. With the bound `n` on the rounds of its waiting
loops it gives a value and the state at its end, or runs out of rounds. -/
structure Prog (σ α : Type*) where
  run : ℕ → σ → Option (α × σ)
  mono : ∀ {n m s r}, n ≤ m → run n s = some r → run m s = some r

namespace Prog

variable {σ α β : Type*}

/-- The program that returns a value. -/
def ret (a : α) : Prog σ α where
  run _ s := some (a, s)
  mono _ h := h

/-- A single action on the state. -/
def act (f : σ → α × σ) : Prog σ α where
  run _ s := some (f s)
  mono _ h := h

/-- One program after another. -/
def bind (p : Prog σ α) (q : α → Prog σ β) : Prog σ β where
  run n s := (p.run n s).bind fun r => (q r.1).run n r.2
  mono := by
    intro n m s r hnm h
    obtain ⟨a, ha, hq⟩ := Option.bind_eq_some_iff.mp h
    rw [p.mono hnm ha]
    exact (q a.1).mono hnm hq

instance : Monad (Prog σ) where
  pure := ret
  bind := bind

/-- Repeat an action until it gives a value, for at most `n` rounds. -/
def pollRun (f : σ → Option α × σ) : ℕ → σ → Option (α × σ)
  | 0, _ => none
  | n + 1, s =>
    match (f s).1 with
    | some a => some (a, (f s).2)
    | none => pollRun f n (f s).2

/-- A loop that repeats an action until it gives a value. -/
def poll (f : σ → Option α × σ) : Prog σ α where
  run := pollRun f
  mono := by
    intro n
    induction n with
    | zero => intro m s r _ h; exact absurd h nofun
    | succ n ih =>
      intro m s r hnm h
      obtain ⟨m, rfl⟩ : ∃ k, m = k + 1 := ⟨m - 1, by omega⟩
      rw [pollRun] at h ⊢
      cases hf : (f s).1 with
      | some a => rw [hf] at h; exact h
      | none =>
        rw [hf] at h
        exact ih (Nat.le_of_succ_le_succ hnm) h

/-- `for (k = lo; k < lo + n; k++)` with a program as its body. -/
def forRange (body : ℕ → β → Prog σ β) : ℕ → ℕ → β → Prog σ β
  | _, 0, b => ret b
  | lo, n + 1, b => bind (body lo b) (forRange body (lo + 1) n)

end Prog

open Prog

variable {σ α β : Type*} {s : σ}

/-- **Total correctness**: the program returns with a value and a state that satisfy `Q`. -/
def Ends (p : Prog σ α) (Q : α → σ → Prop) (s : σ) : Prop :=
  ∃ n a s', p.run n s = some (a, s') ∧ Q a s'

/-- **The program never returns.** -/
def Hangs (p : Prog σ α) (s : σ) : Prop := ∀ n, p.run n s = none

/-- The program returns with the value `a` and the state `s'`. -/
def Returns (p : Prog σ α) (s : σ) (a : α) (s' : σ) : Prop := ∃ n, p.run n s = some (a, s')

/-- The result of a program does not depend on the bound. -/
lemma run_unique {p : Prog σ α} {n m : ℕ} {r r' : α × σ} (h : p.run n s = some r)
    (h' : p.run m s = some r') : r = r' := by
  rcases Nat.le_total n m with hnm | hmn
  · exact Option.some.inj ((p.mono hnm h).symm.trans h')
  · exact Option.some.inj (h.symm.trans (p.mono hmn h'))

/-- **A program that returns does not hang.** -/
lemma Hangs.not_ends {p : Prog σ α} (h : Hangs p s) (Q : α → σ → Prop) : ¬Ends p Q s := by
  intro hends
  obtain ⟨n, a, s', hrun, -⟩ := hends
  exact absurd ((h n).symm.trans hrun) nofun

/-- A program that is totally correct returns. -/
lemma Ends.returns {p : Prog σ α} {Q : α → σ → Prop} (h : Ends p Q s) :
    ∃ a s', Returns p s a s' ∧ Q a s' := by
  obtain ⟨n, a, s', hrun, hq⟩ := h
  exact ⟨a, s', ⟨n, hrun⟩, hq⟩

/-- What a totally correct program returns satisfies the condition. -/
lemma Returns.post {p : Prog σ α} {Q : α → σ → Prop} {a : α} {s' : σ} (h : Returns p s a s')
    (hends : Ends p Q s) : Q a s' := by
  obtain ⟨n, hrun⟩ := h
  obtain ⟨m, a', s'', hrun', hq⟩ := hends
  have heq := run_unique hrun hrun'
  rw [Prod.mk.injEq] at heq
  obtain ⟨rfl, rfl⟩ := heq
  exact hq

/-- A weaker condition. -/
lemma Ends.mono {p : Prog σ α} {Q Q' : α → σ → Prop} (h : Ends p Q s)
    (hQ : ∀ a s', Q a s' → Q' a s') : Ends p Q' s := by
  obtain ⟨n, a, s', hrun, hq⟩ := h
  exact ⟨n, a, s', hrun, hQ a s' hq⟩

/-! ## The rules of total correctness -/

/-- A program that only returns. -/
lemma ends_ret {a : α} {Q : α → σ → Prop} (h : Q a s) : Ends (ret a) Q s := ⟨0, a, s, rfl, h⟩

/-- A program of one action. -/
lemma ends_act {f : σ → α × σ} {Q : α → σ → Prop} (h : Q (f s).1 (f s).2) : Ends (act f) Q s :=
  ⟨0, (f s).1, (f s).2, rfl, h⟩

/-- **The rule for one program after another.** -/
theorem ends_bind {p : Prog σ α} {q : α → Prog σ β} {Q : β → σ → Prop}
    (h : Ends p (fun a s' => Ends (q a) Q s') s) : Ends (bind p q) Q s := by
  obtain ⟨n, a, s', hp, m, b, s'', hq, hQ⟩ := h
  refine ⟨max n m, b, s'', ?_, hQ⟩
  have hp' := p.mono (Nat.le_max_left n m) hp
  have hq' := (q a).mono (Nat.le_max_right n m) hq
  exact Option.bind_eq_some_iff.mpr ⟨(a, s'), hp', hq'⟩

/-- A program that begins with an action. -/
lemma ends_act_bind {f : σ → α × σ} {q : α → Prog σ β} {Q : β → σ → Prop}
    (h : Ends (q (f s).1) Q (f s).2) : Ends (bind (act f) q) Q s :=
  ends_bind (ends_act h)

/-- **The rule for a waiting loop**: as long as the action gives no value, it keeps the invariant
and a measure goes down. -/
theorem ends_poll {f : σ → Option α × σ} {Q : α → σ → Prop} {I : σ → Prop} (μ : σ → ℕ)
    (hsome : ∀ s a, I s → (f s).1 = some a → Q a (f s).2)
    (hnone : ∀ s, I s → (f s).1 = none → I (f s).2 ∧ μ (f s).2 < μ s) (h : I s) :
    Ends (poll f) Q s := by
  induction hμ : μ s using Nat.strongRecOn generalizing s with
  | ind k ih =>
    cases hf : (f s).1 with
    | some a =>
      refine ⟨1, a, (f s).2, ?_, hsome s a h hf⟩
      change pollRun f 1 s = _
      rw [pollRun, hf]
    | none =>
      obtain ⟨hI, hlt⟩ := hnone s h hf
      obtain ⟨n, a, s', hrun, hQ⟩ := ih _ (hμ ▸ hlt) hI rfl
      refine ⟨n + 1, a, s', ?_, hQ⟩
      change pollRun f (n + 1) s = _
      rw [pollRun, hf]
      exact hrun

/-- **The rule for a counting loop**: an invariant of the counter, the value and the state that
every round keeps. -/
theorem ends_forRange {f : ℕ → β → Prog σ β} {I : ℕ → β → σ → Prop} {l n : ℕ} {b : β}
    (hbody : ∀ k b s, l ≤ k → k < l + n → I k b s → Ends (f k b) (I (k + 1)) s)
    (h : I l b s) : Ends (forRange f l n b) (I (l + n)) s := by
  induction n generalizing l b s with
  | zero => exact ends_ret h
  | succ n ih =>
    refine ends_bind ((hbody l b s (Nat.le_refl l) (by omega) h).mono fun b' s' h' => ?_)
    have hrest := ih (fun k b s h₁ h₂ => hbody k b s (by omega) (by omega)) h'
    rw [show l + 1 + n = l + (n + 1) by omega] at hrest
    exact hrest

/-! ## Programs that never return -/

/-- A program whose first part hangs does so itself. -/
lemma hangs_bind_left {p : Prog σ α} {q : α → Prog σ β} (h : Hangs p s) : Hangs (bind p q) s := by
  intro n
  change (p.run n s).bind _ = none
  rw [h n]
  rfl

/-- **A program hangs** that gets, by a part that returns, to a part that never does. -/
theorem hangs_bind_of_ends {p : Prog σ α} {q : α → Prog σ β}
    (h : Ends p (fun a s' => Hangs (q a) s') s) : Hangs (bind p q) s := by
  obtain ⟨m, a, s', hp, hq⟩ := h
  intro n
  cases hn : p.run n s with
  | none =>
    change (p.run n s).bind _ = none
    rw [hn]
    rfl
  | some r =>
    change (p.run n s).bind _ = none
    rw [hn, run_unique hn hp]
    exact hq n

/-- **A waiting loop hangs** on an invariant under which its action gives no value. -/
theorem hangs_poll {f : σ → Option α × σ} {I : σ → Prop}
    (hf : ∀ s, I s → (f s).1 = none ∧ I (f s).2) (h : I s) : Hangs (poll f) s := by
  intro n
  change pollRun f n s = none
  induction n generalizing s with
  | zero => rfl
  | succ n ih =>
    rw [pollRun, (hf s h).1]
    exact ih (hf s h).2

/-- **A counting loop hangs** in the first round that hangs. -/
theorem hangs_forRange {f : ℕ → β → Prog σ β} {I : ℕ → β → σ → Prop} {l n m : ℕ} {b : β}
    (hbody : ∀ k b s, l ≤ k → k < l + m → I k b s → Ends (f k b) (I (k + 1)) s)
    (hhang : ∀ b s, I (l + m) b s → Hangs (f (l + m) b) s) (hm : m < n) (h : I l b s) :
    Hangs (forRange f l n b) s := by
  induction m generalizing l n b s with
  | zero =>
    obtain ⟨n, rfl⟩ : ∃ k, n = k + 1 := ⟨n - 1, by omega⟩
    exact hangs_bind_left (hhang b s h)
  | succ m ih =>
    obtain ⟨n, rfl⟩ : ∃ k, n = k + 1 := ⟨n - 1, by omega⟩
    refine hangs_bind_of_ends ((hbody l b s (Nat.le_refl l) (by omega) h).mono fun b' s' h' => ?_)
    rw [show l + (m + 1) = l + 1 + m by omega] at hhang
    exact ih (fun k b s h₁ h₂ => hbody k b s (by omega) (by omega)) hhang (by omega) h'

end Bounded
