import Mathlib.Data.Nat.Notation
import Mathlib.Data.Sum.Basic

set_option relaxedAutoImplicit false
set_option autoImplicit false

/-!
# Counting loops

`for (k = lo; k < lo + n; k++)` over an explicit state, with and without a `return` in the body.

## Main definitions

* `Loop.forRange` — a loop whose body may leave the function with a result.
* `Loop.forEach` — a loop whose body only changes the state.
* `Loop.attempt` — a loop whose body may have no result.
* `Loop.written` — what the iterations of a loop write.

## Main results

* `Loop.forRange_rule`, `Loop.forEach_rule` — the rules for loop invariants.
* `Loop.forRange_nest`, `Loop.forEach_nest` — two nested loops over the digits of a counter are one
  loop over the counter.
* `Loop.forRange_break` — a loop that breaks off when a condition is met skips the other iterations.
* `Loop.attempt_write` — a loop that writes on the way is the loop without the writing, and the
  writing.
-/

namespace Loop

variable {σ ρ : Type*}

/-- Run `body k` for `k = lo, …, lo + n - 1`, as long as it does not return. -/
def forRange (body : ℕ → σ → ρ ⊕ σ) : ℕ → ℕ → σ → ρ ⊕ σ
  | _, 0, s => .inr s
  | lo, n + 1, s =>
    match body lo s with
    | .inl r => .inl r
    | .inr s' => forRange body (lo + 1) n s'

/-- Run `body k` for `k = lo, …, lo + n - 1`. -/
def forEach (body : ℕ → σ → σ) : ℕ → ℕ → σ → σ
  | _, 0, s => s
  | lo, n + 1, s => forEach body (lo + 1) n (body lo s)

/-- What holds of an outcome: `R` of what was returned, `I` of the state otherwise. -/
def Ends (R : ρ → Prop) (I : σ → Prop) (x : ρ ⊕ σ) : Prop := Sum.elim R I x

/-- The outcome of a loop that has returned. -/
@[simp] lemma ends_inl {R : ρ → Prop} {I : σ → Prop} {r : ρ} :
    Ends R I (.inl r : ρ ⊕ σ) ↔ R r := Iff.rfl

/-- The outcome of a loop that has not returned. -/
@[simp] lemma ends_inr {R : ρ → Prop} {I : σ → Prop} {s : σ} :
    Ends R I (.inr s : ρ ⊕ σ) ↔ I s := Iff.rfl

/-- Weakening what holds of an outcome. -/
lemma Ends.mono {R R' : ρ → Prop} {I I' : σ → Prop} {x : ρ ⊕ σ} (h : Ends R I x)
    (hR : ∀ r, R r → R' r) (hI : ∀ s, I s → I' s) : Ends R' I' x := by
  cases x with
  | inl r => exact hR r h
  | inr s => exact hI s h

/-- Two facts about an outcome. -/
lemma Ends.and {R R' : ρ → Prop} {I I' : σ → Prop} {x : ρ ⊕ σ} (h : Ends R I x)
    (h' : Ends R' I' x) : Ends (fun r => R r ∧ R' r) (fun s => I s ∧ I' s) x := by
  cases x with
  | inl r => exact ⟨h, h'⟩
  | inr s => exact ⟨h, h'⟩

/-- **The invariant rule.** An invariant kept by every iteration that does not return, and giving
`R` for every one that does, holds at the end or gives `R`. -/
theorem forRange_rule {body : ℕ → σ → ρ ⊕ σ} {R : ρ → Prop} {I : ℕ → σ → Prop} {lo n : ℕ} {s : σ}
    (hbody : ∀ k s, lo ≤ k → k < lo + n → I k s → Ends R (I (k + 1)) (body k s)) (h : I lo s) :
    Ends R (I (lo + n)) (forRange body lo n s) := by
  induction n generalizing lo s with
  | zero => exact h
  | succ n ih =>
    have hlo := hbody lo s (Nat.le_refl lo) (by omega) h
    rw [forRange]
    cases hb : body lo s with
    | inl r =>
      rw [hb] at hlo
      exact hlo
    | inr s' =>
      rw [hb] at hlo
      have := ih (fun k s h₁ h₂ => hbody k s (by omega) (by omega)) hlo
      rw [show lo + 1 + n = lo + (n + 1) by omega] at this
      exact this

/-- **The invariant rule** of a loop that does not return. -/
theorem forEach_rule {body : ℕ → σ → σ} {I : ℕ → σ → Prop} {lo n : ℕ} {s : σ}
    (hbody : ∀ k s, lo ≤ k → k < lo + n → I k s → I (k + 1) (body k s)) (h : I lo s) :
    I (lo + n) (forEach body lo n s) := by
  induction n generalizing lo s with
  | zero => exact h
  | succ n ih =>
    have hlo := hbody lo s (Nat.le_refl lo) (by omega) h
    have := ih (fun k s h₁ h₂ => hbody k s (by omega) (by omega)) hlo
    rw [show lo + 1 + n = lo + (n + 1) by omega] at this
    exact this

/-- A loop that keeps a record beside its state is the loop on the state. -/
lemma forEach_proj {τ : Type*} (g : τ → σ) {body : ℕ → σ → σ} {body' : ℕ → τ → τ}
    (h : ∀ k t, g (body' k t) = body k (g t)) (lo n : ℕ) (t : τ) :
    g (forEach body' lo n t) = forEach body lo n (g t) := by
  induction n generalizing lo t with
  | zero => rfl
  | succ n ih => rw [forEach, forEach, ih, h]

/-! ## Nested loops -/

/-- A loop in two parts. -/
lemma forRange_add (body : ℕ → σ → ρ ⊕ σ) (a b : ℕ) (lo : ℕ) (s : σ) :
    forRange body lo (a + b) s =
      (forRange body lo a s).elim Sum.inl fun s' => forRange body (lo + a) b s' := by
  induction a generalizing lo s with
  | zero => rw [Nat.zero_add]; rfl
  | succ a ih =>
    rw [show a + 1 + b = a + b + 1 by omega, forRange, forRange]
    cases body lo s with
    | inl r => rfl
    | inr s' =>
      dsimp only
      rw [ih, show lo + 1 + a = lo + (a + 1) by omega]

/-- A loop with its counter shifted. -/
lemma forRange_shift (body : ℕ → σ → ρ ⊕ σ) (c lo n : ℕ) (s : σ) :
    forRange (fun k => body (c + k)) lo n s = forRange body (c + lo) n s := by
  induction n generalizing lo s with
  | zero => rfl
  | succ n ih =>
    rw [forRange, forRange]
    cases body (c + lo) s with
    | inl r => rfl
    | inr s' => exact ih (lo + 1) s'

/-- **Two nested loops** over the digits of a counter are one loop over the counter. -/
theorem forRange_nest (body : ℕ → σ → ρ ⊕ σ) (m : ℕ) : ∀ (n lo : ℕ) (s : σ),
    forRange (fun i => forRange (fun j => body (m * i + j)) 0 m) lo n s =
      forRange body (m * lo) (m * n) s := by
  intro n
  induction n with
  | zero => intro lo s; rfl
  | succ n ih =>
    intro lo s
    rw [forRange, forRange_shift, Nat.add_zero, Nat.mul_succ, Nat.add_comm (m * n), forRange_add]
    cases forRange body (m * lo) m s with
    | inl r => rfl
    | inr s' =>
      dsimp only [Sum.elim_inr]
      rw [ih, Nat.mul_succ]

/-- A loop without `return` is one that never returns. -/
lemma forRange_inr (body : ℕ → σ → σ) (lo n : ℕ) (s : σ) :
    forRange (fun k s => (.inr (body k s) : ρ ⊕ σ)) lo n s = .inr (forEach body lo n s) := by
  induction n generalizing lo s with
  | zero => rfl
  | succ n ih => exact ih (lo + 1) (body lo s)

/-- **Two nested loops** over the digits of a counter, without `return`. -/
theorem forEach_nest (body : ℕ → σ → σ) (m n lo : ℕ) (s : σ) :
    forEach (fun i => forEach (fun j => body (m * i + j)) 0 m) lo n s =
      forEach body (m * lo) (m * n) s := by
  have hinner : (fun i => forRange (fun j s => (.inr (body (m * i + j) s) : Empty ⊕ σ)) 0 m) =
      fun i s => .inr (forEach (fun j => body (m * i + j)) 0 m s) := by
    funext i s
    exact forRange_inr (fun j => body (m * i + j)) 0 m s
  have h := forRange_nest (fun k s => (.inr (body k s) : Empty ⊕ σ)) m n lo s
  rw [hinner, forRange_inr, forRange_inr] at h
  exact Sum.inr.inj h

/-- A loop whose iterations leave the state alone. -/
lemma forEach_of_fixed {body : ℕ → σ → σ} {s : σ} (h : ∀ k, body k s = s) (lo n : ℕ) :
    forEach body lo n s = s := by
  induction n generalizing lo with
  | zero => rfl
  | succ n ih => rw [forEach, h, ih]

/-- **A loop that breaks off** when a condition on the state is met skips the other iterations. -/
theorem forRange_break (body : ℕ → σ → σ) (P : σ → Prop) [DecidablePred P] (lo n : ℕ) (s : σ) :
    (forRange (fun k s => if P s then .inl s else .inr (body k s)) lo n s).elim id id =
      forEach (fun k s => if P s then s else body k s) lo n s := by
  induction n generalizing lo s with
  | zero => rfl
  | succ n ih =>
    rw [forRange, forEach]
    by_cases hP : P s
    · have hfixed : ∀ k, (if P s then s else body k s) = s := fun k => if_pos hP
      have hrest : forEach (fun k s => if P s then s else body k s) (lo + 1) n s = s :=
        forEach_of_fixed hfixed (lo + 1) n
      rw [if_pos hP, hfixed, hrest]
      rfl
    · rw [if_neg hP, if_neg hP]
      exact ih (lo + 1) (body lo s)

/-! ## Loops that write -/

section Writing

variable {α τ : Type*}

/-- Run `body k` for `k = lo, …, lo + n - 1`, as long as there is a result. -/
def attempt (body : ℕ → σ → Option σ) : ℕ → ℕ → σ → Option σ
  | _, 0, s => some s
  | lo, n + 1, s => (body lo s).bind (attempt body (lo + 1) n)

/-- What the iterations of a loop write, where iteration `k` writes `out k` of the state it finds.
-/
def written (body : ℕ → σ → σ) (out : ℕ → σ → List α) : ℕ → ℕ → σ → List α
  | _, 0, _ => []
  | lo, n + 1, s => out lo s ++ written body out (lo + 1) n (body lo s)

/-- **A loop that writes on the way** is the loop without the writing, and then the writing. Only
the writing can have no result, and what is written depends on the state alone.

**Proof sketch.** Induction on the number of iterations: the first writes its part, and the others
the rest. -/
theorem attempt_write {body : ℕ → σ → σ} {out : ℕ → σ → List α} {write : τ → α → Option τ}
    {step : ℕ → σ × τ → Option (σ × τ)}
    (hstep : ∀ k s t, step k (s, t) = ((out k s).foldlM write t).map (Prod.mk (body k s)))
    (lo n : ℕ) (s : σ) (t : τ) :
    attempt step lo n (s, t) =
      ((written body out lo n s).foldlM write t).map (Prod.mk (forEach body lo n s)) := by
  induction n generalizing lo s t with
  | zero => rfl
  | succ n ih =>
    rw [attempt, written, forEach, hstep, List.foldlM_append]
    cases hout : (out lo s).foldlM write t with
    | none => rfl
    | some t' => exact ih (lo + 1) (body lo s) t'

/-- **What a loop writes**, when an invariant says what each iteration writes. -/
theorem written_eq {body : ℕ → σ → σ} {out : ℕ → σ → List α} {I : ℕ → σ → Prop}
    {texts : ℕ → List α} {lo n : ℕ} {s : σ}
    (hbody : ∀ k s, lo ≤ k → k < lo + n → I k s → I (k + 1) (body k s) ∧ out k s = texts k)
    (h : I lo s) : written body out lo n s = (List.range' lo n).flatMap texts := by
  induction n generalizing lo s with
  | zero => rfl
  | succ n ih =>
    obtain ⟨hnext, hout⟩ := hbody lo s (Nat.le_refl lo) (by omega) h
    rw [written, hout, List.range'_succ, List.flatMap_cons,
      ih (fun k s h₁ h₂ => hbody k s (by omega) (by omega)) hnext]

end Writing

end Loop
