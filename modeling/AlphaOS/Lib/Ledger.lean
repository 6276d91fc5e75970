import Mathlib.Logic.Function.Basic
import Mathlib.Tactic.SplitIfs

set_option relaxedAutoImplicit false
set_option autoImplicit false

/-!
# Ledgers

A ledger says which resource each place holds, beside a record of the resources in use. It is
sound when every held resource is recorded in use and no resource is held at two places.

## Main definitions

* `Ledger.Sound` — the invariant.
* `Ledger.Loose` — a resource recorded in use that no place holds: taken and not yet put, or
  reserved.

## Main results

* `Ledger.Sound.take`, `Ledger.Sound.put`, `Ledger.Sound.drop` — taking an unused resource, putting
  a loose one at an empty place, and giving a held one back keep a ledger sound.
* `Ledger.Loose.put`, `Ledger.Loose.drop` — the other loose resources stay loose.
-/

namespace Ledger

variable {P F : Type*} {own own' : P → Option F} {used used' : F → Prop} {p q : P} {f g : F}

/-- Held resources are in use, and each is held at one place. -/
structure Sound (own : P → Option F) (used : F → Prop) : Prop where
  used_of_own : ∀ {p f}, own p = some f → used f
  inj : ∀ {p q f}, own p = some f → own q = some f → p = q

/-- In use, and held nowhere. -/
def Loose (own : P → Option F) (used : F → Prop) (f : F) : Prop := used f ∧ ∀ p, own p ≠ some f

/-- Different places hold different resources. -/
lemma Sound.ne (h : Sound own used) (hp : own p = some f) (hq : own q = some g) (hne : p ≠ q) :
    f ≠ g := fun he => hne (h.inj hp (he ▸ hq))

/-- A loose resource differs from every held one. -/
lemma Loose.ne (h : Loose own used f) (hp : own p = some g) : f ≠ g := fun he => h.2 p (he ▸ hp)

/-- Recording more resources in use keeps a ledger sound. -/
lemma Sound.mono (h : Sound own used) (hu : ∀ f, used f → used' f) : Sound own used' :=
  ⟨fun hp => hu _ (h.used_of_own hp), h.inj⟩

/-- **Taking** an unused resource makes it loose. -/
theorem Sound.take (h : Sound own used) (hf : ¬ used f) (hu : ∀ g, used' g ↔ g = f ∨ used g) :
    Sound own used' ∧ Loose own used' f :=
  ⟨h.mono fun g hg => (hu g).mpr (.inr hg), (hu f).mpr (.inl rfl),
    fun _ hp => hf (h.used_of_own hp)⟩

/-- **Putting** a loose resource at a place. -/
theorem Sound.put [DecidableEq P] (h : Sound own used) (hf : Loose own used f) :
    Sound (Function.update own p (some f)) used := by
  refine ⟨fun {q g} hq => ?_, fun {q r g} hq hr => ?_⟩
  · rw [Function.update_apply] at hq
    split_ifs at hq
    · exact Option.some.inj hq ▸ hf.1
    · exact h.used_of_own hq
  · rw [Function.update_apply] at hq hr
    split_ifs at hq hr with hqp hrp hrp
    · rw [hqp, hrp]
    · exact absurd (Option.some.inj hq ▸ hr) (hf.2 r)
    · exact absurd (Option.some.inj hr ▸ hq) (hf.2 q)
    · exact h.inj hq hr

/-- **Giving back** the resource a place holds. -/
theorem Sound.drop [DecidableEq P] (h : Sound own used) (hp : own p = some f)
    (hu : ∀ g, g ≠ f → used g → used' g) : Sound (Function.update own p none) used' := by
  refine ⟨fun {q g} hq => ?_, fun {q r g} hq hr => ?_⟩
  · rw [Function.update_apply] at hq
    split_ifs at hq with hqp
    exact hu g (fun he => hqp (h.inj hq (he ▸ hp))) (h.used_of_own hq)
  · rw [Function.update_apply] at hq hr
    split_ifs at hq hr
    exact h.inj hq hr

/-- A loose resource stays loose when another one is put at a place. -/
lemma Loose.put [DecidableEq P] (h : Loose own used g) (hne : g ≠ f) :
    Loose (Function.update own p (some f)) used g := by
  refine ⟨h.1, fun q hq => ?_⟩
  rw [Function.update_apply] at hq
  split_ifs at hq
  · exact hne (Option.some.inj hq).symm
  · exact h.2 q hq

/-- A loose resource stays loose when a place gives another one back. -/
lemma Loose.drop [DecidableEq P] (h : Loose own used g) (hu : used' g) :
    Loose (Function.update own p none) used' g := by
  refine ⟨hu, fun q hq => ?_⟩
  rw [Function.update_apply] at hq
  split_ifs at hq
  exact h.2 q hq

end Ledger
