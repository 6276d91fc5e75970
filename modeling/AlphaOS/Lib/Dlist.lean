import AlphaOS.Lib.Lseg
import Mathlib.Data.List.Nodup
import Mathlib.Logic.Function.Basic

set_option relaxedAutoImplicit false
set_option autoImplicit false

/-!
# Doubly linked lists

A heap of nodes with the fields `next` and `prev` is two functions on the nodes. A list whose head
is kept in a variable ends at a null node in both directions. Its operations are written as a
program writes them, with a test for the null node before each store.

## Main definitions

* `Linked.Dseg next prev p x l q y` — from `x`, whose predecessor is `p`, the links visit the nodes
  `l` and arrive at `y`, whose predecessor is `q`.
* `Linked.Dlist nil next prev x l` — `l` is the list with head `x`.
* `Linked.store` — `if (a != NULL) a->f = v`.

## Main results

* `Linked.Dlist.push`, `Linked.Dlist.snoc` — a node put before the head, a node put after the last.
* `Linked.Dlist.unlink` — a node taken out.
-/

namespace Linked

variable {α : Type*} {next prev next' prev' : α → α} {nil p q x y a b v : α} {l l₁ l₂ : List α}

/-! ## Segments -/

/-- Following `next` from `x` visits the nodes of the list and arrives at `y`; each node's `prev` is
the node before it, `p` for the first, and `q` is the node before `y`. -/
def Dseg (next prev : α → α) : α → α → List α → α → α → Prop
  | p, x, [], q, y => p = q ∧ x = y
  | p, x, a :: l, q, y => x = a ∧ prev a = p ∧ Dseg next prev a (next a) l q y

/-- A segment reads the links of its own nodes only. -/
lemma Dseg.congr : ∀ {p x : α} {l : List α}, Dseg next prev p x l q y →
    (∀ a ∈ l, next' a = next a ∧ prev' a = prev a) → Dseg next' prev' p x l q y := by
  intro p x l
  induction l generalizing p x with
  | nil => intro h _; exact h
  | cons a l ih =>
    rintro ⟨rfl, hp, h⟩ hag
    obtain ⟨hn, hpr⟩ := hag x List.mem_cons_self
    refine ⟨rfl, hpr.trans hp, ?_⟩
    rw [hn]
    exact ih h fun b hb => hag b (List.mem_cons_of_mem _ hb)

/-- A segment of a concatenation is two segments that meet. -/
lemma dseg_append : ∀ {p x : α} {l₁ : List α}, Dseg next prev p x (l₁ ++ l₂) q y ↔
    ∃ r z, Dseg next prev p x l₁ r z ∧ Dseg next prev r z l₂ q y := by
  intro p x l₁
  induction l₁ generalizing p x with
  | nil =>
    constructor
    · intro h
      exact ⟨p, x, ⟨rfl, rfl⟩, h⟩
    · rintro ⟨r, z, ⟨rfl, rfl⟩, h⟩
      exact h
  | cons a l₁ ih =>
    simp only [List.cons_append, Dseg, ih]
    constructor
    · rintro ⟨hx, hp, r, z, h₁, h₂⟩
      exact ⟨r, z, ⟨hx, hp, h₁⟩, h₂⟩
    · rintro ⟨r, z, ⟨hx, hp, h₁⟩, h₂⟩
      exact ⟨hx, hp, r, z, h₁, h₂⟩

/-- A node of a segment, with the segments before and after it. -/
lemma dseg_middle : Dseg next prev p x (l₁ ++ a :: l₂) q y ↔
    Dseg next prev p x l₁ (prev a) a ∧ Dseg next prev a (next a) l₂ q y := by
  rw [dseg_append]
  constructor
  · rintro ⟨r, z, h₁, rfl, rfl, h₂⟩
    exact ⟨h₁, h₂⟩
  · rintro ⟨h₁, h₂⟩
    exact ⟨prev a, a, h₁, rfl, rfl, h₂⟩

/-! ## Stores -/

variable [DecidableEq α]

/-- `if (a != NULL) a->f = v`. -/
def store (nil : α) (f : α → α) (a v : α) : α → α := if a = nil then f else Function.update f a v

/-- A store changes the field of one node. -/
lemma store_of_ne {f : α → α} (h : b ≠ a) : store nil f a v b = f b := by
  rw [store]
  split_ifs
  · rfl
  · rw [Function.update_of_ne h]

/-- The field that was stored to. -/
lemma store_self {f : α → α} (h : a ≠ nil) : store nil f a v a = v := by
  rw [store, if_neg h, Function.update_self]

/-- A store leaves the other nodes alone, and all of them when it is not made. -/
lemma store_of_nil_or_ne {f : α → α} (h : a = nil ∨ b ≠ a) : store nil f a v b = f b := by
  rcases h with rfl | h
  · rw [store, if_pos rfl]
  · exact store_of_ne h

/-- Redirecting the link that leaves a segment, whose first node has no predecessor. -/
lemma Dseg.redirect (h : Dseg next prev nil x l q y) (hnd : l.Nodup) (hnil : nil ∉ l) (v : α) :
    Dseg (store nil next q v) prev nil (if x = y then v else x) l q v ∨ (l ≠ [] ∧ x = y) := by
  rcases List.eq_nil_or_concat l with rfl | ⟨l, b, rfl⟩
  · obtain ⟨rfl, rfl⟩ := h
    left
    rw [if_pos rfl, store, if_pos rfl]
    exact ⟨rfl, rfl⟩
  · by_cases hxy : x = y
    · exact .inr ⟨by simp, hxy⟩
    left
    rw [if_neg hxy]
    rw [List.concat_eq_append] at h hnd hnil ⊢
    obtain ⟨h₁, rfl, rfl⟩ := dseg_middle.mp h
    have hb : b ∉ l := fun hmem => (List.nodup_append.mp hnd).2.2 b hmem b (by simp) rfl
    have hbnil : b ≠ nil := fun he => hnil (by simp [he])
    refine dseg_middle.mpr ⟨h₁.congr fun c hc => ⟨?_, rfl⟩, rfl, ?_⟩
    · exact store_of_ne fun he => hb (he ▸ hc)
    · exact store_self hbnil

/-- Giving the first node of a segment that ends at the null node another predecessor. -/
lemma Dseg.reparent (h : Dseg next prev p x l q nil) (hnd : l.Nodup) (hnil : nil ∉ l) (r : α) :
    ∃ q', Dseg next (store nil prev x r) r x l q' nil := by
  cases l with
  | nil =>
    obtain ⟨rfl, rfl⟩ := h
    exact ⟨r, rfl, rfl⟩
  | cons d l =>
    obtain ⟨rfl, -, h⟩ := h
    obtain ⟨hd, -⟩ := List.nodup_cons.mp hnd
    have hx : x ≠ nil := fun he => hnil (by simp [he])
    refine ⟨q, rfl, store_self hx, h.congr fun c hc => ⟨rfl, ?_⟩⟩
    exact store_of_ne fun he => hd (he ▸ hc)

/-! ## Lists -/

omit [DecidableEq α] in
/-- The list with head `x`: its nodes are distinct, and the links end at the null node in both
directions. -/
def Dlist (nil : α) (next prev : α → α) (x : α) (l : List α) : Prop :=
  l.Nodup ∧ nil ∉ l ∧ ∃ q, Dseg next prev nil x l q nil

omit [DecidableEq α] in
/-- A list reads the links of its own nodes only. -/
lemma Dlist.congr (h : Dlist nil next prev x l)
    (hag : ∀ a ∈ l, next' a = next a ∧ prev' a = prev a) : Dlist nil next' prev' x l := by
  obtain ⟨hnd, hnil, q, hseg⟩ := h
  exact ⟨hnd, hnil, q, hseg.congr hag⟩

omit [DecidableEq α] in
/-- The links forward, on their own. -/
lemma Dseg.lseg (h : Dseg next prev p x l q y) : Lseg next x l y := by
  induction l generalizing p x with
  | nil => exact h.2
  | cons a l ih =>
    obtain ⟨rfl, -, h⟩ := h
    exact ⟨rfl, ih h⟩

omit [DecidableEq α] in
/-- Following `next` from the head goes through the list. -/
lemma Dlist.lseg (h : Dlist nil next prev x l) : Lseg next x l nil := by
  obtain ⟨-, -, q, hseg⟩ := h
  exact hseg.lseg

omit [DecidableEq α] in
/-- The head of a list that is not empty is its first node. -/
lemma Dlist.head (h : Dlist nil next prev x l) (hx : x ≠ nil) :
    ∃ l', l = x :: l' ∧ prev x = nil := by
  obtain ⟨-, -, q, hseg⟩ := h
  cases l with
  | nil => exact absurd hseg.2 hx
  | cons a l =>
    obtain ⟨rfl, hp, -⟩ := hseg
    exact ⟨l, rfl, hp⟩

omit [DecidableEq α] in
/-- The head of a list is null or one of its nodes. -/
lemma Dlist.head_mem (h : Dlist nil next prev x l) : x = nil ∨ x ∈ l := by
  by_cases hx : x = nil
  · exact .inl hx
  · obtain ⟨l', rfl, -⟩ := h.head hx
    exact .inr List.mem_cons_self

omit [DecidableEq α] in
/-- The neighbours of a node of a list are null or nodes of the list, and not the node itself. -/
lemma Dlist.neighbours (h : Dlist nil next prev x (l₁ ++ a :: l₂)) :
    (next a = nil ∨ next a ∈ l₂) ∧ (prev a = nil ∨ prev a ∈ l₁) := by
  obtain ⟨-, -, q, hseg⟩ := h
  obtain ⟨h₁, h₂⟩ := dseg_middle.mp hseg
  constructor
  · cases l₂ with
    | nil => exact .inl h₂.2
    | cons d l => exact .inr (h₂.1 ▸ List.mem_cons_self)
  · rcases List.eq_nil_or_concat l₁ with rfl | ⟨l, b, rfl⟩
    · exact .inl h₁.1.symm
    · rw [List.concat_eq_append] at h₁ ⊢
      obtain ⟨-, hb, -⟩ := dseg_middle.mp h₁
      exact .inr (hb ▸ by simp)

omit [DecidableEq α] in
/-- A list whose head is null is empty. -/
lemma Dlist.eq_nil (h : Dlist nil next prev nil l) : l = [] := by
  obtain ⟨-, hnil, q, hseg⟩ := h
  cases l with
  | nil => rfl
  | cons a l =>
    obtain ⟨rfl, -⟩ := hseg
    exact absurd List.mem_cons_self hnil

/-- **Pushing a node**: it becomes the head, and the old head's predecessor. -/
theorem Dlist.push (h : Dlist nil next prev x l) (ha : a ∉ l) (hnil : a ≠ nil) :
    Dlist nil (Function.update next a x) (Function.update (store nil prev x a) a nil) a
      (a :: l) := by
  obtain ⟨hnd, hl, q, hseg⟩ := h
  obtain ⟨q', hseg'⟩ := hseg.reparent hnd hl a
  refine ⟨List.nodup_cons.mpr ⟨ha, hnd⟩, ?_, q', rfl, Function.update_self _ _ _, ?_⟩
  · rw [List.mem_cons, not_or]
    exact ⟨hnil.symm, hl⟩
  · rw [Function.update_self]
    refine hseg'.congr fun c hc => ?_
    have hca : c ≠ a := fun he => ha (he ▸ hc)
    exact ⟨Function.update_of_ne hca _ _, Function.update_of_ne hca _ _⟩

omit [DecidableEq α] in
/-- **Appending a node** to a list that is not empty: it is linked with the last node. -/
theorem Dlist.snoc (h : Dlist nil next prev x (l ++ [b])) (ha : a ∉ l ++ [b]) (hnil : a ≠ nil)
    (hnext : ∀ c ∈ l, next' c = next c) (hprev : ∀ c ∈ l ++ [b], prev' c = prev c)
    (hb : next' b = a) (hpa : prev' a = b) (hna : next' a = nil) :
    Dlist nil next' prev' x (l ++ [b] ++ [a]) := by
  obtain ⟨hnd, hl, q, hseg⟩ := h
  obtain ⟨h₁, -⟩ := dseg_middle.mp hseg
  have hlast : prev' b = prev b := hprev b (by simp)
  refine ⟨?_, ?_, a, ?_⟩
  · refine List.nodup_append.mpr ⟨hnd, by simp, fun c hc d hd heq => ?_⟩
    rw [List.mem_singleton] at hd
    exact ha (hd ▸ heq ▸ hc)
  · rw [List.mem_append, not_or]
    exact ⟨hl, by simpa using hnil.symm⟩
  · rw [List.append_assoc, List.singleton_append, dseg_middle, hlast]
    refine ⟨h₁.congr fun c hc => ⟨hnext c hc, hprev c (List.mem_append_left _ hc)⟩, hb, hpa, ?_⟩
    exact ⟨rfl, hna⟩

/-- **Unlinking a node**: its neighbours are linked to each other, and the head moves on if it was
the node. -/
theorem Dlist.unlink (h : Dlist nil next prev x (l₁ ++ a :: l₂)) :
    Dlist nil (store nil next (prev a) (next a)) (store nil prev (next a) (prev a))
      (if x = a then next a else x) (l₁ ++ l₂) := by
  obtain ⟨hnd, hnil, q, hseg⟩ := h
  obtain ⟨h₁, h₂⟩ := dseg_middle.mp hseg
  obtain ⟨hnd₁, hnd₂, hdis⟩ := List.nodup_append.mp hnd
  obtain ⟨ha₂, hnd₂⟩ := List.nodup_cons.mp hnd₂
  have hnil₁ : nil ∉ l₁ := fun hm => hnil (List.mem_append_left _ hm)
  have hnil₂ : nil ∉ l₂ := fun hm => hnil (List.mem_append_right _ (List.mem_cons_of_mem _ hm))
  have hx : l₁ ≠ [] → x ≠ a := by
    intro hne he
    cases l₁ with
    | nil => exact hne rfl
    | cons b l =>
      obtain ⟨rfl, -⟩ := h₁
      exact hdis x List.mem_cons_self a List.mem_cons_self he
  have hfirst := (h₁.redirect hnd₁ hnil₁ (next a)).resolve_right fun ⟨hne, he⟩ => hx hne he
  obtain ⟨q', hsecond⟩ := h₂.reparent hnd₂ hnil₂ (prev a)
  refine ⟨?_, fun hm => (List.mem_append.mp hm).elim hnil₁ hnil₂, q', dseg_append.mpr
    ⟨prev a, next a, hfirst.congr fun c hc => ⟨rfl, ?_⟩, hsecond.congr fun c hc => ⟨?_, rfl⟩⟩⟩
  · exact List.nodup_append.mpr
      ⟨hnd₁, hnd₂, fun c hc d hd => hdis c hc d (List.mem_cons_of_mem _ hd)⟩
  · -- the node after `a` is not one of those before it
    refine store_of_ne fun he => ?_
    cases l₂ with
    | nil =>
      obtain ⟨-, hend⟩ := h₂
      exact hnil₁ (hend ▸ he ▸ hc)
    | cons d l =>
      obtain ⟨hd, -⟩ := h₂
      exact hdis c hc d (by simp) (he.trans hd)
  · -- the node before `a` is not one of those after it
    refine store_of_ne fun he => ?_
    rcases List.eq_nil_or_concat l₁ with rfl | ⟨l, b, rfl⟩
    · obtain ⟨hend, -⟩ := h₁
      exact hnil₂ (hend ▸ he ▸ hc)
    · rw [List.concat_eq_append] at h₁ hdis
      obtain ⟨-, hb, -⟩ := dseg_middle.mp h₁
      exact hdis b (by simp) c (List.mem_cons_of_mem _ hc) (hb.trans he.symm)

end Linked
