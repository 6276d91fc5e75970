import Mathlib.Data.List.Nodup
import Mathlib.Logic.Function.Iterate

set_option relaxedAutoImplicit false
set_option autoImplicit false

/-!
# Singly linked lists: segments, rings and walks

A heap of nodes linked by a field `next` is a function `next : α → α` on the nodes. The same
field carries two shapes: a list that ends at a null node, and a ring that comes back to the
node it starts from. Both are segments (`Linked.Lseg`) with a chosen end. A `while` loop that
follows the field until a test succeeds is the bounded walk `Linked.walk`.

## Main definitions

* `Linked.Lseg next x l y` — following `next` from `x` visits the nodes `l` and arrives at `y`.
* `Linked.OnList nil next x a` — the list that begins at `x` comes to `a`.
* `Linked.Ring next c l` — the nodes `c :: l` are distinct and form one cycle.
* `Linked.walk next p n x` — the first of the nodes `x, next x, …` with `p`, if it is among
  the first `n`.

## Main results

* `Linked.walk_of_lseg`, `Linked.walk_eq_none_of_closed` — when a walk finds its node, and
  when it never does.
* `Linked.Ring.rotate`, `Linked.Ring.insert_before`, `Linked.Ring.remove` — a ring seen from
  another node, with a node spliced in before its start, with its start spliced out.
-/

namespace Linked

variable {α : Type*}

/-! ## Segments -/

/-- Following `next` from `x` visits exactly the nodes of the list, in order, and arrives at
the last argument. -/
def Lseg (next : α → α) : α → List α → α → Prop
  | x, [], y => x = y
  | x, a :: l, y => x = a ∧ Lseg next (next a) l y

/-- The empty segment. -/
@[simp] lemma lseg_nil {next : α → α} {x y : α} : Lseg next x [] y ↔ x = y := Iff.rfl

/-- A segment from its first node on. -/
@[simp] lemma lseg_cons {next : α → α} {x a y : α} {l : List α} :
    Lseg next x (a :: l) y ↔ x = a ∧ Lseg next (next a) l y := Iff.rfl

/-- A segment of a concatenation is two segments that meet. -/
lemma lseg_append {next : α → α} {y : α} {l₁ l₂ : List α} :
    ∀ {x : α}, Lseg next x (l₁ ++ l₂) y ↔ ∃ z, Lseg next x l₁ z ∧ Lseg next z l₂ y := by
  induction l₁ with
  | nil => intro x; simp
  | cons a l₁ ih =>
    intro x
    simp only [List.cons_append, lseg_cons, ih]
    constructor
    · rintro ⟨rfl, z, h₁, h₂⟩
      exact ⟨z, ⟨rfl, h₁⟩, h₂⟩
    · rintro ⟨z, ⟨rfl, h₁⟩, h₂⟩
      exact ⟨rfl, z, h₁, h₂⟩

/-- A segment with one more node at its end. -/
lemma lseg_concat {next : α → α} {x a y : α} {l : List α} :
    Lseg next x (l ++ [a]) y ↔ Lseg next x l a ∧ next a = y := by
  rw [lseg_append]
  constructor
  · rintro ⟨z, h, rfl, h'⟩
    exact ⟨h, h'⟩
  · rintro ⟨h, h'⟩
    exact ⟨a, h, rfl, h'⟩

/-- A segment reads `next` at its own nodes only. -/
lemma Lseg.congr {next next' : α → α} {y : α} {l : List α} :
    ∀ {x : α}, Lseg next x l y → (∀ a ∈ l, next' a = next a) → Lseg next' x l y := by
  induction l with
  | nil => intro x h _; exact h
  | cons a l ih =>
    rintro x ⟨rfl, h⟩ hag
    refine ⟨rfl, ?_⟩
    rw [hag x List.mem_cons_self]
    exact ih h fun b hb => hag b (List.mem_cons_of_mem _ hb)

/-- Changing the link of a node off a segment leaves the segment. -/
lemma Lseg.update [DecidableEq α] {next : α → α} {x y b v : α} {l : List α}
    (h : Lseg next x l y) (hb : b ∉ l) : Lseg (Function.update next b v) x l y :=
  h.congr fun a ha => Function.update_of_ne (fun hab : a = b => hb (hab ▸ ha)) _ _

/-- Redirecting the link of one node of a segment: the nodes after it are replaced. -/
lemma Lseg.redirect [DecidableEq α] {next : α → α} {x y y' a v : α} {l r r' : List α}
    (h : Lseg next x (l ++ a :: r) y) (hl : a ∉ l) (hv : Lseg next v r' y') (hr : a ∉ r') :
    Lseg (Function.update next a v) x (l ++ a :: r') y' := by
  obtain ⟨z, h₁, rfl, -⟩ := lseg_append.mp h
  refine lseg_append.mpr ⟨z, h₁.update hl, rfl, ?_⟩
  rw [Function.update_self]
  exact hv.update hr

/-- A nonempty segment starts at its first node. -/
lemma Lseg.eq_head {next : α → α} {x a y : α} {l : List α} (h : Lseg next x (a :: l) y) :
    x = a := h.1

/-- A segment does not leave a set of nodes that is closed under `next`. -/
lemma Lseg.mem_of_closed {next : α → α} {S : α → Prop} (hS : ∀ a, S a → S (next a)) {y : α}
    {l : List α} : ∀ {x : α}, Lseg next x l y → S x → S y := by
  induction l with
  | nil => intro x h hx; exact h ▸ hx
  | cons a l ih =>
    rintro x ⟨rfl, h⟩ hx
    exact ih h (hS x hx)

/-- Every node of a segment is some iterate of `next` from its start. -/
lemma Lseg.exists_iterate {next : α → α} {y : α} {l : List α} :
    ∀ {x : α}, Lseg next x l y → ∀ a ∈ l, ∃ k, next^[k] x = a := by
  induction l with
  | nil => intro x _ a ha; simp at ha
  | cons b l ih =>
    rintro x ⟨rfl, h⟩ a ha
    rcases List.mem_cons.mp ha with rfl | ha
    · exact ⟨0, rfl⟩
    · obtain ⟨k, hk⟩ := ih h a ha
      exact ⟨k + 1, by rw [Function.iterate_succ_apply, hk]⟩

/-- The nodes before the first arrival at a node are determined by where the segment starts. -/
lemma Lseg.eq_of_notMem {next : α → α} {y : α} {l : List α} :
    ∀ {x : α} {l' : List α}, Lseg next x l y → y ∉ l → Lseg next x l' y → y ∉ l' → l = l' := by
  induction l with
  | nil =>
    rintro x l' rfl _ h' hy'
    cases l' with
    | nil => rfl
    | cons b l' => exact absurd (h'.eq_head ▸ List.mem_cons_self) hy'
  | cons a l ih =>
    rintro x l' ⟨rfl, h⟩ hy h' hy'
    cases l' with
    | nil => exact absurd (lseg_nil.mp h' ▸ List.mem_cons_self) hy
    | cons b l' =>
      obtain ⟨rfl, h'⟩ := h'
      rw [ih h (fun hm => hy (List.mem_cons_of_mem _ hm)) h'
        (fun hm => hy' (List.mem_cons_of_mem _ hm))]

/-! ## Lists -/

/-- Following `next` from `x`, one comes to `a` before the null node. -/
def OnList (nil : α) (next : α → α) (x a : α) : Prop := ∃ l, Lseg next x l a ∧ nil ∉ l ∧ a ≠ nil

/-- The nodes on a list that ends at the null node. -/
lemma onList_iff {next : α → α} {nil a : α} {l : List α} :
    ∀ {x : α}, Lseg next x l nil → nil ∉ l → (OnList nil next x a ↔ a ∈ l) := by
  intro x h hnil
  constructor
  · rintro ⟨k, hk, hnilk, ha⟩
    induction k generalizing x l with
    | nil =>
      cases l with
      | nil => exact absurd (hk.symm.trans h) ha
      | cons c l => exact h.eq_head ▸ hk ▸ List.mem_cons_self
    | cons c k ih =>
      obtain ⟨rfl, hk⟩ := hk
      rw [List.mem_cons, not_or] at hnilk
      cases l with
      | nil => exact absurd h.symm hnilk.1
      | cons d l =>
        obtain ⟨rfl, h⟩ := h
        refine List.mem_cons_of_mem _ (ih h (fun hm => hnil (List.mem_cons_of_mem _ hm)) hk hnilk.2)
  · intro ha
    obtain ⟨l₁, l₂, rfl⟩ := List.append_of_mem ha
    obtain ⟨z, h₁, rfl, -⟩ := lseg_append.mp h
    refine ⟨l₁, h₁, fun hm => hnil (List.mem_append_left _ hm), fun heq => hnil ?_⟩
    rw [← heq]
    exact List.mem_append_right _ List.mem_cons_self

/-! ## Walks -/

/-- Follow `next` from `x` until a node has `p`, looking at no more than `n` nodes. -/
def walk (next : α → α) (p : α → Bool) : ℕ → α → Option α
  | 0, _ => none
  | n + 1, x => if p x then some x else walk next p n (next x)

/-- A walk along a segment finds the first of its nodes that has `p`. -/
lemma walk_of_lseg {next : α → α} {p : α → Bool} {a y : α} {l₂ : List α} {l₁ : List α} :
    ∀ {x : α} {n : ℕ}, Lseg next x (l₁ ++ a :: l₂) y → (∀ b ∈ l₁, p b = false) → p a = true →
      l₁.length < n → walk next p n x = some a := by
  induction l₁ with
  | nil =>
    intro x n h _ ha hn
    obtain ⟨n, rfl⟩ : ∃ m, n = m + 1 := ⟨n - 1, by omega⟩
    obtain ⟨rfl, _⟩ := h
    simp [walk, ha]
  | cons b l₁ ih =>
    intro x n h hb ha hn
    obtain ⟨n, rfl⟩ : ∃ m, n = m + 1 := ⟨n - 1, by omega⟩
    obtain ⟨rfl, h⟩ := h
    have hx : p x = false := hb x List.mem_cons_self
    simp only [walk, hx, Bool.false_eq_true, ↓reduceIte]
    exact ih h (fun c hc => hb c (List.mem_cons_of_mem _ hc)) ha
      (by simp only [List.length_cons] at hn; omega)

/-- A walk along a segment that has a node with `p` returns. -/
lemma walk_of_lseg_exists {next : α → α} {p : α → Bool} {a y : α} {l : List α} :
    ∀ {x : α}, Lseg next x l y → a ∈ l → p a = true → ∃ b n, walk next p n x = some b := by
  induction l with
  | nil => intro x _ ha; simp at ha
  | cons c l ih =>
    rintro x ⟨rfl, h⟩ ha hp
    by_cases hx : p x = true
    · exact ⟨x, 1, by simp [walk, hx]⟩
    · have hal : a ∈ l := by
        rcases List.mem_cons.mp ha with rfl | ha
        · exact absurd hp hx
        · exact ha
      obtain ⟨b, n, hb⟩ := ih h hal hp
      exact ⟨b, n + 1, by simp [walk, hx, hb]⟩

/-- A walk along a segment that has a node with `p` returns the first of them. -/
lemma walk_first {next : α → α} {p : α → Bool} {a b y : α} {l : List α} :
    ∀ {x : α} {n : ℕ}, Lseg next x l y → walk next p n x = some a → b ∈ l → p b = true →
      ∃ l₁ l₂, l = l₁ ++ a :: l₂ ∧ ∀ c ∈ l₁, p c = false := by
  induction l with
  | nil => intro x n _ _ hb; simp at hb
  | cons c l ih =>
    rintro x n ⟨rfl, h⟩ hw hb hp
    cases n with
    | zero => simp [walk] at hw
    | succ n =>
      by_cases hx : p x = true
      · obtain rfl : x = a := by simpa [walk, hx] using hw
        exact ⟨[], l, rfl, by simp⟩
      · have hbl : b ∈ l := by
          rcases List.mem_cons.mp hb with rfl | hb
          · exact absurd hp hx
          · exact hb
        obtain ⟨l₁, l₂, rfl, hl₁⟩ := ih h (by simpa [walk, hx] using hw) hbl hp
        exact ⟨x :: l₁, l₂, rfl, by simpa [hx] using hl₁⟩

/-- A walk along a segment whose end has `p` returns within the length of the segment. -/
lemma walk_isSome {next : α → α} {p : α → Bool} {y : α} {l : List α} :
    ∀ {x : α} {n : ℕ}, Lseg next x l y → p y = true → l.length < n →
      ∃ a, walk next p n x = some a := by
  induction l with
  | nil =>
    rintro x n rfl hy hn
    obtain ⟨n, rfl⟩ : ∃ k, n = k + 1 := ⟨n - 1, by omega⟩
    exact ⟨x, by simp [walk, hy]⟩
  | cons b l ih =>
    rintro x n ⟨rfl, h⟩ hy hn
    obtain ⟨n, rfl⟩ : ∃ k, n = k + 1 := ⟨n - 1, by omega⟩
    by_cases hx : p x = true
    · exact ⟨x, by simp [walk, hx]⟩
    · have hlen : l.length < n := by simpa using hn
      obtain ⟨a, ha⟩ := ih h hy hlen
      exact ⟨a, by simp [walk, hx, ha]⟩

/-- A walk over states that each have a current node goes through the nodes as the plain walk does.
-/
lemma walk_proj {β : Type*} {next : α → α} {p : α → Bool} {g : β → β} {f : β → α}
    (hf : ∀ q, f (g q) = next (f q)) (n : ℕ) (q : β) :
    (walk g (fun q => p (f q)) n q).map f = walk next p n (f q) := by
  induction n generalizing q with
  | zero => rfl
  | succ n ih =>
    simp only [walk]
    split_ifs with hq
    · rfl
    · rw [ih, hf]

/-- A walk that keeps the node before the current one returns a node of the segment, or its end,
with the node before it. -/
lemma walk_trail {next : α → α} {p : α → Bool} {y u a : α} {l : List α} :
    ∀ {v x : α} {n : ℕ}, Lseg next x l y → p y = true →
      walk (fun q : α × α => (q.2, next q.2)) (fun q => p q.2) n (v, x) = some (u, a) →
      p a = true ∧ ∃ l₁ l₂ k, l ++ [y] = l₁ ++ a :: l₂ ∧ v :: l₁ = k ++ [u] := by
  induction l with
  | nil =>
    rintro v x n rfl hy hw
    cases n with
    | zero => simp [walk] at hw
    | succ n =>
      obtain ⟨rfl, rfl⟩ : v = u ∧ x = a := by simpa [walk, hy] using hw
      exact ⟨hy, [], [], [], rfl, rfl⟩
  | cons b l ih =>
    rintro v x n ⟨rfl, h⟩ hy hw
    cases n with
    | zero => simp [walk] at hw
    | succ n =>
      by_cases hx : p x = true
      · obtain ⟨rfl, rfl⟩ : v = u ∧ x = a := by simpa [walk, hx] using hw
        exact ⟨hx, [], l ++ [y], [], rfl, rfl⟩
      · obtain ⟨ha, l₁, l₂, k, hl, hk⟩ := ih (v := x) h hy (by simpa [walk, hx] using hw)
        exact ⟨ha, x :: l₁, l₂, v :: k, by simp [hl], by simp [hk]⟩

/-- What a walk returns has `p` and is an iterate of `next`. -/
lemma walk_eq_some {next : α → α} {p : α → Bool} {a : α} :
    ∀ {n : ℕ} {x : α}, walk next p n x = some a → p a = true ∧ ∃ k, next^[k] x = a := by
  intro n
  induction n with
  | zero => intro x h; simp [walk] at h
  | succ n ih =>
    intro x h
    simp only [walk] at h
    split_ifs at h with hx
    · obtain rfl : x = a := by simpa using h
      exact ⟨hx, 0, rfl⟩
    · obtain ⟨ha, k, hk⟩ := ih h
      exact ⟨ha, k + 1, by rw [Function.iterate_succ_apply, hk]⟩

/-- A walk inside a set of nodes that is closed under `next` and where no node has `p` never
ends. -/
lemma walk_eq_none_of_closed {next : α → α} {p : α → Bool} {S : α → Prop}
    (hS : ∀ a, S a → S (next a)) (hp : ∀ a, S a → p a = false) :
    ∀ (n : ℕ) {x : α}, S x → walk next p n x = none := by
  intro n
  induction n with
  | zero => intro x _; rfl
  | succ n ih =>
    intro x hx
    simp only [walk, hp x hx, Bool.false_eq_true, ↓reduceIte]
    exact ih (hS x hx)

/-- A walk that has found its node finds the same node with more fuel. -/
lemma walk_mono {next : α → α} {p : α → Bool} {a : α} :
    ∀ {n m : ℕ} {x : α}, n ≤ m → walk next p n x = some a → walk next p m x = some a := by
  intro n
  induction n with
  | zero => intro m x _ h; simp [walk] at h
  | succ n ih =>
    intro m x hnm h
    obtain ⟨m, rfl⟩ : ∃ k, m = k + 1 := ⟨m - 1, by omega⟩
    simp only [walk] at h ⊢
    split_ifs at h ⊢ with hx
    · exact h
    · exact ih (by omega) h

/-- Walks that return from one node return the same node. -/
lemma walk_unique {next : α → α} {p : α → Bool} {a b x : α} {n m : ℕ}
    (h₁ : walk next p n x = some a) (h₂ : walk next p m x = some b) : a = b := by
  have h₁' := walk_mono (Nat.le_max_left n m) h₁
  have h₂' := walk_mono (Nat.le_max_right n m) h₂
  exact Option.some.inj (h₁'.symm.trans h₂')

/-- The walk to the last node of a null-terminated segment. -/
lemma walk_last [DecidableEq α] {next : α → α} {x a null : α} {l : List α} {n : ℕ}
    (h : Lseg next x (l ++ [a]) null) (hnull : null ∉ l ++ [a]) (hn : l.length < n) :
    walk next (fun b => next b == null) n x = some a := by
  refine walk_of_lseg h ?_ ?_ hn
  · intro b hb
    obtain ⟨l₁, l₂, rfl⟩ := List.append_of_mem hb
    rw [List.append_assoc, lseg_append] at h
    obtain ⟨z, _, rfl, h⟩ := h
    -- the node after `b` is on the segment, and the null node is not
    have hz : next z ∈ l₁ ++ z :: l₂ ++ [a] := by
      cases l₂ with
      | nil => simp [h.eq_head]
      | cons c l₂ => simp [h.eq_head]
    simpa using fun he : next z = null => hnull (he ▸ hz)
  · simpa using (lseg_concat.mp h).2

/-! ## Rings -/

/-- The distinct nodes `c :: l` form one cycle of `next`. -/
def Ring (next : α → α) (c : α) (l : List α) : Prop :=
  (c :: l).Nodup ∧ Lseg next c (c :: l) c

/-- The successor of a node of a ring is a node of the ring. -/
lemma Ring.next_mem {next : α → α} {c a : α} {l : List α} (h : Ring next c l) (ha : a ∈ c :: l) :
    next a ∈ c :: l := by
  obtain ⟨l₁, l₂, hl⟩ := List.append_of_mem ha
  have hseg := h.2
  rw [hl, lseg_append] at hseg
  obtain ⟨z, _, rfl, hseg⟩ := hseg
  cases l₂ with
  | nil =>
    rw [lseg_nil] at hseg
    rw [hseg]
    exact List.mem_cons_self
  | cons b l₂ =>
    rw [hl, hseg.eq_head]
    simp

/-- Following `next` never leaves a ring. -/
lemma Ring.iterate_mem {next : α → α} {c : α} {l : List α} (h : Ring next c l) (k : ℕ) :
    next^[k] c ∈ c :: l := by
  induction k with
  | zero => exact List.mem_cons_self
  | succ k ih => rw [Function.iterate_succ_apply']; exact h.next_mem ih

/-- A ring seen from another of its nodes. -/
lemma Ring.rotate {next : α → α} {c d : α} {l₁ l₂ : List α} (h : Ring next c (l₁ ++ d :: l₂)) :
    Ring next d (l₂ ++ c :: l₁) := by
  obtain ⟨hnd, hseg⟩ := h
  have hperm : (c :: (l₁ ++ d :: l₂)).Perm (d :: (l₂ ++ c :: l₁)) := by
    have h1 : (c :: l₁ ++ d :: l₂).Perm (d :: l₂ ++ c :: l₁) := List.perm_append_comm
    simpa using h1
  refine ⟨hperm.nodup_iff.mp hnd, ?_⟩
  rw [← List.cons_append, lseg_append] at hseg
  obtain ⟨z, h₁, h₂⟩ := hseg
  obtain rfl : z = d := h₂.eq_head
  rw [← List.cons_append, lseg_append]
  exact ⟨c, h₂, h₁⟩

/-- A ring seen from any of its nodes. -/
lemma Ring.exists_rotate {next : α → α} {c d : α} {l : List α} (h : Ring next c l)
    (hd : d ∈ c :: l) : ∃ l', Ring next d l' ∧ (d :: l').Perm (c :: l) := by
  rcases List.mem_cons.mp hd with rfl | hd
  · exact ⟨l, h, List.Perm.refl _⟩
  · obtain ⟨l₁, l₂, rfl⟩ := List.append_of_mem hd
    refine ⟨l₂ ++ c :: l₁, h.rotate, ?_⟩
    have hp : (d :: l₂ ++ c :: l₁).Perm (c :: l₁ ++ d :: l₂) := List.perm_append_comm
    simpa using hp

/-- A ring split at one of its nodes, seen from that node. -/
lemma Ring.rotate_split {next : α → α} {c a : α} {l l₁ l₂ : List α} (h : Ring next c l)
    (hl : c :: l = l₁ ++ a :: l₂) : Ring next a (l₂ ++ l₁) := by
  cases l₁ with
  | nil =>
    obtain ⟨rfl, rfl⟩ : c = a ∧ l = l₂ := by simpa using hl
    simpa using h
  | cons b l₁ =>
    obtain ⟨rfl, rfl⟩ : c = b ∧ l = l₁ ++ a :: l₂ := by simpa using hl
    exact h.rotate

/-- A ring seen from the successor of its start: the start comes last. -/
lemma Ring.rotate_next {next : α → α} {c : α} {l : List α} (h : Ring next c l) :
    ∃ l', next c :: l' = l ++ [c] ∧ Ring next (next c) l' := by
  cases l with
  | nil =>
    have hc : next c = c := h.2.2
    exact ⟨[], by simp [hc], hc.symm ▸ h⟩
  | cons a l =>
    have hc : next c = a := h.2.2.eq_head
    have hsplit : Ring next c ([] ++ a :: l) := h
    have hrot : Ring next a (l ++ [c]) := hsplit.rotate
    exact ⟨l ++ [c], by simp [hc], hc.symm ▸ hrot⟩

/-- The node before the start of a ring, found by walking until `next` is the start. -/
lemma Ring.walk_pred [DecidableEq α] {next : α → α} {c : α} {l : List α} {n : ℕ}
    (h : Ring next c l) (hn : l.length < n) :
    walk next (fun b => next b == c) n c = some ((c :: l).getLast (by simp)) := by
  obtain ⟨l', a, hl⟩ : ∃ l' a, c :: l = l' ++ [a] :=
    ⟨(c :: l).dropLast, (c :: l).getLast (by simp), by simp [List.dropLast_append_getLast]⟩
  have hseg := h.2
  have hnd := h.1
  rw [hl] at hseg hnd
  have hlast : (c :: l).getLast (by simp) = a := by simp [hl]
  rw [hlast]
  have hlen : l.length = l'.length := by
    have := congrArg List.length hl
    simpa using this
  refine walk_of_lseg hseg ?_ ?_ (by omega)
  · intro b hb
    obtain ⟨l₁, l₂, rfl⟩ := List.append_of_mem hb
    rw [List.append_assoc, lseg_append] at hseg
    obtain ⟨z, _, rfl, hseg⟩ := hseg
    -- the successor of `b` is a later node of the list, while the start is its first node
    have hz : next z ∈ l₂ ++ [a] := by
      cases l₂ with
      | nil => simp [hseg.eq_head]
      | cons d l₂ => simp [hseg.eq_head]
    have hc : c ∈ l₁ ++ [z] := by
      cases l₁ with
      | nil => simp only [List.nil_append, List.cons_append, List.cons.injEq] at hl; simp [hl.1]
      | cons d l₁ => simp only [List.cons_append, List.cons.injEq] at hl; simp [hl.1]
    have hnd' : ((l₁ ++ [z]) ++ (l₂ ++ [a])).Nodup := by simpa using hnd
    have hdisj := (List.nodup_append.mp hnd').2.2
    simpa using fun he : next z = c => hdisj c hc (next z) hz he.symm
  · simpa using (lseg_concat.mp hseg).2

/-- Splicing a new node `v` in before the start of a ring: the node before the start now links
to `v`, and `v` to the start. -/
lemma Ring.insert_before [DecidableEq α] {next : α → α} {c v : α} {l : List α}
    (h : Ring next c l) (hv : v ∉ c :: l) :
    Ring (Function.update (Function.update next ((c :: l).getLast (by simp)) v) v c) c
      (l ++ [v]) := by
  obtain ⟨l', a, hl⟩ : ∃ l' a, c :: l = l' ++ [a] :=
    ⟨(c :: l).dropLast, (c :: l).getLast (by simp), by simp [List.dropLast_append_getLast]⟩
  have hlast : (c :: l).getLast (by simp) = a := by simp [hl]
  rw [hlast]
  obtain ⟨hnd, hseg⟩ := h
  refine ⟨?_, ?_⟩
  · rw [← List.cons_append]
    exact List.nodup_append.mpr ⟨hnd, by simp, by
      intro x hx y hy he
      simp only [List.mem_singleton] at hy
      exact hv (by rw [← hy, ← he]; exact hx)⟩
  · rw [← List.cons_append, lseg_concat]
    rw [hl] at hnd hseg hv ⊢
    have hav : a ≠ v := fun he => hv (by simp [he])
    have hal : a ∉ l' := fun ha => (List.nodup_append.mp hnd).2.2 a ha a (by simp) rfl
    have hvl : v ∉ l' := fun h' => hv (by simp [h'])
    refine ⟨lseg_concat.mpr ⟨?_, ?_⟩, by simp⟩
    · exact ((lseg_concat.mp hseg).1.update hal).update hvl
    · rw [Function.update_of_ne hav, Function.update_self]

/-- Splicing the start of a ring out: the node before it now links to the node after it. -/
lemma Ring.remove [DecidableEq α] {next : α → α} {c d : α} {l : List α}
    (h : Ring next c (d :: l)) :
    Ring (Function.update next ((c :: d :: l).getLast (by simp)) (next c)) d l := by
  obtain ⟨l', a, hl⟩ : ∃ l' a, d :: l = l' ++ [a] :=
    ⟨(d :: l).dropLast, (d :: l).getLast (by simp), by simp [List.dropLast_append_getLast]⟩
  have hlast : (c :: d :: l).getLast (by simp) = a := by simp [hl]
  rw [hlast]
  obtain ⟨hnd, -, hseg⟩ := h
  have hd : next c = d := hseg.eq_head
  refine ⟨(List.nodup_cons.mp hnd).2, ?_⟩
  rw [hd] at hseg ⊢
  rw [hl] at hseg hnd ⊢
  have hal : a ∉ l' :=
    fun ha => (List.nodup_append.mp (List.nodup_cons.mp hnd).2).2.2 a ha a (by simp) rfl
  exact lseg_concat.mpr ⟨(lseg_concat.mp hseg).1.update hal, by simp⟩

end Linked
