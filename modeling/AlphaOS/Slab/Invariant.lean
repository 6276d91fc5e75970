import AlphaOS.Slab.Allocator
import AlphaOS.Mm.Frames

set_option relaxedAutoImplicit false
set_option autoImplicit false

/-!
# The invariant of the slab allocator

What holds of the caches between two calls: each cache's slabs are on its two lists, and in each
slab the occupied entries of `free_list` and the live objects are all its objects. The last class,
whose slabs hold one object, is apart: its slab stays on the partial list while its object is live,
and the head of that list is not reset when the slab is released.

## Main definitions

* `AlphaOS.Kheap.Cache` — what holds of one cache, with the slabs on its two lists.
* `AlphaOS.Kheap.Inv` — what holds of all caches, and of the allocations of whole pages.
* `AlphaOS.Kheap.Frame` — a call changes the slabs of one class only.

## Main results

* `AlphaOS.Kheap.Inv.of_frame` — the invariant after a call that changes one class.
-/

namespace AlphaOS

/-! ## Size classes -/

/-- The slabs of all classes but the last hold at least two objects. -/
lemma two_le_capacity : ∀ c : Fin 8, c ≠ 7 → 2 ≤ capacity c := by decide

/-- A slab has an object. -/
lemma capacity_pos : ∀ c : Fin 8, 0 < capacity c := by decide

/-- A slab has at most `255` objects. -/
lemma capacity_le : ∀ c : Fin 8, capacity c ≤ 255 := by decide

/-- A slab of the last class has one object. -/
lemma capacity_last : capacity 7 = 1 := by decide

/-- The objects of a slab fit into its page. -/
lemma objSize_mul_capacity_le : ∀ c : Fin 8, objSize c * capacity c + 16 ≤ 4096 := by decide

/-- An object has a byte. -/
lemma objSize_pos : ∀ c : Fin 8, 0 < objSize c := by decide

/-- The address of a page. -/
structure IsPage (a : ℕ) : Prop where
  aligned : a % 4096 = 0
  pos : 0 < a
  bound : a + 4096 ≤ 2 ^ 32

namespace Slabs

variable {c : Fin 8} {a i : ℕ}

/-- An object lies in its page, after the header. -/
lemma objAddr_bounds (hi : i < capacity c) :
    a + 16 ≤ objAddr c a i ∧ objAddr c a i + objSize c ≤ a + 4096 := by
  have hle := objSize_mul_capacity_le c
  have hmul : objSize c * (i + 1) ≤ objSize c * capacity c := Nat.mul_le_mul_left _ hi
  rw [Nat.mul_add, Nat.mul_one] at hmul
  rw [objAddr, sizeofSlab]
  omega

/-- Rounding the address of an object down gives its slab. -/
lemma alignDown4k_objAddr (ha : IsPage a) (hi : i < capacity c) :
    alignDown4k (objAddr c a i) = a := by
  obtain ⟨haligned, -, hbound⟩ := ha
  obtain ⟨h₁, h₂⟩ := objAddr_bounds (a := a) hi
  have hpos := objSize_pos c
  rw [alignDown4k_eq (by omega)]
  omega

/-- Different indices have different objects. -/
lemma objAddr_injective (c : Fin 8) (a : ℕ) : Function.Injective (objAddr c a) := by
  intro i j hij
  have hpos := objSize_pos c
  rw [objAddr, objAddr] at hij
  exact Nat.eq_of_mul_eq_mul_left hpos (by omega)

/-- The objects of a slab are distinct. -/
lemma nodup_objects (c : Fin 8) (a : ℕ) : (objects c a).Nodup :=
  List.nodup_range.map (objAddr_injective c a)

/-- The objects of a slab. -/
lemma mem_objects {p : ℕ} : p ∈ objects c a ↔ ∃ i < capacity c, objAddr c a i = p := by
  simp [objects]

/-- The number of objects of a slab. -/
lemma length_objects (c : Fin 8) (a : ℕ) : (objects c a).length = capacity c := by
  simp [objects]

/-- The pages of an allocation of one page. -/
lemma inPages_one {page : ℕ} : inPages page 1 a = true ↔ a = page := by
  rw [inPages, decide_eq_true_eq]
  omega

/-- Two states have the same slab in a page. -/
structure SameAt (s s' : Slabs) (a : ℕ) : Prop where
  next : s'.next a = s.next a
  prev : s'.prev a = s.prev a
  cacheOwner : s'.cacheOwner a = s.cacheOwner a
  totalCount : s'.totalCount a = s.totalCount a
  freeCount : s'.freeCount a = s.freeCount a
  freeList : s'.freeList a = s.freeList a
  mapped : s'.mapped a = s.mapped a

variable {s s' : Slabs}

/-- Whether a slab is there depends on its fields. -/
lemma SameAt.isSlab (h : SameAt s s' a) : s'.IsSlab c a ↔ s.IsSlab c a := by
  rw [IsSlab, IsSlab, h.mapped, h.cacheOwner]

/-- The free objects of a slab depend on its fields. -/
lemma SameAt.freeEntries (h : SameAt s s' a) : s'.freeEntries a = s.freeEntries a := by
  rw [Slabs.freeEntries, Slabs.freeEntries, h.freeCount, h.freeList]

/-- A page holds slabs of one class. -/
lemma IsSlab.unique {d : Fin 8} (h : s.IsSlab c a) (h' : s.IsSlab d a) : c = d :=
  Option.some.inj (h.2.symm.trans h'.2)

end Slabs

namespace Kheap

variable {h h' : Kheap} {c d : Fin 8} {a p q : ℕ} {P F P' F' : List ℕ}

/-! ## The invariant -/

/-- A slab of the class: the free entries and the live objects are its objects. -/
structure SlabOk (h : Kheap) (c : Fin 8) (a : ℕ) : Prop where
  page : IsPage a
  total : h.slabs.totalCount a = capacity c
  parts : (h.slabs.freeEntries a ++ h.liveIn a).Perm (Slabs.objects c a)

/-- The partial list of a class whose slabs hold two objects or more. -/
structure Partials (h : Kheap) (c : Fin 8) (P : List ℕ) : Prop where
  list : Linked.Dlist 0 h.slabs.next h.slabs.prev (h.slabs.partialHead c) P
  count : ∀ a ∈ P, 0 < h.slabs.freeCount a ∧ h.slabs.freeCount a < capacity c

/-- The slab of the last class, if there is one, is alone, and its object is taken. -/
def Single (h : Kheap) (c : Fin 8) (P : List ℕ) : Prop :=
  P = [] ∨ ∃ a, P = [a] ∧ h.slabs.partialHead c = a ∧ h.slabs.next a = 0 ∧ h.slabs.prev a = 0 ∧
    h.slabs.freeCount a = 0

/-- A cache with the slabs `P` on its partial list and `F` on its full list. -/
structure Cache (h : Kheap) (c : Fin 8) (P F : List ℕ) : Prop where
  slab_iff : ∀ a, h.slabs.IsSlab c a ↔ a ∈ P ++ F
  nodup : (P ++ F).Nodup
  slab : ∀ a ∈ P ++ F, SlabOk h c a
  partials : c ≠ 7 → Partials h c P
  single : c = 7 → Single h c P ∧ F = []
  fulls : Linked.Dlist 0 h.slabs.next h.slabs.prev (h.slabs.fullHead c) F
  fullCount : ∀ a ∈ F, h.slabs.freeCount a = 0

/-- The pages that an allocation of whole pages keeps mapped: those `kfree` unmaps, and the first.
-/
def span (s : Slabs) (p : ℕ) : ℕ := max 1 (s.totalCount (alignDown4k p))

/-- An allocation of whole pages. -/
structure Big (s : Slabs) (p : ℕ) : Prop where
  page : IsPage (alignDown4k p)
  ptr : p = alignDown4k p + 16
  pages : ∀ b, Slabs.inPages (alignDown4k p) (span s p) b = true →
    s.mapped b = true ∧ s.cacheOwner b = none

/-- The invariant, with the slabs on the lists of every cache. -/
structure Inv (h : Kheap) (P F : Fin 8 → List ℕ) : Prop where
  caches : ∀ c, Cache h c (P c) (F c)
  nodup : h.live.Nodup
  mapped : ∀ p ∈ h.live, h.slabs.mapped (alignDown4k p) = true
  big : ∀ p ∈ h.live, h.slabs.cacheOwner (alignDown4k p) = none → Big h.slabs p
  apart : ∀ p ∈ h.live, ∀ q ∈ h.live, h.slabs.cacheOwner (alignDown4k p) = none →
    h.slabs.cacheOwner (alignDown4k q) = none → p ≠ q → ∀ b,
      Slabs.inPages (alignDown4k p) (span h.slabs p) b = true →
      Slabs.inPages (alignDown4k q) (span h.slabs q) b = false

/-- What the invariant says of the live pointers and of the allocations of whole pages. -/
structure Spans (h : Kheap) : Prop where
  nodup : h.live.Nodup
  mapped : ∀ p ∈ h.live, h.slabs.mapped (alignDown4k p) = true
  big : ∀ p ∈ h.live, h.slabs.cacheOwner (alignDown4k p) = none → Big h.slabs p
  apart : ∀ p ∈ h.live, ∀ q ∈ h.live, h.slabs.cacheOwner (alignDown4k p) = none →
    h.slabs.cacheOwner (alignDown4k q) = none → p ≠ q → ∀ b,
      Slabs.inPages (alignDown4k p) (span h.slabs p) b = true →
      Slabs.inPages (alignDown4k q) (span h.slabs q) b = false

/-- The live allocations do not overlap. -/
lemma Inv.spans {P F : Fin 8 → List ℕ} (hinv : Inv h P F) : Spans h :=
  ⟨hinv.nodup, hinv.mapped, hinv.big, hinv.apart⟩

/-- The live objects of a slab. -/
lemma mem_liveIn : p ∈ h.liveIn a ↔ p ∈ h.live ∧ alignDown4k p = a := by
  simp [liveIn]

/-- A call that keeps the pages without a slab, and makes no allocation of whole pages. -/
lemma Spans.of_kept (hs : Spans h) (hnodup : h'.live.Nodup)
    (hmapped : ∀ p ∈ h'.live, h'.slabs.mapped (alignDown4k p) = true)
    (hold : ∀ p ∈ h'.live, h'.slabs.cacheOwner (alignDown4k p) = none →
      p ∈ h.live ∧ h.slabs.cacheOwner (alignDown4k p) = none)
    (hkept : ∀ b, h.slabs.mapped b = true → h.slabs.cacheOwner b = none →
      h'.slabs.mapped b = true ∧ h'.slabs.cacheOwner b = none ∧
        h'.slabs.totalCount b = h.slabs.totalCount b) : Spans h' := by
  have hspan : ∀ p ∈ h'.live, h'.slabs.cacheOwner (alignDown4k p) = none →
      span h'.slabs p = span h.slabs p := by
    intro p hp hnone
    obtain ⟨hp', hnone'⟩ := hold p hp hnone
    rw [span, span, (hkept _ (hs.mapped p hp') hnone').2.2]
  constructor
  · exact hnodup
  · exact hmapped
  · intro p hp hnone
    obtain ⟨hp', hnone'⟩ := hold p hp hnone
    obtain ⟨hpage, hptr, hpages⟩ := hs.big p hp' hnone'
    refine ⟨hpage, hptr, fun b hb => ?_⟩
    rw [hspan p hp hnone] at hb
    obtain ⟨hmap, howner⟩ := hpages b hb
    have hb' := hkept b hmap howner
    exact ⟨hb'.1, hb'.2.1⟩
  · intro p hp q hq hpn hqn hne b
    obtain ⟨hp', hpn'⟩ := hold p hp hpn
    obtain ⟨hq', hqn'⟩ := hold q hq hqn
    rw [hspan p hp hpn, hspan q hq hqn]
    exact hs.apart p hp' q hq' hpn' hqn' hne b

/-! ## Frames -/

/-- A cache none of whose slabs is in the pages `S` that a call changes. -/
lemma Cache.frame {S : ℕ → Prop} (hc : Cache h c P F)
    (hS : ∀ a, S a → ¬ h.slabs.IsSlab c a ∧ ¬ h'.slabs.IsSlab c a)
    (hsame : ∀ a, ¬ S a → Slabs.SameAt h.slabs h'.slabs a)
    (hlive : ∀ a, ¬ S a → h'.liveIn a = h.liveIn a)
    (hpart : h'.slabs.partialHead c = h.slabs.partialHead c)
    (hfull : h'.slabs.fullHead c = h.slabs.fullHead c) : Cache h' c P F := by
  have hout : ∀ a ∈ P ++ F, ¬ S a := fun a ha hSa => (hS a hSa).1 ((hc.slab_iff a).mpr ha)
  have hP : ∀ a ∈ P, ¬ S a := fun a ha => hout a (List.mem_append_left _ ha)
  have hF : ∀ a ∈ F, ¬ S a := fun a ha => hout a (List.mem_append_right _ ha)
  have hlinks : ∀ {l : List ℕ}, (∀ a ∈ l, ¬ S a) → ∀ a ∈ l,
      h'.slabs.next a = h.slabs.next a ∧ h'.slabs.prev a = h.slabs.prev a :=
    fun hl a ha => ⟨(hsame a (hl a ha)).next, (hsame a (hl a ha)).prev⟩
  constructor
  · intro a
    by_cases hSa : S a
    · exact ⟨fun h₁ => absurd h₁ (hS a hSa).2, fun h₁ => absurd hSa (hout a h₁)⟩
    · rw [(hsame a hSa).isSlab]
      exact hc.slab_iff a
  · exact hc.nodup
  · intro a ha
    obtain ⟨hpage, htotal, hparts⟩ := hc.slab a ha
    have hsa := hsame a (hout a ha)
    refine ⟨hpage, hsa.totalCount.trans htotal, ?_⟩
    rw [hsa.freeEntries, hlive a (hout a ha)]
    exact hparts
  · intro h7
    obtain ⟨hlist, hcount⟩ := hc.partials h7
    constructor
    · rw [hpart]
      exact hlist.congr (hlinks hP)
    · intro a ha
      rw [(hsame a (hP a ha)).freeCount]
      exact hcount a ha
  · intro h7
    obtain ⟨hsingle, hnil⟩ := hc.single h7
    refine ⟨?_, hnil⟩
    rcases hsingle with hP' | ⟨a, rfl, hhead, hnext, hprev, hcount⟩
    · exact .inl hP'
    · have hsa := hsame a (hP a (by simp))
      exact .inr ⟨a, rfl, hpart.trans hhead, hsa.next.trans hnext, hsa.prev.trans hprev,
        hsa.freeCount.trans hcount⟩
  · rw [hfull]
    exact hc.fulls.congr (hlinks hF)
  · intro a ha
    rw [(hsame a (hF a ha)).freeCount]
    exact hc.fullCount a ha

/-- A call changes nothing but the pages `S`, none of which belongs to a class other than `c` or to
an allocation of whole pages. -/
structure Frame (h h' : Kheap) (c : Fin 8) (S : ℕ → Prop) : Prop where
  same : ∀ a, ¬ S a → Slabs.SameAt h.slabs h'.slabs a
  live : ∀ a, ¬ S a → h'.liveIn a = h.liveIn a
  heads : ∀ d, d ≠ c → h'.slabs.partialHead d = h.slabs.partialHead d ∧
    h'.slabs.fullHead d = h.slabs.fullHead d
  foreign : ∀ a, S a → ∀ d, d ≠ c → ¬ h.slabs.IsSlab d a ∧ ¬ h'.slabs.IsSlab d a
  notBig : ∀ a, S a → h.slabs.mapped a = true → h.slabs.cacheOwner a ≠ none
  owned : ∀ p ∈ h'.live, S (alignDown4k p) → h'.slabs.IsSlab c (alignDown4k p)

/-- **The invariant after a call that changes one class** follows from what the call makes of that
class. -/
lemma Inv.of_frame {P F : Fin 8 → List ℕ} {S : ℕ → Prop} (hinv : Inv h P F)
    (hfr : Frame h h' c S) (hcache : Cache h' c P' F') (hnodup : h'.live.Nodup) :
    Inv h' (Function.update P c P') (Function.update F c F') := by
  -- a pointer outside the changed pages was live before
  have hold : ∀ p ∈ h'.live, ¬ S (alignDown4k p) → p ∈ h.live := by
    intro p hp hS
    have hmem : p ∈ h'.liveIn (alignDown4k p) := mem_liveIn.mpr ⟨hp, rfl⟩
    rw [hfr.live _ hS] at hmem
    exact (mem_liveIn.mp hmem).1
  have hspans : Spans h' := by
    refine hinv.spans.of_kept hnodup (fun p hp => ?_) (fun p hp hnone => ?_) fun b hmap howner => ?_
    · by_cases hS : S (alignDown4k p)
      · exact (hfr.owned p hp hS).1
      · rw [(hfr.same _ hS).mapped]
        exact hinv.mapped p (hold p hp hS)
    · have hS : ¬ S (alignDown4k p) := by
        intro hS
        rw [(hfr.owned p hp hS).2] at hnone
        exact absurd hnone (by simp)
      exact ⟨hold p hp hS, (hfr.same _ hS).cacheOwner ▸ hnone⟩
    · have hsame := hfr.same b fun hS => hfr.notBig b hS hmap howner
      exact ⟨hsame.mapped.trans hmap, hsame.cacheOwner.trans howner, hsame.totalCount⟩
  refine ⟨fun d => ?_, hspans.nodup, hspans.mapped, hspans.big, hspans.apart⟩
  by_cases hd : d = c
  · subst hd
    rw [Function.update_self, Function.update_self]
    exact hcache
  · rw [Function.update_of_ne hd, Function.update_of_ne hd]
    exact (hinv.caches d).frame (fun a hS => hfr.foreign a hS d hd) hfr.same hfr.live
      (hfr.heads d hd).1 (hfr.heads d hd).2

end Kheap

end AlphaOS
