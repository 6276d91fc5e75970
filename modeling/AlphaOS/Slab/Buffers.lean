import AlphaOS.Slab.Overlap
import AlphaOS.Slab.KernelHeap

set_option relaxedAutoImplicit false
set_option autoImplicit false

/-!
# Buffers from the kernel heap

A function that takes a buffer with `kmalloc` and gives it back with `kfree` before it returns. In a
run that asks for no object of the last class, and in which no `kfree` writes its entry into a live
object, it gets its buffer, nothing that is written into the buffer is read by the allocator, and
giving it back keeps the run so. A buffer of the last class is the end of this: its slab is released
and stays at the head of the partial list of its cache, where the next `kmalloc` of the class looks
for it.

## Main definitions

* `AlphaOS.KernelHeap.Tame` — the guard: no object of the last class, and every `kfree` is clear.
* `AlphaOS.KernelHeap.allot`, `AlphaOS.KernelHeap.lend` — a buffer is taken; it is taken and given
  back.
* `AlphaOS.KernelHeap.Lent` — the states while a buffer is lent and after it.

## Main results

* `AlphaOS.Kheap.clear_kfree` — what has just been allocated can be freed.
* `AlphaOS.KernelHeap.lent` — a buffer that is not of the last class.
* `AlphaOS.KernelHeap.lost` — a buffer of the last class.
-/

namespace AlphaOS

/-- The object that is taken from a partial slab. -/
lemma Slabs.popPartial_fst {s s' : Slabs} {c : Fin 8} {p : ℕ} (hs : s.popPartial c = some (p, s')) :
    p = s.freeList (s.partialHead c) (s.freeCount (s.partialHead c) - 1) := by
  rw [popPartial] at hs
  obtain ⟨-, hs⟩ := Option.ite_none_left_eq_some.mp hs
  dsimp only at hs
  split_ifs at hs
  · obtain ⟨s₁, -, hs₁⟩ := Option.bind_eq_some_iff.mp hs
    exact (Prod.mk.inj (Option.some.inj hs₁)).1.symm
  · exact (Prod.mk.inj (Option.some.inj hs)).1.symm

namespace Kheap

variable {h : Kheap} {s' : Slabs} {p size page : ℕ} {P F P' F' : Fin 8 → List ℕ}

/-- **What has just been allocated can be freed**: the entry that `kfree` writes is the one
`kmalloc` has read, and the object that holds this entry was on the stack.

**Proof sketch.** Another live object of the slab was live before. If it held the entry, it would
have been on the stack, at the entry or below. -/
lemma clear_kfree (hinv : Inv h P F) (hst : Stacked h)
    (hf : Fresh h.slabs page (h.slabs.demand size)) (hs : h.slabs.kmalloc size page = some (p, s'))
    (hinv' : Inv ⟨s', p :: h.live⟩ P' F') :
    Clear ⟨s', p :: h.live⟩ (.kfree p) := by
  intro c hslab' q hq hne hin
  set a := alignDown4k p with ha
  have hok' := (hinv'.caches c).slab a (((hinv'.caches c).slab_iff a).mp hslab')
  rw [liveIn_cons_self s' ha.symm] at hq
  have hold : q ∈ h.liveIn a := (List.mem_cons.mp hq).resolve_left hne
  obtain ⟨hlive, hqa⟩ := mem_liveIn.mp hold
  have hmap : h.slabs.mapped a = true := hqa ▸ hinv.mapped q hlive
  -- the slab is no new one
  have hslab : h.slabs.IsSlab c a := by
    refine ⟨hmap, ?_⟩
    rw [← (Slabs.grown_kmalloc hs).cacheOwner a fun hnew => ?_]
    · exact hslab'.2
    · rw [hf.unmapped a hnew] at hmap
      exact absurd hmap (by simp)
  have hok := (hinv.caches c).slab a (((hinv.caches c).slab_iff a).mp hslab)
  have hcount := hok.count
  have hcount' := hok'.count
  rw [liveIn_cons_self s' ha.symm, List.length_cons] at hcount'
  dsimp only at hcount' hin
  obtain ⟨i, -, hi⟩ := Slabs.mem_objects.mp (hok.parts.mem_iff.mp (List.mem_append_right _ hold))
  obtain ⟨j, hj, hlist⟩ := hst c a hslab (s'.freeCount a) (by omega)
  rw [slot, ← hi, inObject_iff] at hin
  rw [hin, hi] at hlist
  have hfree : q ∈ h.slabs.freeEntries a := by
    rw [Slabs.freeEntries, List.mem_map]
    exact ⟨j, List.mem_range.mpr (by omega), hlist⟩
  exact (List.nodup_append.mp hok.nodup).2.2 _ hfree _ hold rfl

/-- **`kmalloc` of a class returns an object of a slab of the class.** -/
lemma Inv.isSlab_kmalloc {c : Fin 8} (hinv : Inv h P F) (hok : h.Alone (.kmalloc size page))
    (hf : Fresh h.slabs page (h.slabs.demand size)) (hclass : sizeToClass size = some c)
    (hs : h.slabs.kmalloc size page = some (p, s')) : s'.IsSlab c (alignDown4k p) := by
  have hgrown := Slabs.grown_kmalloc hs
  rw [Slabs.demand, hclass] at hf hgrown
  dsimp only at hf hgrown
  rw [Slabs.kmalloc, hclass] at hs
  dsimp only at hs
  by_cases hzero : h.slabs.partialHead c = 0
  · rw [if_neg (not_not.mpr hzero)] at hs hf
    have halign := alignDown4k_newSlab h.slabs c (hf.isPage Nat.one_pos)
    have hslab := isSlab_newSlab h.slabs c page
    rw [Option.some.inj hs] at halign hslab
    rwa [halign]
  · have h7 : c ≠ 7 := by
      rintro rfl
      exact hzero (hok hclass)
    rw [if_pos hzero] at hs hgrown
    have hc := hinv.caches c
    obtain ⟨hlist, hcount⟩ := hc.partials h7
    obtain ⟨P₁, hP, -⟩ := hlist.head hzero
    have hmem : h.slabs.partialHead c ∈ P c ++ F c := by simp [hP]
    have htop := ((hc.slab _ hmem).top (hcount _ (by simp [hP])).1).1
    obtain ⟨hmap, howner⟩ := (hc.slab_iff _).mpr hmem
    rw [Slabs.popPartial_fst hs, htop, Slabs.IsSlab, hgrown.mapped, hmap, Bool.or_true]
    exact ⟨rfl, (hgrown.cacheOwner _ (by simp [Slabs.inPages_zero])).trans howner⟩

end Kheap

namespace Slabs

variable {s : Slabs} {page : ℕ}

/-- **The object of a new slab of the last class is freed**: the slab is released, and is at the
head of its partial list all the same. -/
lemma kfree_newSlab_last (hpage : IsPage page) (hfull : s.fullHead 7 = 0) :
    ∃ s', (s.newSlab 7 page).2.kfree (s.newSlab 7 page).1 = some s' ∧ s'.partialHead 7 = page ∧
      s'.mapped page = false := by
  set s₁ := (s.newSlab 7 page).2 with hs₁
  have hcap := capacity_last
  have hpos := hpage.pos
  obtain ⟨hmap, howner⟩ := Kheap.isSlab_newSlab s 7 page
  have halign := Kheap.alignDown4k_newSlab s 7 hpage
  have hcount : s₁.freeCount page = 0 := (Function.update_self _ _ _).trans (by rw [hcap])
  have htotal : s₁.totalCount page = 1 := (Function.update_self _ _ _).trans hcap
  have hnext : s₁.next page = 0 := Function.update_self _ _ _
  have hprev : s₁.prev page = 0 := Function.update_self _ _ _
  have hhead : s₁.partialHead 7 = page := by
    change Function.update s.partialHead 7 page 7 = page
    exact Function.update_self _ _ _
  have hnot : s₁.fullHead 7 ≠ page := by
    change s.fullHead 7 ≠ page
    omega
  have hone : (s₁.putLast page (s.newSlab 7 page).1).freeCount page = 1 := by
    refine (Function.update_self _ _ _).trans ?_
    rw [hcount]
    rfl
  obtain ⟨s₂, s₃, hs₂, hcount₂, htotal₂, hs₃, hdrop⟩ := relink_single
    (s := s₁.putLast page (s.newSlab 7 page).1) (c := 7) hpos hnext hprev hhead hnot hmap
  refine ⟨s₃, ?_, hdrop.head, ?_⟩
  · rw [kfree, halign, if_neg (by rw [hmap]; simp), howner]
    dsimp only
    rw [freeObject, if_pos hone, hs₂, Option.bind_eq_bind, Option.bind_some]
    refine (if_pos ?_).trans hs₃
    rw [hcount₂, htotal₂, hone]
    exact htotal.symm
  · rw [hdrop.mapped]
    dsimp only
    rw [inPages_one.mpr rfl, Bool.not_true, Bool.and_false]

end Slabs

namespace KernelHeap

open Mm

variable {k k₁ k₂ : KernelHeap} {call : Call} {p size w m : ℕ}

/-- No object of the last class is asked for, and no `kfree` writes its entry into another live
object. -/
def Tame (k : KernelHeap) (call : Call) : Prop :=
  k.heap.Small (call.at 0) ∧ k.heap.Clear (call.at 0)

/-- A state of a tame run. -/
abbrev TameReach : KernelHeap → Prop := Transition.Reach Init Step Tame

/-- What a tame run keeps. -/
structure Sound (k : KernelHeap) : Prop where
  coupled : Coupled k
  inv : ∃ P F, Kheap.Inv k.heap P F
  unused : k.heap.slabs.partialHead 7 = 0
  stacked : k.heap.Stacked

/-- **The invariant of the tame runs.** -/
lemma sound_of_tame (hr : TameReach k) : Sound k := by
  have hok (h : Kheap) (call : Call) (page : ℕ)
      (hguard : h.Small (call.at 0) ∧ h.Clear (call.at 0)) :
      h.Small (call.at page) ∧ h.Clear (call.at page) := by
    cases call with
    | kmalloc size => exact hguard
    | kfree ptr => exact hguard
  obtain ⟨hk, hheap⟩ := reach_heap (fun h call => h.Small call ∧ h.Clear call) hok hr
  obtain ⟨P, F, hinv, hunused⟩ := Kheap.inv_of_small (hheap.of_guard_imp fun _ _ h => h.1)
  obtain ⟨-, hst⟩ := Kheap.inv_of_clear (hheap.of_guard_imp fun _ _ h => h.2)
  exact ⟨hk, ⟨P, F, hinv⟩, hunused, hst⟩

/-- No occupied entry of a `free_list` is in a live object. -/
lemma Sound.apart (h : Sound k) : k.heap.Apart := by
  obtain ⟨P, F, hinv⟩ := h.inv
  exact h.stacked.apart hinv

/-- `kmalloc` returns a live pointer. -/
lemma Sound.kmalloc (h : Sound k) (hen : k.Enabled (.kmalloc size)) :
    ∃ p k₁, k.kmalloc size = some (p, k₁) ∧ k.Step (.kmalloc size) k₁ ∧ p ∈ k₁.heap.live := by
  obtain ⟨P, F, hinv⟩ := h.inv
  obtain ⟨v, -, hfresh, -, -, -⟩ := h.coupled.mmapFor hen.2
  obtain ⟨p, s', hs', -⟩ := hinv.kmalloc (fun _ => h.unused) hfresh
  have hs : k.kmalloc size = some (p, ⟨(mmapFor k.mm (k.heap.slabs.demand size)).2,
      ⟨s', p :: k.heap.live⟩⟩) := by
    rw [KernelHeap.kmalloc, hs', Option.map_some]
  exact ⟨p, _, hs, ⟨hen, by rw [exec, hs, Option.map_some]⟩, List.mem_cons_self⟩

/-- `kfree` of a live pointer returns. -/
lemma Sound.kfree (h : Sound k) (hp : p ∈ k.heap.live) : ∃ k₁, k.kfree p = some k₁ := by
  obtain ⟨P, F, hinv⟩ := h.inv
  obtain ⟨s', hs', -⟩ := hinv.kfree hp
  exact ⟨_, by rw [KernelHeap.kfree, hs', Option.map_some]⟩

/-- **Every call that meets the guard returns.** -/
lemma tame_returns (hr : TameReach k) (hen : k.Enabled call) (htame : k.Tame call) :
    ∃ k₁, k.exec call = some k₁ ∧ TameReach k₁ := by
  have hk := sound_of_tame hr
  cases call with
  | kmalloc size =>
    obtain ⟨p, k₁, -, hstep, -⟩ := hk.kmalloc hen
    exact ⟨k₁, hstep.2, hr.next htame hstep⟩
  | kfree ptr =>
    obtain ⟨k₁, hs⟩ := hk.kfree hen
    exact ⟨k₁, hs, hr.next htame ⟨hen, hs⟩⟩

/-! ## A buffer is taken and given back -/

/-- The sizes of the last class. -/
lemma class_last (h₁ : 1024 < size) (h₂ : size ≤ 2048) : sizeToClass size = some 7 :=
  Kheap.sizeToClass_eq_last.mpr (by omega)

/-- The bytes of a buffer are mapped. -/
def Covers (k : KernelHeap) (p size : ℕ) : Prop :=
  ∀ i < size, k.heap.slabs.mapped (alignDown4k (p + i)) = true

instance (k : KernelHeap) (p size : ℕ) : Decidable (k.Covers p size) :=
  inferInstanceAs (Decidable (∀ i < size, _))

/-- `kmalloc` of a buffer, all of whose bytes are accessed. -/
def allot (k : KernelHeap) (size : ℕ) : Option (ℕ × KernelHeap) :=
  (k.kmalloc size).bind fun r => if r.2.Covers r.1 size then some r else none

/-- A buffer is what `kmalloc` has returned. -/
lemma kmalloc_of_allot (h : k.allot size = some (p, k₁)) : k.kmalloc size = some (p, k₁) := by
  obtain ⟨r, hr, hcovers⟩ := Option.bind_eq_some_iff.mp h
  rw [hr, (Option.ite_none_right_eq_some.mp hcovers).2]

/-- A function takes a buffer, all of whose bytes it accesses, and gives it back before it returns.
-/
def lend (k : KernelHeap) (size : ℕ) : Option KernelHeap :=
  (k.allot size).bind fun r => r.2.kfree r.1

/-- The buffer `p`, taken in `k₁` and given back in `k₂`. While it is live all of its bytes are
mapped, and no entry of the allocator is in it. -/
structure Lent (p size : ℕ) (k₁ k₂ : KernelHeap) : Prop where
  taken : TameReach k₁
  live : p ∈ k₁.heap.live
  covers : k₁.Covers p size
  apart : k₁.heap.Apart
  freed : k₁.kfree p = some k₂
  returned : TameReach k₂

/-- An object lies in the page of its slab. -/
lemma covers_objAddr {c : Fin 8} {a j : ℕ} (ha : IsPage a) (hmap : k.heap.slabs.mapped a = true)
    (hj : j < capacity c) (hsize : size ≤ objSize c) : k.Covers (Slabs.objAddr c a j) size := by
  obtain ⟨h₁, h₂⟩ := Slabs.objAddr_bounds (a := a) hj
  obtain ⟨hmod, -, hbound⟩ := ha
  intro i hi
  have hpage : alignDown4k (Slabs.objAddr c a j + i) = a := by
    rw [alignDown4k_eq (by omega)]
    omega
  rw [hpage, hmap]

/-- The bytes of a live object. -/
lemma covers_of_class (hk : Sound k) (hp : p ∈ k.heap.live) {c : Fin 8}
    (hslab : k.heap.slabs.IsSlab c (alignDown4k p)) (hsize : size ≤ objSize c) :
      k.Covers p size := by
  obtain ⟨P, F, hinv⟩ := hk.inv
  have hok := (hinv.caches c).slab _ (((hinv.caches c).slab_iff _).mp hslab)
  obtain ⟨j, hj, hobj⟩ := Slabs.mem_objects.mp
    (hok.parts.mem_iff.mp (List.mem_append_right _ (Kheap.mem_liveIn.mpr ⟨hp, rfl⟩)))
  rw [← hobj]
  exact covers_objAddr hok.page hslab.1 hj hsize

/-- The bytes of whole pages. -/
lemma covers_of_placed {v : ℕ} (hp : Placed k size p k₁ v)
    (hlt : size + sizeofSlab < 65535 * 4096) :
    k₁.Covers p size := by
  have hsize : size + 16 < 65535 * 4096 := hlt
  have hpages : Slabs.fpPages size = (size + 16) / 4096 + 1 := by
    rw [Slabs.fpPages, sizeofSlab, Nat.mod_eq_of_lt (by omega)]
  have hbound : v + Slabs.fpPages size ≤ 130048 := hp.allocated.bound
  have hptr := hp.ptr
  intro i hi
  have hlt : v + (16 + i) / 4096 < kheapPagesNum := show _ < 130048 by omega
  have hpage : alignDown4k (p + i) = heapAddr (v + (16 + i) / 4096) := by
    rw [heapAddr_eq (show v < 130048 by omega)] at hptr
    rw [heapAddr_eq hlt, alignDown4k_eq (by omega)]
    omega
  rw [hpage, hp.allocated.coupled.mapped_heapAddr hlt, hp.allocated.run.record, if_pos (by omega)]

/-- The bytes that `kmalloc` returns are mapped. -/
lemma Sound.covers (hr : TameReach k) (hen : k.Enabled (.kmalloc size))
    (hlt : size + sizeofSlab < 65535 * 4096) (hs : k.kmalloc size = some (p, k₁))
    (hr₁ : TameReach k₁) (hp : p ∈ k₁.heap.live) : k₁.Covers p size := by
  have hk := sound_of_tame hr
  cases hclass : sizeToClass size with
  | some c =>
    obtain ⟨P, F, hinv⟩ := hk.inv
    obtain ⟨v, -, hfresh, -, -, -⟩ := hk.coupled.mmapFor hen.2
    obtain ⟨r, hs', heq⟩ := Option.map_eq_some_iff.mp hs
    obtain ⟨rfl, rfl⟩ := Prod.mk.inj heq
    have hslab := hinv.isSlab_kmalloc (fun _ => hk.unused) hfresh hclass hs'
    refine covers_of_class (sound_of_tame hr₁) hp hslab ?_
    have hfind := List.find?_some hclass
    exact of_decide_eq_true hfind
  | none =>
    have hbig : 2048 < size := by
      by_contra hle
      rcases Nat.lt_or_ge 1024 size with h | h
      · rw [class_last h (by omega)] at hclass
        exact absurd hclass (by simp)
      · have hfind := List.find?_eq_none.mp hclass 6 (by decide)
        have hsize : objSize 6 = 1024 := by decide
        simp only [decide_eq_true_eq, hsize] at hfind
        omega
    obtain ⟨q, k', v, hs', hplaced⟩ := hk.coupled.placed hbig hen.1
      (demand_whole k.heap.slabs hbig ▸ hen.2
        (by rw [demand_whole _ hbig]; exact Nat.succ_ne_zero _))
    obtain ⟨rfl, rfl⟩ := Prod.mk.inj (Option.some.inj (hs.symm.trans hs'))
    exact covers_of_placed hplaced hlt

/-- **A buffer that is not of the last class** is taken and given back. -/
theorem lent (hr : TameReach k) (hen : k.Enabled (.kmalloc size))
    (hsize : size ≤ 1024 ∨ 2048 < size) (hlt : size + sizeofSlab < 65535 * 4096) :
    ∃ p k₁ k₂, k.allot size = some (p, k₁) ∧ k.lend size = some k₂ ∧ Lent p size k₁ k₂ := by
  have hk := sound_of_tame hr
  obtain ⟨p, k₁, hs, hstep, hp⟩ := hk.kmalloc hen
  have hguard : k.Tame (.kmalloc size) := ⟨hsize, fun _ => hk.unused⟩
  have hr₁ : TameReach k₁ := hr.next hguard hstep
  have hk₁ := sound_of_tame hr₁
  obtain ⟨k₂, hs₂⟩ := hk₁.kfree hp
  have hclear : k₁.Tame (.kfree p) := by
    refine ⟨trivial, ?_⟩
    obtain ⟨P, F, hinv⟩ := hk.inv
    obtain ⟨P₁, F₁, hinv₁⟩ := hk₁.inv
    obtain ⟨v, -, hfresh, -, -, -⟩ := hk.coupled.mmapFor hen.2
    obtain ⟨r, hs', heq⟩ := Option.map_eq_some_iff.mp hs
    obtain ⟨rfl, rfl⟩ := Prod.mk.inj heq
    exact Kheap.clear_kfree hinv hk.stacked hfresh hs' hinv₁
  have hstep₂ : k₁.Step (.kfree p) k₂ := ⟨hp, hs₂⟩
  have hcovers := Sound.covers hr hen hlt hs hr₁ hp
  have hallot : k.allot size = some (p, k₁) := by rw [allot, hs, Option.bind_some, if_pos hcovers]
  refine ⟨p, k₁, k₂, hallot, ?_, hr₁, hp, hcovers, hk₁.apart, hs₂, hr₁.next hclear hstep₂⟩
  rw [lend, hallot, Option.bind_some, hs₂]

/-- **A buffer of the last class**: it is taken and given back, and the next `kmalloc` for the
class, which asks for no page, reads a slab in a page that is not mapped. -/
theorem lost {n : ℕ} (hr : TameReach k) (hen : k.Enabled (.kmalloc size)) (h₁ : 1024 < size)
    (h₂ : size ≤ 2048) (hn₁ : 1024 < n) (hn₂ : n ≤ 2048) :
    ∃ k₂, k.lend size = some k₂ ∧ k₂.Enabled (.kmalloc n) ∧ k₂.allot n = none := by
  have hk := sound_of_tame hr
  obtain ⟨P, F, hinv⟩ := hk.inv
  have hclass := class_last h₁ h₂
  have hdemand : k.heap.slabs.demand size = 1 := by
    rw [Slabs.demand, hclass]
    exact if_neg (not_not.mpr hk.unused)
  obtain ⟨v, -, hfresh, -, -, -⟩ := hk.coupled.mmapFor hen.2
  obtain ⟨page, haddr⟩ : ∃ page, (KernelHeap.mmapFor k.mm 1).1 = page := ⟨_, rfl⟩
  rw [hdemand, haddr] at hfresh
  have hpage := hfresh.isPage Nat.one_pos
  have hs : k.heap.slabs.kmalloc size page = some (k.heap.slabs.newSlab 7 page) := by
    rw [Slabs.kmalloc, hclass]
    exact if_neg (not_not.mpr hk.unused)
  obtain ⟨s', hs', hhead, hmap⟩ := Slabs.kfree_newSlab_last hpage (hinv.unused hk.unused).2
  have hne : s'.partialHead 7 ≠ 0 := by
    rw [hhead]
    exact hpage.pos.ne'
  obtain ⟨k₁, hk₁, hslabs₁⟩ : ∃ k₁, k.kmalloc size = some ((k.heap.slabs.newSlab 7 page).1, k₁) ∧
      k₁.heap.slabs = (k.heap.slabs.newSlab 7 page).2 :=
    ⟨_, by rw [KernelHeap.kmalloc, hdemand, haddr, hs, Option.map_some], rfl⟩
  have hmapped : k₁.heap.slabs.mapped page = true := by
    rw [hslabs₁]
    exact (Kheap.isSlab_newSlab k.heap.slabs 7 _).1
  have hallot : k.allot size = some ((k.heap.slabs.newSlab 7 page).1, k₁) := by
    rw [allot, hk₁, Option.bind_some]
    exact if_pos (covers_objAddr hpage hmapped (by decide) h₂)
  obtain ⟨k₂, hk₂, rfl⟩ : ∃ k₂, k₁.kfree (k.heap.slabs.newSlab 7 page).1 = some k₂ ∧
      k₂.heap.slabs = s' :=
    ⟨_, by rw [KernelHeap.kfree, hslabs₁, hs', Option.map_some], rfl⟩
  refine ⟨k₂, by rw [lend, hallot, Option.bind_some, hk₂], ⟨by omega, fun hpages => ?_⟩, ?_⟩
  · rw [Slabs.demand, class_last hn₁ hn₂] at hpages
    exact absurd (if_pos hne) hpages
  · rw [allot, KernelHeap.kmalloc, Slabs.kmalloc, class_last hn₁ hn₂]
    dsimp only
    rw [if_pos hne, Slabs.popPartial, if_pos (.inl (by rw [hhead]; exact hmap)), Option.map_none,
      Option.bind_none]

/-! ## Room for buffers -/

/-- There is room for a small buffer. -/
lemma Room.enabled_small (h : k.Room w m) (hsize : size ≤ 7168) (hw : w + 2 ≤ kheapPagesNum)
    (hm : 129 ≤ m) : k.Enabled (.kmalloc size) := by
  have hdemand := demand_le k.heap.slabs hsize
  exact h.enabled (by omega) (by omega) (by omega)

/-- The room after a small buffer has been given back. -/
lemma Room.lend (hr : TameReach k) (h : k.Room w m)
    (hsize : size ≤ 1024 ∨ 2048 < size ∧ size ≤ 7168) (hw : w + 2 ≤ kheapPagesNum) (hm : 129 ≤ m)
    (hs : k.lend size = some k₂) :
    k₂.Room (w + 2) (m - 129) := by
  have hdemand := demand_le k.heap.slabs (show size ≤ 7168 by omega)
  have hen := h.enabled_small (show size ≤ 7168 by omega) hw hm
  obtain ⟨p, k₁, k₃, hallot, hlend, hlent⟩ := lent hr hen (by omega) (by rw [sizeofSlab]; omega)
  obtain rfl := Option.some.inj (hs.symm.trans hlend)
  have hroom := h.kmalloc (sound_of_tame hr).coupled (by omega) (by omega) (kmalloc_of_allot hallot)
  exact (hroom.kfree (sound_of_tame hlent.taken).coupled hlent.live hlent.freed).mono
    (by omega) (by omega)

end KernelHeap

end AlphaOS
