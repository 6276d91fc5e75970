import AlphaOS.Slab.Pages
import AlphaOS.Slab.Caches
import AlphaOS.Mm.HeapRuns

set_option relaxedAutoImplicit false
set_option autoImplicit false

/-!
# The kernel heap: `kmalloc` and `kfree` over `mmap` and `unmmap`

The slab allocator together with the memory manager under it. A request of more than `2048` bytes is
served by whole pages, whose number is kept in the 16 bits of `total_count` until `kfree` reads it.
This file says for which sizes the pages cover the request and `kfree` gives all of them back.

## Main definitions

* `AlphaOS.KernelHeap` — the memory manager and the allocator.
* `AlphaOS.KernelHeap.kmalloc`, `AlphaOS.KernelHeap.kfree` — the functions of the source.
* `AlphaOS.KernelHeap.Alone` — the guard: `kmalloc` for the last class only while its cache has no
  slab recorded.
* `AlphaOS.KernelHeap.Coupled` — the invariant: both sides agree on the pages that are mapped.
* `AlphaOS.KernelHeap.Room` — heap pages and frames that are free.
* `AlphaOS.KernelHeap.Served` — a request is covered by the pages mapped for it, and a later `kfree`
  gives back those pages.

## Main results

* `AlphaOS.KernelHeap.Coupled.step` — every call keeps the invariant.
* `AlphaOS.KernelHeap.reach_heap` — a run of both is a run of the allocator.
* `AlphaOS.KernelHeap.alone_returns` — every call that meets the guard returns.
* `AlphaOS.KernelHeap.served_iff` — the requests that are served.
* `AlphaOS.KernelHeap.page_count_truncated` — a request that is not.

## Design

The fields of the slabs are those of `AlphaOS.Slabs`; the frames behind the pages are those of
`AlphaOS.Mm`. A call of `kmalloc` is made while `mmap` finds the heap pages and frames that it
needs, a call of `kfree` on a live pointer, and a run ends at a call that leaves the allocator's
data. The runs of the main result are those in which `kmalloc` is called for the last class only
while its cache has no slab recorded, and there no call does so.
-/

namespace AlphaOS

/-! ## Model -/

/-- The memory manager, and the allocator with the pointers that its clients hold. -/
structure KernelHeap where
  mm : Mm
  heap : Kheap

namespace KernelHeap

open Mm

variable {k k₁ k₂ k₃ : KernelHeap} {p v n u size : ℕ}

/-- The call of `mmap` in `kmalloc`. No call is made when no page is needed. -/
def mmapFor (s : Mm) (n : ℕ) : ℕ × Mm := if n = 0 then (kheapStart, s) else s.mmap n kernelFlags

/-- `kmalloc`: the pointer returned, and the state. -/
def kmalloc (k : KernelHeap) (size : ℕ) : Option (ℕ × KernelHeap) :=
  (k.heap.slabs.kmalloc size (mmapFor k.mm (k.heap.slabs.demand size)).1).map fun r =>
    (r.1, ⟨(mmapFor k.mm (k.heap.slabs.demand size)).2, ⟨r.2, r.1 :: k.heap.live⟩⟩)

/-- `kfree`. -/
def kfree (k : KernelHeap) (ptr : ℕ) : Option KernelHeap :=
  (k.heap.slabs.kfree ptr).map fun s =>
    ⟨k.mm.unmmap (alignDown4k ptr) (k.heap.slabs.kfreePages ptr), ⟨s, k.heap.live.erase ptr⟩⟩

/-- A call of one of the two functions. -/
inductive Call
  | kmalloc (size : ℕ)
  | kfree (ptr : ℕ)
deriving DecidableEq, Repr

/-- There are heap pages and frames for `kmalloc`, and a pointer that is freed is live. -/
def Enabled (k : KernelHeap) : Call → Prop
  | .kmalloc size => size < 2 ^ 32 ∧ (k.heap.slabs.demand size ≠ 0 →
      k.mm.HeapEnabled (.mmap (k.heap.slabs.demand size) kernelFlags))
  | .kfree ptr => ptr ∈ k.heap.live

/-- What a call does. -/
def exec (k : KernelHeap) : Call → Option KernelHeap
  | .kmalloc size => (k.kmalloc size).map Prod.snd
  | .kfree ptr => k.kfree ptr

/-- An enabled call that does not leave the allocator's data. -/
def Step (k : KernelHeap) (call : Call) (k' : KernelHeap) : Prop :=
  k.Enabled call ∧ k.exec call = some k'

/-- The call, with `page` for what `mmap` returns. -/
def Call.at (page : ℕ) : Call → Kheap.Call
  | .kmalloc size => .kmalloc size page
  | .kfree ptr => .kfree ptr

/-- `kmalloc` for the last class is called only while its cache has no slab recorded. -/
def Alone (k : KernelHeap) (call : Call) : Prop := k.heap.Alone (call.at 0)

/-- After boot: no heap page is mapped and nothing has been allocated. -/
def Init (k : KernelHeap) : Prop := HeapBoot k.mm ∧ k.heap.Init

/-! ## The invariant -/

/-- **The invariant**: the pages that are mapped for the allocator are those of `kheap_pages`. -/
structure Coupled (k : KernelHeap) : Prop where
  window : Window k.mm
  paged : k.heap.Paged
  mapped : ∀ a, k.heap.slabs.mapped a = true ↔
    ∃ u < kheapPagesNum, a = heapAddr u ∧ k.mm.kheapPages u = 1

/-- **The invariant holds after boot.** -/
lemma coupled_of_init (hi : k.Init) : Coupled k := by
  obtain ⟨hboot, hinit⟩ := hi
  refine ⟨hboot.window, Kheap.paged_of_init hinit, fun a => ?_⟩
  simp [hinit.2.2.1, hboot.pages]

/-- Heap pages have different addresses. -/
lemma heapAddr_inj (hu : u < kheapPagesNum) (hv : v < kheapPagesNum) (h : heapAddr u = heapAddr v) :
    u = v := by
  rw [heapAddr_eq hu, heapAddr_eq hv] at h
  omega

/-- The pages of a run of heap pages. -/
lemma inPages_heapAddr {a : ℕ} (hv : v + n ≤ kheapPagesNum) :
    Slabs.inPages (heapAddr v) n a = true ↔ ∃ u, (v ≤ u ∧ u < v + n) ∧ a = heapAddr u := by
  rw [Slabs.inPages, decide_eq_true_eq]
  constructor
  · rintro ⟨h₁, h₂, h₃⟩
    have hlt : v < kheapPagesNum := by omega
    rw [heapAddr_eq hlt] at h₁ h₂ h₃
    refine ⟨v + (a - (0xC0400000 + v * 4096)) / 4096, by omega, ?_⟩
    rw [heapAddr_eq (by omega)]
    omega
  · rintro ⟨u, hu, rfl⟩
    rw [heapAddr_eq (by omega), heapAddr_eq (by omega)]
    omega

/-- A heap page is mapped for the allocator if `kheap_pages` says so. -/
lemma Coupled.mapped_heapAddr (hk : Coupled k) (hu : u < kheapPagesNum) :
    k.heap.slabs.mapped (heapAddr u) = true ↔ k.mm.kheapPages u = 1 := by
  rw [hk.mapped]
  constructor
  · rintro ⟨w, hw, heq, hone⟩
    rwa [heapAddr_inj hu hw heq]
  · exact fun hone => ⟨u, hu, rfl, hone⟩

/-- A run of free heap pages is not mapped for the allocator. -/
lemma Coupled.fresh (hk : Coupled k) (hrun : k.mm.FreeHeapRun v n) (hn : 1 ≤ n) :
    Kheap.Fresh k.heap.slabs (heapAddr v) n := by
  have hbound : v + n ≤ 130048 := hrun.1
  have haddr := heapAddr_eq (show v < kheapPagesNum from show v < 130048 by omega)
  refine ⟨by omega, ?_, by omega, fun a ha => ?_⟩
  · rw [haddr, kheapStart]
    omega
  · obtain ⟨u, hu, rfl⟩ := (inPages_heapAddr hrun.1).mp ha
    rw [← Bool.not_eq_true, hk.mapped_heapAddr (show u < 130048 by omega), hrun.2 u hu.1 hu.2]
    omega

/-! ## Calls -/

/-- **`mmap` in `kmalloc`**, for the pages that the allocator asks for. -/
lemma Coupled.mmapFor (hk : Coupled k)
    (hen : n ≠ 0 → k.mm.HeapEnabled (.mmap n kernelFlags)) :
    ∃ v, v + n ≤ kheapPagesNum ∧ Kheap.Fresh k.heap.slabs (mmapFor k.mm n).1 n ∧
      (mmapFor k.mm n).1 = heapAddr v ∧ k.mm.FreeHeapRun v n ∧
      RunMapped kernelFlags v (v + n) k.mm (mmapFor k.mm n).2 := by
  rw [KernelHeap.mmapFor]
  by_cases hn : n = 0
  · subst hn
    refine ⟨0, Nat.zero_le _, ?_, rfl, ⟨Nat.zero_le _, fun u h₁ h₂ => by omega⟩,
      RunMapped.start hk.window kernelFlags 0⟩
    rw [if_pos rfl]
    dsimp only
    refine ⟨by decide, Nat.le_refl _, by decide, fun a ha => ?_⟩
    rw [Slabs.inPages_zero] at ha
    exact absurd ha (by simp)
  · obtain ⟨hpos, hflags, v, hrun, hframes⟩ := hen hn
    obtain ⟨haddr, hmapped⟩ := hk.window.mmap hpos hflags hrun hframes
    rw [if_neg hn]
    exact ⟨v, hrun.1.1, haddr ▸ hk.fresh hrun.1 hpos, haddr, hrun.1, hmapped⟩

/-- What a call of `kmalloc` has done, with the run of `n` heap pages from `v` on. -/
structure Allocated (k : KernelHeap) (size p : ℕ) (k' : KernelHeap) (v n : ℕ) : Prop where
  coupled : Coupled k'
  bound : v + n ≤ kheapPagesNum
  free : k.mm.FreeHeapRun v n
  run : RunMapped kernelFlags v (v + n) k.mm k'.mm
  served : k.heap.slabs.kmalloc size (heapAddr v) = some (p, k'.heap.slabs)
  live : k'.heap.live = p :: k.heap.live

/-- **`kmalloc` keeps the invariant.** -/
lemma Coupled.kmalloc (hk : Coupled k) (hen : k.Enabled (.kmalloc size))
    (hs : k.kmalloc size = some (p, k₁)) :
    ∃ v, Allocated k size p k₁ v (k.heap.slabs.demand size) := by
  obtain ⟨v, hbound, hfresh, haddr, hfree, hrun⟩ := hk.mmapFor hen.2
  obtain ⟨⟨q, s'⟩, hs', heq⟩ := Option.map_eq_some_iff.mp hs
  obtain ⟨rfl, rfl⟩ := Prod.mk.inj heq
  have hpaged := (hk.paged.kmalloc hfresh hs').2
  have hgrown := Slabs.grown_kmalloc hs'
  rw [haddr] at hs' hgrown
  refine ⟨v, ⟨hrun.window, hpaged, fun a => ?_⟩, hbound, hfree, hrun, hs', rfl⟩
  dsimp only
  rw [hgrown.mapped, Bool.or_eq_true, inPages_heapAddr hbound, hk.mapped]
  constructor
  · rintro (⟨u, hu, rfl⟩ | ⟨u, hu, rfl, hone⟩)
    · exact ⟨u, by omega, rfl, (hrun.record u).trans (if_pos hu)⟩
    · refine ⟨u, hu, rfl, ?_⟩
      rw [hrun.record, hone, ite_self]
  · rintro ⟨u, hu, rfl, hone⟩
    rw [hrun.record] at hone
    split_ifs at hone with hin
    · exact .inl ⟨u, hin, rfl⟩
    · exact .inr ⟨u, hu, rfl, hone⟩

/-- A live pointer is in a heap page. -/
lemma Coupled.page (hk : Coupled k) (hp : p ∈ k.heap.live) :
    ∃ v < kheapPagesNum, alignDown4k p = heapAddr v := by
  obtain ⟨v, hv, haddr, -⟩ := (hk.mapped _).mp (hk.paged.mapped p hp)
  exact ⟨v, hv, haddr⟩

/-- The pages that `kfree` unmaps are mapped. -/
lemma Coupled.mapped_kfree (hk : Coupled k) (hp : p ∈ k.heap.live) (hv : v < kheapPagesNum)
    (haddr : alignDown4k p = heapAddr v) :
    v + k.heap.slabs.kfreePages p ≤ kheapPagesNum ∧
      ∀ u, v ≤ u → u < v + k.heap.slabs.kfreePages p → k.mm.kheapPages u = 1 := by
  -- all pages of the range are mapped for the allocator, so they are heap pages
  have hall : ∀ u, v ≤ u → u < v + k.heap.slabs.kfreePages p →
      u < kheapPagesNum ∧ k.mm.kheapPages u = 1 := by
    intro u h₁ h₂
    have hmap : k.heap.slabs.mapped (heapAddr v + (u - v) * 4096) = true := by
      rw [Slabs.kfreePages] at h₂
      cases howner : k.heap.slabs.cacheOwner (alignDown4k p) with
      | none =>
        rw [howner] at h₂
        refine ((hk.paged.big p hp howner).pages _ ?_).1
        have hle := le_max_right 1 (k.heap.slabs.totalCount (alignDown4k p))
        rw [Kheap.span, haddr, Slabs.inPages, decide_eq_true_eq]
        rw [haddr] at h₂ hle
        dsimp only at h₂
        omega
      | some c =>
        rw [howner] at h₂
        have huv : u = v := by
          dsimp only at h₂
          split_ifs at h₂ <;> omega
        rw [huv, Nat.sub_self, Nat.zero_mul, Nat.add_zero, ← haddr]
        exact hk.paged.mapped p hp
    obtain ⟨w, hw, heq, hw'⟩ := (hk.mapped _).mp hmap
    rw [heapAddr_eq hv, heapAddr_eq hw] at heq
    obtain rfl : u = w := by omega
    exact ⟨hw, hw'⟩
  refine ⟨?_, fun u h₁ h₂ => (hall u h₁ h₂).2⟩
  by_contra hnot
  have := (hall (v + k.heap.slabs.kfreePages p - 1) (by omega) (by omega)).1
  omega

/-- What a call of `kfree` has done, with the run of `n` heap pages from `v` on. -/
structure Freed (k : KernelHeap) (p : ℕ) (k' : KernelHeap) (v n : ℕ) : Prop where
  coupled : Coupled k'
  run : RangeUnmapped v (v + n) k.mm k'.mm
  shrunk : Slabs.Shrunk k.heap.slabs k'.heap.slabs (heapAddr v) n
  live : k'.heap.live = k.heap.live.erase p

/-- **`kfree` keeps the invariant.** -/
lemma Coupled.kfree (hk : Coupled k) (hp : p ∈ k.heap.live) (hv : v < kheapPagesNum)
    (haddr : alignDown4k p = heapAddr v) (hs : k.kfree p = some k₁) :
    Freed k p k₁ v (k.heap.slabs.kfreePages p) := by
  obtain ⟨s', hs', rfl⟩ := Option.map_eq_some_iff.mp hs
  obtain ⟨hbound, hmapped⟩ := hk.mapped_kfree hp hv haddr
  have hpaged := hk.paged.kfree hp hs'
  have hshrunk := (Slabs.shrunk_kfree hs').2
  have hrun := hk.window.unmmap hbound fun u h₁ h₂ =>
    (hk.window.record (by omega)).1.mp (hmapped u h₁ h₂)
  rw [haddr] at hshrunk
  refine ⟨⟨haddr ▸ hrun.window, hpaged, fun a => ?_⟩, haddr ▸ hrun, hshrunk, rfl⟩
  dsimp only
  rw [haddr, hshrunk.mapped, Bool.and_eq_true, hk.mapped, Bool.not_eq_true', ← Bool.not_eq_true,
    inPages_heapAddr hbound]
  constructor
  · rintro ⟨⟨u, hu, rfl, hone⟩, hout⟩
    refine ⟨u, hu, rfl, ?_⟩
    rw [hrun.record, if_neg fun hin => hout ⟨u, hin, rfl⟩]
    exact hone
  · rintro ⟨u, hu, rfl, hone⟩
    rw [hrun.record] at hone
    split_ifs at hone with hin
    refine ⟨⟨u, hu, rfl, hone⟩, ?_⟩
    rintro ⟨w, hw, heq⟩
    exact hin (heapAddr_inj hu (by omega) heq ▸ hw)

/-- **Every call keeps the invariant.** -/
lemma Coupled.step {call : Call} (hk : Coupled k) (hstep : k.Step call k₁) : Coupled k₁ := by
  obtain ⟨hen, hexec⟩ := hstep
  cases call with
  | kmalloc size =>
    obtain ⟨⟨p, k'⟩, hs, rfl⟩ := Option.map_eq_some_iff.mp hexec
    obtain ⟨v, ha⟩ := hk.kmalloc hen hs
    exact ha.coupled
  | kfree ptr =>
    obtain ⟨v, hv, haddr⟩ := hk.page hen
    exact (hk.kfree hen hv haddr hexec).coupled

/-! ## Runs of the allocator -/

/-- A call is one of the allocator, with the page that `mmap` returns. -/
lemma Coupled.stepHeap {call : Call} (hk : Coupled k) (hstep : k.Step call k₁) :
    ∃ page, k.heap.Step (call.at page) k₁.heap := by
  obtain ⟨hen, hexec⟩ := hstep
  cases call with
  | kmalloc size =>
    obtain ⟨v, -, hfresh, -, -, -⟩ := hk.mmapFor hen.2
    obtain ⟨r, hr, rfl⟩ := Option.map_eq_some_iff.mp hexec
    obtain ⟨q, hq, rfl⟩ := Option.map_eq_some_iff.mp hr
    refine ⟨_, ⟨hen.1, hfresh⟩, ?_⟩
    rw [Call.at, Kheap.exec, hq, Option.map_some]
  | kfree ptr =>
    obtain ⟨s', hs', rfl⟩ := Option.map_eq_some_iff.mp hexec
    refine ⟨0, hen, ?_⟩
    rw [Call.at, Kheap.exec, hs', Option.map_some]

/-- **A run of both is a run of the allocator**, under a guard that does not look at the page. -/
lemma reach_heap (ok : Kheap → Kheap.Call → Prop)
    (hok : ∀ h call page, ok h (Call.at 0 call) → ok h (call.at page))
    (hr : Transition.Reach Init Step (fun k call => ok k.heap (call.at 0)) k) :
    Coupled k ∧ Transition.Reach Kheap.Init Kheap.Step ok k.heap := by
  induction hr with
  | start hi => exact ⟨coupled_of_init hi, .start hi.2⟩
  | @next k k' call _ hguard hstep ih =>
    obtain ⟨page, hheap⟩ := ih.1.stepHeap hstep
    exact ⟨ih.1.step hstep, ih.2.next (hok _ _ page hguard) hheap⟩

/-- The runs of `AlphaOS.KernelHeap.Alone`. -/
lemma inv_of_alone (hr : Transition.Reach Init Step Alone k) :
    Coupled k ∧ ∃ P F, Kheap.Inv k.heap P F := by
  have hok (h : Kheap) (call : Call) (page : ℕ) (hguard : h.Alone (call.at 0)) :
      h.Alone (call.at page) := by
    cases call with
    | kmalloc size => exact hguard
    | kfree ptr => exact hguard
  obtain ⟨hk, hheap⟩ := reach_heap Kheap.Alone hok hr
  exact ⟨hk, Kheap.inv_of_reach hheap⟩

/-- **Every call returns** in a run whose calls meet the guard, if it does so itself. -/
lemma alone_returns {call : Call} (hr : Transition.Reach Init Step Alone k) (hen : k.Enabled call)
    (halone : k.Alone call) : ∃ k', k.exec call = some k' := by
  obtain ⟨hk, P, F, hinv⟩ := inv_of_alone hr
  cases call with
  | kmalloc size =>
    obtain ⟨v, -, hfresh, -, -, -⟩ := hk.mmapFor hen.2
    have hok : k.heap.Alone
        (.kmalloc size (mmapFor k.mm (k.heap.slabs.demand size)).1) := halone
    obtain ⟨p, s', hs', -⟩ := hinv.kmalloc hok hfresh
    rw [exec, KernelHeap.kmalloc, hs']
    exact ⟨_, rfl⟩
  | kfree ptr =>
    obtain ⟨s', hs', -⟩ := hinv.kfree hen
    rw [exec, KernelHeap.kfree, hs']
    exact ⟨_, rfl⟩

/-! ## Room -/

/-- All heap pages from `w` on are free, and so are `m` frames. -/
structure Room (k : KernelHeap) (w m : ℕ) : Prop where
  pages : ∀ u, w ≤ u → u < kheapPagesNum → k.mm.kheapPages u = 0
  frames : m ≤ k.mm.lowCount

variable {w m : ℕ}

/-- `mmap` finds a run of pages no higher than `w`. -/
lemma Room.lowest (h : k.Room w m) (hw : w + n ≤ kheapPagesNum) (hm : n + 127 ≤ m) (hn : 1 ≤ n) :
    ∃ v ≤ w, k.mm.LowestRun v n ∧ k.mm.EnoughFrames v n := by
  have hfree : k.mm.FreeHeapRun w n := ⟨hw, fun u h₁ h₂ => h.pages u h₁ (by omega)⟩
  obtain ⟨-, hrun⟩ := freeVirtAreaIdx_lowest hn hfree
  refine ⟨_, ?_, hrun, ?_⟩
  · by_contra hlt
    exact hrun.2 w (by omega) hfree
  · have hmissing := card_tablesMissing_le k.mm hrun.1.1
    have hframes := h.frames
    rw [EnoughFrames]
    omega

/-- There is room for `kmalloc`. -/
lemma Room.enabled (h : k.Room w m) (hlt : size < 2 ^ 32)
    (hw : w + k.heap.slabs.demand size ≤ kheapPagesNum) (hm : k.heap.slabs.demand size + 127 ≤ m) :
    k.Enabled (.kmalloc size) := by
  refine ⟨hlt, fun hne => ?_⟩
  obtain ⟨v, -, hrun⟩ := h.lowest hw hm (Nat.pos_of_ne_zero hne)
  exact ⟨Nat.pos_of_ne_zero hne, by decide, v, hrun⟩

/-- The room that `kmalloc` leaves. -/
lemma Room.kmalloc (hk : Coupled k) (h : k.Room w m)
    (hw : w + k.heap.slabs.demand size ≤ kheapPagesNum) (hm : k.heap.slabs.demand size + 127 ≤ m)
    (hs : k.kmalloc size = some (p, k₁)) :
    k₁.Room (w + k.heap.slabs.demand size) (m - (k.heap.slabs.demand size + 127)) := by
  obtain ⟨r, -, heq⟩ := Option.map_eq_some_iff.mp hs
  have hmm : k₁.mm = (mmapFor k.mm (k.heap.slabs.demand size)).2 := by rw [← (Prod.mk.inj heq).2]
  generalize k.heap.slabs.demand size = n at hw hm hmm
  rw [mmapFor] at hmm
  by_cases hn : n = 0
  · subst hn
    rw [if_pos rfl] at hmm
    refine ⟨fun u h₁ h₂ => ?_, ?_⟩
    · rw [hmm]
      exact h.pages u (by omega) h₂
    · rw [hmm]
      exact (Nat.sub_le _ _).trans h.frames
  · rw [if_neg hn] at hmm
    obtain ⟨v, hv, hrun, hframes⟩ := h.lowest hw hm (Nat.pos_of_ne_zero hn)
    obtain ⟨-, hmapped⟩ :=
      hk.window.mmap (Nat.pos_of_ne_zero hn) (by decide : kernelFlags < 256) hrun hframes
    rw [← hmm] at hmapped
    refine ⟨fun u h₁ h₂ => ?_, ?_⟩
    · rw [hmapped.record, if_neg (by omega)]
      exact h.pages u (by omega) h₂
    · have hcount := hmapped.count
      have hmissing := card_tablesMissing_le k.mm hrun.1.1
      have := h.frames
      omega

/-- `kfree` takes no room. -/
lemma Room.kfree (hk : Coupled k) (h : k.Room w m) (hp : p ∈ k.heap.live)
    (hs : k.kfree p = some k₁) :
    k₁.Room w m := by
  obtain ⟨v, hv, haddr⟩ := hk.page hp
  have hrun := (hk.kfree hp hv haddr hs).run
  refine ⟨fun u h₁ h₂ => ?_, h.frames.trans (Finset.card_le_card fun f hf => ?_)⟩
  · rw [hrun.record, h.pages u h₁ h₂, ite_self]
  · obtain ⟨⟨hsize, hfree⟩, hlow⟩ := mem_lowFrames.mp hf
    refine mem_lowFrames.mpr ⟨⟨hrun.size ▸ hsize, fun hused => hfree ?_⟩, hlow⟩
    exact ((hrun.used f).mp hused).1

/-- Less room. -/
lemma Room.mono {w' m' : ℕ} (h : k.Room w m) (hw : w ≤ w') (hm : m' ≤ m) : k.Room w' m' :=
  ⟨fun u h₁ h₂ => h.pages u (hw.trans h₁) h₂, hm.trans h.frames⟩

/-- The pages of a request of less than two pages. -/
lemma demand_le (s : Slabs) (hsize : size ≤ 7168) : s.demand size ≤ 2 := by
  rw [Slabs.demand]
  cases sizeToClass size with
  | none =>
    dsimp only
    rw [Slabs.fpPages, sizeofSlab, Nat.mod_eq_of_lt (by omega)]
    omega
  | some c =>
    dsimp only
    split_ifs <;> omega

/-! ## An allocation of whole pages -/

/-- The allocation at `p` has the run of `n` heap pages from `v` on, with the entries `e`. -/
structure Holds (p v n : ℕ) (e : ℕ → ℕ) (k : KernelHeap) : Prop where
  live : p ∈ k.heap.live
  lt : v < kheapPagesNum
  addr : alignDown4k p = heapAddr v
  owner : k.heap.slabs.cacheOwner (heapAddr v) = none
  count : k.heap.slabs.totalCount (heapAddr v) = n
  entries : ∀ u, v ≤ u → u < v + n → k.mm.heapEntry u = e u

variable {e : ℕ → ℕ}

/-- `kfree` of the allocation gives all of its pages to `unmmap`. -/
lemma Holds.kfreePages_eq (hh : Holds p v n e k) : k.heap.slabs.kfreePages p = n := by
  rw [Slabs.kfreePages, hh.addr, hh.owner]
  exact hh.count

/-- The pages of the allocation are mapped. -/
lemma Holds.mapped (hh : Holds p v n e k) (hk : Coupled k) :
    v + n ≤ kheapPagesNum ∧ ∀ u, v ≤ u → u < v + n → k.mm.kheapPages u = 1 := by
  have hmapped := hk.mapped_kfree hh.live hh.lt hh.addr
  rwa [hh.kfreePages_eq] at hmapped

/-- **Another call leaves the allocation alone.**

**Proof sketch.** `kmalloc` maps pages that were free. What another `kfree` unmaps is seen after the
call: the allocation is still live, so the invariant says that all of its pages are mapped. -/
lemma Holds.step {call : Call} (hh : Holds p v n e k) (hk : Coupled k) (hne : call ≠ .kfree p)
    (hstep : k.Step call k₁) : Holds p v n e k₁ := by
  have hk₁ := hk.step hstep
  obtain ⟨hbound, hone⟩ := hh.mapped hk
  obtain ⟨hen, hexec⟩ := hstep
  cases call with
  | kmalloc size =>
    obtain ⟨⟨q, k'⟩, hs, rfl⟩ := Option.map_eq_some_iff.mp hexec
    obtain ⟨w, ha⟩ := hk.kmalloc hen hs
    dsimp only
    have hgrown := Slabs.grown_kmalloc ha.served
    have hmap : k.heap.slabs.mapped (heapAddr v) = true := hh.addr ▸ hk.paged.mapped p hh.live
    have hout : ¬ Slabs.inPages (heapAddr w) (k.heap.slabs.demand size) (heapAddr v) = true := by
      rw [inPages_heapAddr ha.bound]
      rintro ⟨u, hu, heq⟩
      rw [← heapAddr_inj hh.lt (by have := ha.bound; omega) heq] at hu
      have hfree := ha.free.2 v hu.1 hu.2
      rw [(hk.mapped_heapAddr hh.lt).mp hmap] at hfree
      omega
    constructor
    case live => rw [ha.live]; exact List.mem_cons_of_mem _ hh.live
    case lt => exact hh.lt
    case addr => exact hh.addr
    case owner => exact (hgrown.cacheOwner _ hout).trans hh.owner
    case count => exact (hgrown.totalCount _ hout).trans hh.count
    case entries =>
      intro u h₁ h₂
      rw [ha.run.heapEntry (by omega) fun hin => ?_, hh.entries u h₁ h₂]
      have hfree := ha.free.2 u hin.1 hin.2
      rw [hone u h₁ h₂] at hfree
      omega
  | kfree ptr =>
    have hptr : p ≠ ptr := fun heq => hne (heq ▸ rfl)
    obtain ⟨w, hw, haddr⟩ := hk.page hen
    have hf := hk.kfree hen hw haddr hexec
    have hlive : p ∈ k₁.heap.live := by
      rw [hf.live]
      exact (List.mem_erase_of_ne hptr).mpr hh.live
    have howner : k₁.heap.slabs.cacheOwner (heapAddr v) = none := by
      rw [hf.shrunk.cacheOwner]
      exact hh.owner
    have hcount : k₁.heap.slabs.totalCount (heapAddr v) = n := by
      rw [hf.shrunk.totalCount]
      exact hh.count
    have hnew : Holds p v n k₁.mm.heapEntry k₁ :=
      ⟨hlive, hh.lt, hh.addr, howner, hcount, fun _ _ _ => rfl⟩
    refine ⟨hlive, hh.lt, hh.addr, howner, hcount, fun u h₁ h₂ => ?_⟩
    rw [hf.run.heapEntry (by omega) fun hin => ?_, hh.entries u h₁ h₂]
    have hstill := (hnew.mapped hk₁).2 u h₁ h₂
    rw [hf.run.record, if_pos hin] at hstill
    omega

/-- The calls between `kmalloc` and `kfree(p)`. -/
def Between (k : KernelHeap) (p : ℕ) (call : Call) : Prop := k.Alone call ∧ call ≠ .kfree p

/-- The allocation is there in every state of a run without `kfree(p)`. -/
lemma Holds.run (hh : Holds p v n e k₁) (hk : Coupled k₁)
    (hr : Transition.Reach (· = k₁) Step (fun k call => k.Between p call) k₂) :
      Coupled k₂ ∧ Holds p v n e k₂ := by
  refine hr.invariant (I := fun k => Coupled k ∧ Holds p v n e k) ?_ ?_
  · rintro k rfl
    exact ⟨hk, hh⟩
  · intro k call k' hboth hbetween hstep
    exact ⟨hboth.1.step hstep, hboth.2.step hboth.1 hbetween.2 hstep⟩

/-- Such a run goes on from a run before it. -/
lemma reach_between (hr : Transition.Reach Init Step Alone k₁)
    (hr' : Transition.Reach (· = k₁) Step (fun k call => k.Between p call) k₂) :
      Transition.Reach Init Step Alone k₂ := by
  induction hr' with
  | start heq => exact heq ▸ hr
  | next _ hbetween hstep ih => exact ih.next hbetween.1 hstep

/-! ## Requests that are served -/

/-- The heap pages that a call has mapped. -/
def MappedBy (k k₁ : KernelHeap) (u : ℕ) : Prop := k.mm.kheapPages u = 0 ∧ k₁.mm.kheapPages u = 1

instance (k k₁ : KernelHeap) (u : ℕ) : Decidable (MappedBy k k₁ u) :=
  inferInstanceAs (Decidable (_ ∧ _))

/-- Between `k₂` and `k₃` exactly the pages are unmapped that the call from `k` to `k₁` has mapped,
and exactly the frames are freed that it had put there. -/
structure GivesBack (k k₁ k₂ k₃ : KernelHeap) : Prop where
  pages : ∀ u, k₃.mm.kheapPages u = if MappedBy k k₁ u then 0 else k₂.mm.kheapPages u
  entries : ∀ u < kheapPagesNum,
    k₃.mm.heapEntry u = if MappedBy k k₁ u then 0 else k₂.mm.heapEntry u
  frames : ∀ g, k₃.mm.used g ↔ k₂.mm.used g ∧ ∀ u, MappedBy k k₁ u → k₁.mm.heapEntry u / 4096 ≠ g

/-- `kmalloc(size)` from `k` to `k₁` returns `p` with all of its bytes in pages that the call has
mapped, to frames that were free; and after any calls that meet the guard, but `kfree(p)` itself,
`kfree(p)` gives back those pages. Each of these calls returns. -/
structure Whole (k : KernelHeap) (size p : ℕ) (k₁ : KernelHeap) : Prop where
  inside : ∀ x, p ≤ x → x < p + size →
    ∃ u, MappedBy k k₁ u ∧ heapAddr u ≤ x ∧ x < heapAddr u + 4096
  fresh : ∀ u, MappedBy k k₁ u → ¬k.mm.used (k₁.mm.heapEntry u / 4096)
  back : ∀ k₂, Transition.Reach (· = k₁) Step (fun k call => k.Between p call) k₂ →
    ∃ k₃, k₂.kfree p = some k₃ ∧ GivesBack k k₁ k₂ k₃
  returns : ∀ k₂, Transition.Reach (· = k₁) Step (fun k call => k.Between p call) k₂ →
    ∀ call, k₂.Enabled call → k₂.Between p call →
    ∃ k', k₂.exec call = some k'

/-- The request is served. -/
def Served (k : KernelHeap) (size : ℕ) : Prop :=
  ∃ p k₁, k.kmalloc size = some (p, k₁) ∧ Whole k size p k₁

/-- No class has objects for a request of more than `2048` bytes. -/
lemma sizeToClass_eq_none (hsize : 2048 < size) : sizeToClass size = none := by
  have hclass : ∀ c : Fin 8, objSize c ≤ 2048 := by decide
  refine List.find?_eq_none.mpr fun c _ => ?_
  have := hclass c
  simp only [decide_eq_true_eq]
  omega

/-- A request of more than `2048` bytes asks for whole pages. -/
lemma demand_whole (s : Slabs) (hsize : 2048 < size) : s.demand size = Slabs.fpPages size := by
  rw [Slabs.demand, sizeToClass_eq_none hsize]

/-- `kmalloc` of more than `2048` bytes is `fp_allocation`. -/
lemma kmalloc_whole (s : Slabs) (page : ℕ) (hsize : 2048 < size) :
    s.kmalloc size page = some (s.fpAllocation size page) := by
  rw [Slabs.kmalloc, sizeToClass_eq_none hsize]

/-- What holds right after `kmalloc` has mapped the `n` heap pages from `v` on for the request. -/
structure Placed (k : KernelHeap) (size p : ℕ) (k₁ : KernelHeap) (v : ℕ) : Prop where
  allocated : Allocated k size p k₁ v (Slabs.fpPages size)
  ptr : p = heapAddr v + 16
  holds : Holds p v (Slabs.fpPages size % 2 ^ 16) k₁.mm.heapEntry k₁
  mappedBy : ∀ u, MappedBy k k₁ u ↔ v ≤ u ∧ u < v + Slabs.fpPages size

/-- **`kmalloc` of more than `2048` bytes** succeeds when there are heap pages and frames. -/
lemma Coupled.placed (hk : Coupled k) (hsize : 2048 < size) (hlt : size < 2 ^ 32)
    (hen : k.mm.HeapEnabled (.mmap (Slabs.fpPages size) kernelFlags)) :
    ∃ p k₁ v, k.kmalloc size = some (p, k₁) ∧ Placed k size p k₁ v := by
  have hdemand := demand_whole k.heap.slabs hsize
  obtain ⟨⟨p, k₁⟩, hs⟩ : ∃ r, k.kmalloc size = some r := by
    rw [KernelHeap.kmalloc, kmalloc_whole _ _ hsize]
    exact ⟨_, rfl⟩
  have hcall : k.Enabled (.kmalloc size) := ⟨hlt, fun _ => hdemand ▸ hen⟩
  obtain ⟨v, ha⟩ := hk.kmalloc hcall hs
  rw [hdemand] at ha
  have hserved := ha.served
  rw [kmalloc_whole _ _ hsize] at hserved
  obtain ⟨hp, hslabs⟩ := Prod.mk.inj (Option.some.inj hserved)
  have hpos : 0 < Slabs.fpPages size := Nat.succ_pos _
  have hbound := ha.bound
  have hv : v < kheapPagesNum := by omega
  have hptr : p = heapAddr v + 16 := hp.symm
  have hpage : IsPage (heapAddr v) := by
    have hv' : v < 130048 := hv
    have haddr := heapAddr_eq hv
    exact ⟨by omega, by omega, by omega⟩
  refine ⟨p, k₁, v, hs, ha, hptr, ⟨?_, hv, ?_, ?_, ?_, fun _ _ _ => rfl⟩, fun u => ?_⟩
  · rw [ha.live]
    exact List.mem_cons_self
  · rw [hptr]
    exact Kheap.alignDown4k_header hpage
  · rw [← hslabs]
    exact Function.update_self _ _ _
  · rw [← hslabs]
    exact Function.update_self _ _ _
  · rw [MappedBy, ha.run.record]
    constructor
    · rintro ⟨hzero, hone⟩
      by_contra hout
      rw [if_neg hout, hzero] at hone
      omega
    · intro hin
      exact ⟨ha.free.2 u hin.1 hin.2, if_pos hin⟩

/-- The frame of a page that the call has mapped was free. -/
lemma Placed.free (hp : Placed k size p k₁ v) (hu : MappedBy k k₁ u) :
    ¬k.mm.used (k₁.mm.heapEntry u / 4096) := by
  have hin := (hp.mappedBy u).mp hu
  obtain ⟨f, hf, hentry, -⟩ := hp.allocated.run.pages u hin.1 hin.2
  have hflags : kernelFlags < 4096 := by decide
  rw [hentry, show (f * 4096 + kernelFlags) / 4096 = f by omega]
  exact (mem_lowFrames.mp hf).1.2

/-- **A request of less than `65535` pages is served.** -/
lemma Placed.whole (hp : Placed k size p k₁ v) (hr₁ : Transition.Reach Init Step Alone k₁)
    (hlt : size + sizeofSlab < 65535 * 4096) : Whole k size p k₁ := by
  have hsize : size + 16 < 65535 * 4096 := hlt
  have hpages : Slabs.fpPages size = (size + 16) / 4096 + 1 := by
    rw [Slabs.fpPages, sizeofSlab, Nat.mod_eq_of_lt (by omega)]
  have hcount : Slabs.fpPages size % 2 ^ 16 = Slabs.fpPages size := Nat.mod_eq_of_lt (by omega)
  have hbound : v + Slabs.fpPages size ≤ 130048 := hp.allocated.bound
  have haddr : ∀ u, u < 130048 → heapAddr u = 0xC0400000 + u * 4096 := fun u hu => heapAddr_eq hu
  constructor
  case inside =>
    intro x h₁ h₂
    have hptr := hp.ptr
    rw [haddr v (by omega)] at hptr
    refine ⟨v + (x - (0xC0400000 + v * 4096)) / 4096, (hp.mappedBy _).mpr (by omega), ?_⟩
    rw [haddr _ (by omega)]
    omega
  case fresh => exact fun u hu => hp.free hu
  case returns =>
    intro k₂ hr call hen hbetween
    exact alone_returns (reach_between hr₁ hr) hen hbetween.1
  case back =>
    intro k₂ hr
    obtain ⟨hk₂, hh⟩ := hp.holds.run hp.allocated.coupled hr
    rw [hcount] at hh
    have hmap := hk₂.paged.mapped p hh.live
    obtain ⟨k₃, hs⟩ : ∃ k₃, k₂.kfree p = some k₃ := by
      rw [KernelHeap.kfree, Slabs.kfree, if_neg (by rw [hmap]; simp), hh.addr, hh.owner]
      exact ⟨_, rfl⟩
    have hf := hk₂.kfree hh.live hh.lt hh.addr hs
    rw [hh.kfreePages_eq] at hf
    refine ⟨k₃, hs, fun u => ?_, fun u hu => ?_, fun g => ?_⟩
    · rw [hf.run.record]
      exact if_congr (hp.mappedBy u).symm rfl rfl
    · split_ifs with hin
      · rw [hp.mappedBy] at hin
        exact hf.run.cleared u hin.1 hin.2
      · rw [hp.mappedBy] at hin
        exact hf.run.heapEntry hu hin
    · rw [hf.run.used]
      refine and_congr_right fun _ => ?_
      constructor
      · intro hno u hu heq
        obtain ⟨h₁, h₂⟩ := (hp.mappedBy u).mp hu
        have hlt' : u < kheapPagesNum := show u < 130048 by omega
        refine hno u h₁ h₂ ?_
        rw [held_page hlt' ((hk₂.window.record hlt').1.mp ((hh.mapped hk₂).2 u h₁ h₂)),
          hh.entries u h₁ h₂, heq]
      · intro hno u h₁ h₂ heq
        have hlt' : u < kheapPagesNum := show u < 130048 by omega
        rw [held_page hlt' ((hk₂.window.record hlt').1.mp ((hh.mapped hk₂).2 u h₁ h₂)),
          hh.entries u h₁ h₂] at heq
        exact hno u ((hp.mappedBy u).mpr ⟨h₁, h₂⟩) (Option.some.inj heq)

/-- **A request of `65535` pages or more is not served.**

**Proof sketch.** When `size + sizeof(slab_t)` wraps around, one page is mapped and the last byte is
not in it. Otherwise `total_count` holds the number of pages modulo `2 ^ 16`, and `kfree` right
after the call leaves the last page mapped. -/
lemma Placed.lt (hp : Placed k size p k₁ v) (hsize : 2048 < size) (hlt : size < 2 ^ 32)
    (hw : Whole k size p k₁) : size + sizeofSlab < 65535 * 4096 := by
  have hbound : v + Slabs.fpPages size ≤ 130048 := hp.allocated.bound
  by_contra hnot
  have hge : 65535 * 4096 ≤ size + 16 := Nat.le_of_not_lt hnot
  rcases Nat.lt_or_ge (size + 16) (2 ^ 32) with hfit | hwrap
  · have hpages : Slabs.fpPages size = (size + 16) / 4096 + 1 := by
      rw [Slabs.fpPages, sizeofSlab, Nat.mod_eq_of_lt hfit]
    have hmod : Slabs.fpPages size % 2 ^ 16 < Slabs.fpPages size := by omega
    obtain ⟨k₃, hs, hback⟩ := hw.back k₁ (.start rfl)
    have hf := hp.allocated.coupled.kfree hp.holds.live hp.holds.lt hp.holds.addr hs
    rw [hp.holds.kfreePages_eq] at hf
    have hlast : MappedBy k k₁ (v + Slabs.fpPages size - 1) := (hp.mappedBy _).mpr (by omega)
    have hzero := hback.pages (v + Slabs.fpPages size - 1)
    rw [if_pos hlast, hf.run.record, if_neg (by omega), hlast.2] at hzero
    omega
  · have hpages : Slabs.fpPages size = 1 := by
      rw [Slabs.fpPages, sizeofSlab]
      omega
    obtain ⟨u, hu, -, hx⟩ := hw.inside (p + size - 1) (by omega) (by omega)
    have huv : u = v := by
      have hin := (hp.mappedBy u).mp hu
      omega
    rw [huv, hp.ptr] at hx
    omega

/-- A request of more than `2048` bytes is not for the last class. -/
lemma alone_whole (hsize : 2048 < size) : k.Alone (.kmalloc size) := by
  intro hclass
  rw [sizeToClass_eq_none hsize] at hclass
  exact absurd hclass (by simp)

/-- **The requests that are served.** In every state of a run in which `kmalloc` is called for the
last class only while its cache has no slab recorded, and for every size of more than `2048` bytes
for which there are heap pages and frames: the bytes of the request lie in pages that the call has
mapped, and a later `kfree`, whatever such calls come between, gives back exactly those pages and
their frames, if and only if the size with the header is less than `65535` pages.

**Proof sketch.** The guard keeps every call within the allocator's data, so that the header of the
request is changed by no call between. It holds the number of pages modulo `2 ^ 16`, which is the
number of pages exactly for the sizes of the bound; from `2 ^ 32` on the sum of `fp_allocation`
wraps around. -/
theorem served_iff (hr : Transition.Reach Init Step Alone k) (hsize : 2048 < size)
    (hlt : size < 2 ^ 32) (hen : k.mm.HeapEnabled (.mmap (Slabs.fpPages size) kernelFlags)) :
    k.Served size ↔ size + sizeofSlab < 65535 * 4096 := by
  obtain ⟨hk, -⟩ := inv_of_alone hr
  obtain ⟨p, k₁, v, hs, hp⟩ := hk.placed hsize hlt hen
  constructor
  · rintro ⟨q, k', hs', hw⟩
    obtain ⟨rfl, rfl⟩ := Prod.mk.inj (Option.some.inj (hs.symm.trans hs'))
    exact hp.lt hsize hlt hw
  · intro hfits
    have hcall : k.Enabled (.kmalloc size) :=
      ⟨hlt, fun _ => (demand_whole k.heap.slabs hsize).symm ▸ hen⟩
    have hstep : k.Step (.kmalloc size) k₁ := ⟨hcall, by rw [exec, hs, Option.map_some]⟩
    exact ⟨p, k₁, hs, hp.whole (hr.next (alone_whole hsize) hstep) hfits⟩

/-- The kernel heap after boot, on a machine with the given number of frames. -/
def boot (frames : ℕ) : KernelHeap := ⟨{ Sys.bootState.mm with bitmapSize := frames }, Kheap.empty⟩

/-- The state after boot is one to start from. -/
lemma init_boot (frames : ℕ) : (boot frames).Init := by
  obtain ⟨hquiet, hheap, hpages, hzero, hfixed⟩ := heapBoot_bootState
  exact ⟨⟨hquiet, hheap, hpages, hzero, hfixed⟩, Kheap.init_empty⟩

/-- The room after boot on a machine with the given number of frames. -/
lemma room_boot {frames : ℕ} (hle : frames ≤ 2 ^ 20) : (boot frames).Room 0 (frames - 512) := by
  refine ⟨fun _ _ _ => rfl, ?_⟩
  have hsub : Finset.Ico 512 frames ⊆ (boot frames).mm.lowFrames := by
    intro f hf
    rw [Finset.mem_Ico] at hf
    have hfree : ¬(boot frames).mm.used f := fun hu => by
      have := (Sys.bootState_used f).mp hu
      omega
    exact mem_lowFrames.mpr ⟨⟨hf.2, hfree⟩, by omega⟩
  have hcard := Finset.card_le_card hsub
  rwa [Nat.card_Ico] at hcard

/-- After boot there are pages and frames for a request, if the machine has them. -/
lemma enabled_boot {frames : ℕ} (hn : 1 ≤ n) (hmax : n ≤ kheapPagesNum) (hframes : n + 639 ≤ frames)
    (hle : frames ≤ 2 ^ 20) : (boot frames).mm.HeapEnabled (.mmap n kernelFlags) := by
  obtain ⟨v, -, hrun⟩ := (room_boot hle).lowest (n := n) (by omega) (by omega) hn
  exact ⟨hn, by decide, v, hrun⟩

/-- After boot on a machine with 16 MiB a request of `5000` bytes is served, by two pages. -/
theorem served_iff_boot : Slabs.fpPages 5000 = 2 ∧ (boot 4096).Served 5000 :=
  ⟨by decide, (served_iff (.start (init_boot 4096)) (by decide) (by decide)
    (enabled_boot (by decide) (by decide) (by decide) (by decide))).mpr (by decide)⟩

/-- **Pages that are not given back.** On a machine with 512 MiB, `kmalloc(268431344)` maps `65536`
pages, and `kfree` unmaps none of them. -/
theorem page_count_truncated : ¬∀ k size, Transition.Reach Init Step Alone k → 2048 < size →
    size < 2 ^ 32 → k.mm.HeapEnabled (.mmap (Slabs.fpPages size) kernelFlags) → k.Served size := by
  intro hall
  have hen : (boot 131072).mm.HeapEnabled (.mmap (Slabs.fpPages 268431344) kernelFlags) :=
    enabled_boot (by decide) (by decide) (by decide) (by decide)
  obtain ⟨q, k', hs', hw⟩ :=
    hall _ 268431344 (.start (init_boot 131072)) (by decide) (by decide) hen
  obtain ⟨p, k₁, v, hs, hp⟩ :=
    (coupled_of_init (init_boot 131072)).placed (by decide) (by decide) hen
  obtain ⟨rfl, rfl⟩ := Prod.mk.inj (Option.some.inj (hs.symm.trans hs'))
  exact absurd (hp.lt (by decide) (by decide) hw) (by decide)

end KernelHeap

end AlphaOS
