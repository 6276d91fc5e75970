import AlphaOS.UserHeap.Soundness

set_option relaxedAutoImplicit false
set_option autoImplicit false

/-!
# `free` on a well-formed heap

A heap is well formed when its memory stands for a layout and the links of allocated blocks are
null. A call of `free` on one of them either takes the page block away, which it does when no other
block of it is allocated, or moves the block to the list; the heap is well formed again and no other
allocated block has changed.

## Main definitions

* `AlphaOS.Arena.WellFormed` — the memory stands for the layout, and allocated blocks are not
  linked.
* `AlphaOS.Arena.Layout.OnlyAllocated` — the block is the only allocated one of its page block.
* `AlphaOS.Arena.CallsMunmap` — `free` takes the branch that calls `munmap`.
* `AlphaOS.Arena.Unchanged` — the words of the other allocated blocks have not changed.

## Main results

* `AlphaOS.Arena.free_wellFormed` — what `free` does to a well-formed heap.
-/

namespace AlphaOS

namespace Arena

open Tiling Linked

variable {m m' : Arena} {L L' : Layout} {p b c a x y v w fuel last : ℕ}

/-- The memory stands for the layout, and `next_mem_block` of every allocated block is null. -/
structure WellFormed (m : Arena) (L : Layout) : Prop where
  inv : Inv m L
  link : ∀ b, L.Allocated b → m.nextMemBlock b = 0

/-- Of the blocks of the page block at `p`, the one at `b` is the only one that is allocated. -/
def Layout.OnlyAllocated (L : Layout) (p b : ℕ) : Prop :=
  ∀ c, c ∈ L.blocks p ∧ c ∉ L.frees p ↔ c = b

/-- `free(addr)` calls `munmap`, on the page block of its block. -/
def CallsMunmap (m : Arena) (fuel addr : ℕ) : Prop :=
  (m.release addr).fate fuel (sub32 addr 16) = some .unmap

/-- The words of every allocated block but the one at `b` are what they were. -/
def Unchanged (m m' : Arena) (L : Layout) (b : ℕ) : Prop :=
  ∀ c, L.Allocated c → c ≠ b → ∀ x, c ≤ x → x + 4 ≤ c + 16 + m.size c → m'.mem x = m.mem x

/-- The page block has no other allocated block when all the others are on the list. -/
lemma Layout.onlyAllocated_iff (hb : b ∈ L.blocks p) (hout : b ∉ L.frees p) :
    L.OnlyAllocated p b ↔ ∀ c ∈ L.blocks p, c = b ∨ c ∈ L.frees p := by
  constructor
  · intro honly c hc
    by_cases hfree : c ∈ L.frees p
    · exact .inr hfree
    · exact .inl ((honly c).mp ⟨hc, hfree⟩)
  · intro hall c
    constructor
    · rintro ⟨hc, hfree⟩
      exact (hall c hc).resolve_right hfree
    · rintro rfl
      exact ⟨hb, hout⟩

/-! ## Frames -/

/-- Two stores that do not reach into an allocated block. -/
lemma unchanged_stores (hx : ∀ c, L.Allocated c → c ≠ b → x < c ∨ c + 16 + m.size c ≤ x)
    (hy : ∀ c, L.Allocated c → c ≠ b → y < c ∨ c + 16 + m.size c ≤ y) :
    Unchanged m ((m.store x v).store y w) L b := by
  intro c hc hne z hlo hhi
  have hxc := hx c hc hne
  have hyc := hy c hc hne
  rw [mem_store_of_ne (by omega), mem_store_of_ne (by omega)]

/-- The header of a block is outside of every other block. -/
lemma Inv.header_outside (h : Inv m L) (hp : p ∈ L.pages) (ha : a ∈ L.blocks p) (hlo : a ≤ x)
    (hhi : x < a + 16) (hc : L.Allocated c) (hne : c ≠ a) : x < c ∨ c + 16 + m.size c ≤ x := by
  obtain ⟨q, hq, hcq, -⟩ := hc
  have hapart := h.blocks_apart hp hq ha hcq (Ne.symm hne)
  omega

/-- The last link of a list, `free_blocks` standing before the first one, is outside of every
allocated block. -/
lemma Inv.link_outside {l : List ℕ} (h : Inv m L) (hp : p ∈ L.pages)
    (hlast : (p + 4) :: L.frees p = l ++ [a]) (hc : L.Allocated c) :
    a + 8 < c ∨ c + 16 + m.size c ≤ a + 8 := by
  have hmem : a ∈ (p + 4) :: L.frees p := by simp [hlast]
  rcases List.mem_cons.mp hmem with rfl | hfree
  · obtain ⟨q, hq, hcq, -⟩ := hc
    have hapart := h.header_apart hq hp hcq
    omega
  · have hin := (h.page p hp).sub a hfree
    refine h.header_outside hp hin (by omega) (by omega) hc ?_
    rintro rfl
    exact h.notMem_frees hp hc hin hfree

/-- A call that unmaps a page block leaves the blocks of the others. -/
lemma Inv.unchanged_unmap {l₁ l₂ : List ℕ} (h : Inv m L) (hpages : L.pages = l₁ ++ p :: l₂)
    (honly : L.OnlyAllocated p b)
    (hmem : ∀ q ∈ l₁ ++ l₂, ∀ x, q ≤ x → x < q + m.ogSize q → x ≠ q + 16 → x ≠ q + 20 →
      m'.mem x = m.mem x) : Unchanged m m' L b := by
  rintro c ⟨q, hq, hcq, hout⟩ hne x hlo hhi
  have hqp : q ≠ p := by
    rintro rfl
    exact hne ((honly c).mp ⟨hcq, hout⟩)
  have hbounds := (h.page q hq).bounds hcq
  exact hmem q ((h.mem_other hpages).mpr ⟨hq, hqp⟩) x (by omega) (by omega) (by omega) (by omega)

/-- The heap is well formed again when the allocated blocks are unchanged. -/
lemma WellFormed.freed (h : WellFormed m L) (hf : Freed m m' L L' b) (hsame : Unchanged m m' L b) :
    WellFormed m' L' := by
  refine ⟨hf.inv, fun c hc => ?_⟩
  obtain ⟨hc, hne⟩ := (hf.allocated c).mp hc
  rw [nextMemBlock, hsame c hc hne (c + 8) (by omega) (by omega)]
  exact h.link c hc

/-! ## The branches -/

/-- The page block is unmapped. -/
lemma WellFormed.unmap (h : WellFormed m L) (hp : p ∈ L.pages) (hb : b ∈ L.blocks p)
    (honly : L.OnlyAllocated p b) :
    ∃ l₁ l₂, L.pages = l₁ ++ p :: l₂ ∧
      WellFormed ((m.setIsAllocated b 0).unmapFreePage p) (L.dropPage l₁ l₂) ∧
      ((m.setIsAllocated b 0).unmapFreePage p).mapped = (m.munmap p (m.ogSize p)).mapped ∧
      Unchanged m ((m.setIsAllocated b 0).unmapFreePage p) L b := by
  obtain ⟨l₁, l₂, hpages, hinv, hmap, hmem⟩ := h.inv.unmapped hp (h.inv.released hp hb).inside
  have hsame := h.inv.unchanged_unmap hpages honly hmem
  refine ⟨l₁, l₂, hpages, ⟨hinv, fun c hc => ?_⟩, hmap, hsame⟩
  have helse := (h.inv.allocated_dropPage hpages).mp hc
  have hne : c ≠ b := fun heq => h.inv.not_elsewhere hp hb (heq ▸ helse)
  have hold : L.Allocated c := (Layout.allocated_iff hp).mpr (.inr helse)
  rw [nextMemBlock, hsame c hold hne (c + 8) (by omega) (by omega)]
  exact h.link c hold

/-- The block is put at the end of the list. -/
lemma WellFormed.append {l : List ℕ} (h : WellFormed m L) (hp : p ∈ L.pages) (hb : b ∈ L.blocks p)
    (hout : b ∉ L.frees p) (hlast : (p + 4) :: L.frees p = l ++ [a]) :
    WellFormed ((m.setIsAllocated b 0).setNextMemBlock a b)
        (L.set p (L.blocks p) (L.frees p ++ [b])) ∧
      Unchanged m ((m.setIsAllocated b 0).setNextMemBlock a b) L b := by
  have hsame : Unchanged m ((m.setIsAllocated b 0).setNextMemBlock a b) L b :=
    unchanged_stores (fun c hc hne => h.inv.header_outside hp hb (by omega) (by omega) hc hne)
      fun c hc _ => h.inv.link_outside hp hlast hc
  exact ⟨h.freed (h.inv.freed_append hp hb hout (h.link b ⟨p, hp, hb, hout⟩) hlast) hsame, hsame⟩

/-- The block becomes part of the last block of the list. -/
lemma WellFormed.merge (h : WellFormed m L) (hp : p ∈ L.pages) (hb : b ∈ L.blocks p)
    (hout : b ∉ L.frees p) (hlast : last ∈ L.frees p)
    (hend : (last + m.size last + 16) % 2 ^ 32 = b) :
    ∃ bs₁ bs₂, L.blocks p = bs₁ ++ last :: b :: bs₂ ∧
      WellFormed ((m.setIsAllocated b 0).setSize last ((m.size last + m.size b + 16) % 2 ^ 32))
        (L.set p (bs₁ ++ last :: bs₂) (L.frees p)) ∧
      Unchanged m ((m.setIsAllocated b 0).setSize last ((m.size last + m.size b + 16) % 2 ^ 32)) L
        b := by
  have hlastb := (h.inv.page p hp).sub last hlast
  have hsame : Unchanged m
      ((m.setIsAllocated b 0).setSize last ((m.size last + m.size b + 16) % 2 ^ 32)) L b := by
    refine unchanged_stores (fun c hc hne =>
      h.inv.header_outside hp hb (by omega) (by omega) hc hne)
      fun c hc _ => h.inv.header_outside hp hlastb le_rfl (by omega) hc ?_
    rintro rfl
    exact h.inv.notMem_frees hp hc hlastb hlast
  obtain ⟨bs₁, bs₂, hbs, hfreed⟩ := h.inv.freed_merge hp hb hout hlast hend
  exact ⟨bs₁, bs₂, hbs, h.freed hfreed hsame, hsame⟩

/-! ## Calls -/

/-- What a call has done to the page block at `p`, when another block of it is allocated: the block
at `b` is the last of the list, or it is part of the block before it, which is the last of the
list. -/
def MovedToList (m m' : Arena) (L : Layout) (p b : ℕ) : Prop :=
  WellFormed m' (L.set p (L.blocks p) (L.frees p ++ [b])) ∨
    ∃ bs₁ bs₂ fs last, L.blocks p = bs₁ ++ last :: b :: bs₂ ∧ L.frees p = fs ++ [last] ∧
      m'.size last = m.size last + 16 + m.size b ∧
      WellFormed m' (L.set p (bs₁ ++ last :: bs₂) (L.frees p))

/-- **`free` on a well-formed heap.** The call returns. It calls `munmap` exactly when the block is
the only allocated one of its page block; then the page block is gone from the list of page blocks,
its pages are unmapped, and the heap is well formed without it. Otherwise nothing is unmapped, the
block is free, at the end of the list or as part of its last block, and the heap is well formed. The
other allocated blocks are unchanged.

**Proof sketch.** The cases are the ways in which `free` gives a block back: its page block is
unmapped, or it is put at the end of the list, or it is merged into the last block of the list. Each
writes headers of the page block only that belong to no other allocated block. -/
theorem free_wellFormed (h : WellFormed m L) (hp : p ∈ L.pages) (hb : b ∈ L.blocks p)
    (hout : b ∉ L.frees p) :
    (∃ fuel m', m.free fuel (b + 16) = some m') ∧
      ∀ fuel m', m.free fuel (b + 16) = some m' →
        (m.CallsMunmap fuel (b + 16) ↔ L.OnlyAllocated p b) ∧
        (L.OnlyAllocated p b → ∃ l₁ l₂, L.pages = l₁ ++ p :: l₂ ∧ WellFormed m' (L.dropPage l₁ l₂) ∧
          m'.mapped = (m.munmap p (m.ogSize p)).mapped) ∧
        (¬L.OnlyAllocated p b → m'.mapped = m.mapped ∧ m.MovedToList m' L p b) ∧
        m.Unchanged m' L b := by
  refine ⟨h.inv.free_isSome ⟨p, hp, hb, hout⟩, fun fuel m' hr => ?_⟩
  have hlt := h.inv.allocated_lt ⟨p, hp, hb, hout⟩
  rw [CallsMunmap, release, sub32_payload (by omega), Layout.onlyAllocated_iff hb hout]
  obtain ⟨f, hf, ⟨rfl, hall, rfl⟩ | ⟨hnot, hmoved⟩⟩ := h.inv.free_cases hp hb hout hr
  · obtain ⟨l₁, l₂, hpages, hwf, hmap, hsame⟩ :=
      h.unmap hp hb ((Layout.onlyAllocated_iff hb hout).mpr hall)
    exact ⟨iff_of_true hf hall, fun _ => ⟨l₁, l₂, hpages, hwf, hmap⟩, fun hnot =>
      absurd hall hnot, hsame⟩
  · rcases hmoved with ⟨hlists, l, a, hlast, rfl⟩ | ⟨l, last, rfl, hl, hend, rfl⟩
    · obtain ⟨hwf, hsame⟩ := h.append hp hb hout hlast
      refine ⟨iff_of_false (fun heq => ?_) hnot, fun hall => absurd hall hnot,
        fun _ => ⟨rfl, .inl hwf⟩, hsame⟩
      rw [Option.some.inj (hf.symm.trans heq)] at hlists
      exact hlists
    · obtain ⟨bs₁, bs₂, hbs, hwf, hsame⟩ := h.merge hp hb hout (by simp [hl]) hend
      refine ⟨iff_of_false (fun heq => ?_) hnot, fun hall => absurd hall hnot,
        fun _ => ⟨rfl, .inr ⟨bs₁, bs₂, l, last, hbs, hl, ?_, hwf⟩⟩, hsame⟩
      · cases Option.some.inj (hf.symm.trans heq)
      · have hpage := h.inv.page p hp
        have hbounds := hpage.bounds hb
        have hbounds' := hpage.bounds (hpage.sub last (by simp [hl]))
        have hbound := hpage.bound
        rw [size, setSize, mem_store_self]
        omega

/-- The layout of the program that has given the first of its two blocks back. -/
def oneFreedLayout : Layout := ⟨[4096], fun _ => [4120, 4160], fun _ => [4120]⟩

/-- Its heap is well formed. -/
lemma wellFormed_oneFreed : WellFormed Uheap.oneFreed.arena oneFreedLayout := by
  have hpage : ∀ q ∈ oneFreedLayout.pages, q = 4096 := fun q hq => List.mem_singleton.mp hq
  refine ⟨⟨?_, fun q hq => ?_, fun q hq => ?_, fun q hq r hr hne => ?_⟩, fun c hc => ?_⟩
  · refine ⟨by decide, by decide, 4096, ?_⟩
    simp only [oneFreedLayout, Dseg]
    decide +kernel
  · obtain rfl := hpage q hq
    refine ⟨by omega, by decide +kernel, ?_, by decide +kernel, by decide +kernel, ?_, by decide,
      by decide⟩
    · simp only [oneFreedLayout, Tiles, Lseg]
      decide +kernel
    · simp only [oneFreedLayout, Lseg]
      decide +kernel
  · obtain rfl := hpage q hq
    simp only [oneFreedLayout, Flags]
    decide +kernel
  · exact absurd ((hpage q hq).trans (hpage r hr).symm) hne
  · obtain ⟨q, -, hmem, hout⟩ := hc
    obtain rfl : c = 4160 := by simp_all [oneFreedLayout]
    decide +kernel

/-- The second block is the only one left: the page block is unmapped, and no page block remains. -/
theorem free_wellFormed_oneFreed : ∃ fuel m', Uheap.oneFreed.arena.free fuel 4176 = some m' ∧
    Uheap.oneFreed.arena.CallsMunmap fuel 4176 ∧ m'.memPool = 0 := by
  have honly : oneFreedLayout.OnlyAllocated 4096 4160 :=
    (Layout.onlyAllocated_iff (by decide) (by decide)).mpr (by decide)
  obtain ⟨⟨fuel, m', hr⟩, hall⟩ :=
    free_wellFormed wellFormed_oneFreed (p := 4096) (b := 4160) (by decide) (by decide) (by decide)
  obtain ⟨hiff, hunmap, -⟩ := hall fuel m' hr
  obtain ⟨l₁, l₂, hpages, hwf, -⟩ := hunmap honly
  have hnil : l₁ ++ l₂ = [] := by
    have hlen : [4096].length = (l₁ ++ 4096 :: l₂).length := congrArg List.length hpages
    rw [← List.length_eq_zero_iff]
    simp only [List.length_append, List.length_cons, List.length_nil] at hlen ⊢
    omega
  have hpool := hwf.inv.pool
  rw [Layout.dropPage, hnil] at hpool
  exact ⟨fuel, m', hr, hiff.mpr honly, hpool.lseg⟩

end Arena

end AlphaOS
