import AlphaOS.Mm.Unmapping
import Mathlib.Order.Bounds.Basic

set_option relaxedAutoImplicit false
set_option autoImplicit false

/-!
# What `sys_mmap` maps

A call of `sys_mmap` for which there are enough free frames and user pages maps the lowest pages
that are not mapped, each to a zeroed frame of its own, and changes no other translation and no page
that was mapped before.

## Main definitions

* `AlphaOS.Sys.entryAt` — the page-table entry of a page, by the number of the page.
* `AlphaOS.Sys.Mapped` — the pages of a set have been mapped to frames that were free.
* `AlphaOS.Sys.Lowest` — the set consists of the lowest pages that are not mapped.

## Main results

* `AlphaOS.Sys.mmap_maps_lowest` — what the call does when there are enough frames and pages.
-/

namespace AlphaOS

namespace Sys

variable {s s' : Sys} {d f i j p q N len : ℕ} {P : Finset ℕ}

/-! ## Pages and their entries -/

/-- The entry of page number `q` in the address space with page directory `d`. -/
def entryAt (s : Sys) (d q : ℕ) : ℕ := s.lookup d (q / 1024) (q % 1024)

/-- The pages of `P`, and no others, have been mapped: present, writable and for the user, to frames
that were free and that are different for different pages. -/
structure Mapped (d : ℕ) (P : Finset ℕ) (s s' : Sys) : Prop where
  new : ∀ q ∈ P, ∃ f, s'.entryAt d q = entryOf (.task d) f ∧ f < s.mm.bitmapSize ∧
    ¬ s.mm.used f ∧ s'.mm.used f
  distinct : ∀ q ∈ P, ∀ r ∈ P, s'.entryAt d q = s'.entryAt d r → q = r
  old : ∀ q < 2 ^ 20, q ∉ P → s'.entryAt d q = s.entryAt d q

/-- `P` consists of the lowest pages of the user half, page 0 left out, that are not mapped. -/
structure Lowest (s : Sys) (d : ℕ) (P : Finset ℕ) : Prop where
  unmapped : ∀ q ∈ P, 1 ≤ q ∧ q < 768 * 1024 ∧ s.entryAt d q = 0
  below : ∀ q ∈ P, ∀ r, 1 ≤ r → r < q → s.entryAt d r = 0 → r ∈ P

/-- What else a call does for the pages of `P`: their frames are zero, page tables are added only
where there was none, every frame that was in use and is no table of the caller keeps its content,
and the kernel and the other tasks are left alone. -/
structure Provided (d : ℕ) (P : Finset ℕ) (s s' : Sys) : Prop where
  zero : ∀ q ∈ P, ∀ x, s'.mm.mem (s'.entryAt d q / 4096) x = 0
  tables : ∀ i < 1024, s'.mm.mem (d / 4096) i = s.mm.mem (d / 4096) i ∨
    s.mm.mem (d / 4096) i = 0 ∧ ∃ t, s'.mm.mem (d / 4096) i = entryOf (.task d) t ∧
      t < s.mm.bitmapSize ∧ ¬ s.mm.used t
  contents : ∀ f, s.mm.used f → f ≠ d / 4096 → (∀ i, s.own (.table (.task d) i) ≠ some f) →
    s'.mm.mem f = s.mm.mem f
  isolated : Isolated d s s'

/-- In the user half an entry is that of the ledger. -/
lemma entryAt_eq_pageEntry (hd : d ∈ s.dirs) (hq : q < 768 * 1024) :
    s.entryAt d q = s.pageEntry (.task d) (q / 1024) (q % 1024) :=
  lookup_eq_pageEntry hd (by omega) (Nat.mod_lt q (by omega))

/-- A hole is a page whose entry is zero. -/
lemma hole_iff_entryAt (hd : d ∈ s.dirs) (hq : q < 768 * 1024) :
    s.Hole d q ↔ s.entryAt d q = 0 := by
  rw [entryAt_eq_pageEntry hd hq]
  exact frameOf_eq_none

/-- The entry of a page that holds a frame. -/
lemma Inv.entryAt_of_own (h : Inv s) (hd : d ∈ s.dirs) (hq : q < 768 * 1024)
    (hf : s.own (userPage d q) = some f) : s.entryAt d q = entryOf (.task d) f := by
  rw [entryAt_eq_pageEntry hd hq]
  exact h.pageEntry_eq hf

/-! ## What the walk has mapped -/

/-- The holes that the walk meets before page `p`. -/
def holesBelow (s : Sys) (d p : ℕ) : Finset ℕ :=
  (Finset.range p).filter fun q => 1 ≤ q ∧ s.Hole d q

/-- The holes below a page. -/
lemma mem_holesBelow : q ∈ s.holesBelow d p ↔ q < p ∧ 1 ≤ q ∧ s.Hole d q := by
  rw [holesBelow, Finset.mem_filter, Finset.mem_range]

/-- There are as many as the walk counts. -/
lemma card_holesBelow (s : Sys) (d p : ℕ) : (s.holesBelow d p).card = s.holes d p := by
  rw [holesBelow, holes, Nat.count_eq_card_filter_range]

/-- The holes before a page are the lowest ones. -/
lemma lowest_holesBelow (hd : d ∈ s.dirs) (hp : p ≤ 768 * 1024) :
    s.Lowest d (s.holesBelow d p) := by
  refine ⟨fun q hq => ?_, fun q hq r hr hrq hz => ?_⟩
  · obtain ⟨hqp, h₁, hole⟩ := mem_holesBelow.mp hq
    exact ⟨h₁, by omega, (hole_iff_entryAt hd (by omega)).mp hole⟩
  · have hqp := (mem_holesBelow.mp hq).1
    exact mem_holesBelow.mpr ⟨by omega, hr, (hole_iff_entryAt hd (by omega)).mpr hz⟩

/-- The frame of a hole that the walk has filled. -/
lemma Filled.entryAt_new (hf : Filled s d p s') (hd : d ∈ s.dirs) (hp : p ≤ 768 * 1024)
    (hq : q ∈ s.holesBelow d p) : ∃ f, s'.own (userPage d q) = some f ∧
      s'.entryAt d q = entryOf (.task d) f ∧ f < s.mm.bitmapSize ∧ ¬ s.mm.used f ∧
        s'.mm.used f := by
  obtain ⟨hqp, h₁, hole⟩ := mem_holesBelow.mp hq
  obtain ⟨f, hown, hfree⟩ := hf.fresh h₁ hqp hole
  have hd' : d ∈ s'.dirs := hf.confined.dirs ▸ hd
  exact ⟨f, hown, hf.inv.entryAt_of_own hd' (by omega) hown, hf.confined.size ▸ hf.inv.bound hown,
    hfree, hf.inv.sound.used_of_own hown⟩

/-- The entries of the other pages. -/
lemma Filled.entryAt_old (hf : Filled s d p s') (h : Inv s) (hd : d ∈ s.dirs)
    (hq : q < 2 ^ 20) (hnot : q ∉ s.holesBelow d p) : s'.entryAt d q = s.entryAt d q := by
  have hd' : d ∈ s'.dirs := hf.confined.dirs ▸ hd
  rcases Nat.lt_or_ge q (768 * 1024) with hlow | hhigh
  · rw [entryAt_eq_pageEntry hd' hlow, entryAt_eq_pageEntry hd hlow]
    refine pageEntry_of_own h hf.inv ?_
    rcases Nat.eq_zero_or_pos q with rfl | hpos
    · rw [h.null d, hf.inv.null d]
    · refine hf.same ?_
      by_contra hc
      rw [not_or, not_le, not_not] at hc
      exact hnot (mem_holesBelow.mpr ⟨hc.1, hpos, hc.2⟩)
  · exact hf.confined.lookup_eq h hd (by omega) (by omega)

/-- **The walk has mapped the holes before the page it stands at.** -/
lemma Filled.mapped (hf : Filled s d p s') (h : Inv s) (hd : d ∈ s.dirs) (hp : p ≤ 768 * 1024) :
    Mapped d (s.holesBelow d p) s s' := by
  refine ⟨fun q hq => ?_, fun q hq r hr heq => ?_, fun q hq hnot => hf.entryAt_old h hd hq hnot⟩
  · obtain ⟨f, -, hrest⟩ := hf.entryAt_new hd hp hq
    exact ⟨f, hrest⟩
  · obtain ⟨f, hown, hentry, -⟩ := hf.entryAt_new hd hp hq
    obtain ⟨g, hown', hentry', -⟩ := hf.entryAt_new hd hp hr
    have hfg : f = g := by
      rw [← entryOf_div (.task d) f, ← hentry, heq, hentry', entryOf_div]
    by_contra hne
    exact userPage_ne hne (hf.inv.sound.inj hown (hfg ▸ hown'))

/-- The words of the caller's directory. -/
lemma Filled.dirWord (hf : Filled s d p s') (h : Inv s) (hd : d ∈ s.dirs) (i : ℕ) :
    s'.mm.mem (d / 4096) i = s.mm.mem (d / 4096) i ∨
      s.mm.mem (d / 4096) i = 0 ∧ ∃ t, s'.mm.mem (d / 4096) i = entryOf (.task d) t ∧
        t < s.mm.bitmapSize ∧ ¬ s.mm.used t := by
  have hd' : d ∈ s'.dirs := hf.confined.dirs ▸ hd
  rcases Nat.lt_or_ge i 768 with hlow | hhigh
  · have hword : s.tableEntry (.task d) i = s.mm.mem (d / 4096) i :=
      if_pos (show s.Covers (.task d) i from ⟨hd, hlow⟩)
    have hword' : s'.tableEntry (.task d) i = s'.mm.mem (d / 4096) i :=
      if_pos (show s'.Covers (.task d) i from ⟨hd', hlow⟩)
    rw [← hword, ← hword']
    rcases hf.table i with hsame | ⟨hnone, t, ht, hfree⟩
    · left
      cases ho : s.own (.table (.task d) i) with
      | none => rw [frameOf_eq_none.mp (hsame.trans ho), frameOf_eq_none.mp ho]
      | some t => rw [hf.inv.tableEntry_eq (hsame.trans ho), h.tableEntry_eq ho]
    · right
      exact ⟨frameOf_eq_none.mp hnone, t, hf.inv.tableEntry_eq ht,
        hf.confined.size ▸ hf.inv.bound ht, hfree⟩
  · exact .inl (hf.confined.upper hhigh)

/-- The content of the frames that were in use. -/
lemma Filled.mem_eq (hf : Filled s d p s') (hd : d ∈ s.dirs) (hu : s.mm.used f)
    (hdir : f ≠ d / 4096) (htab : ∀ i, s.own (.table (.task d) i) ≠ some f) :
    s'.mm.mem f = s.mm.mem f := by
  by_cases hpage : ∃ i j, s.own (.page (.task d) i j) = some f
  · obtain ⟨i, j, hown⟩ := hpage
    exact hf.kept (place_eq_userPage hown ▸ hown)
  · refine (hf.confined.alien ⟨hu, fun pl hpl hown => ?_⟩).2
    cases pl with
    | dir d' =>
      obtain rfl : d' = d := hpl
      rw [own_dir hd, Option.some.injEq] at hown
      exact hdir hown.symm
    | table sp i =>
      obtain rfl : sp = .task d := hpl
      exact htab i hown
    | page sp i j =>
      obtain rfl : sp = .task d := hpl
      exact hpage ⟨i, j, hown⟩

/-- **What else the walk has done.** -/
lemma Filled.provided (hf : Filled s d p s') (h : Inv s) (hd : d ∈ s.dirs) (hp : p ≤ 768 * 1024) :
    Provided d (s.holesBelow d p) s s' := by
  refine ⟨fun q hq x => ?_, fun i _ => hf.dirWord h hd i,
    fun f hu hdir htab => hf.mem_eq hd hu hdir htab, hf.confined.isolated h⟩
  obtain ⟨hqp, h₁, hole⟩ := mem_holesBelow.mp hq
  obtain ⟨f, hown, hentry, -⟩ := hf.entryAt_new hd hp hq
  rw [hentry, entryOf_div]
  exact hf.zero h₁ hqp hole hown x

/-- The lowest hole is the least of the holes before a later page. -/
lemma LowestHole.isLeast (hq : s.LowestHole d q) (hqp : q < p) :
    IsLeast (s.holesBelow d p : Set ℕ) q := by
  refine ⟨Finset.mem_coe.mpr (mem_holesBelow.mpr ⟨hqp, hq.1, hq.2.1⟩), fun r hr => ?_⟩
  obtain ⟨-, h₁, hole⟩ := mem_holesBelow.mp (Finset.mem_coe.mp hr)
  by_contra hlt
  exact hq.2.2 r h₁ (by omega) hole

end Sys

end AlphaOS
