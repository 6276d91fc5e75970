import AlphaOS.Mm.Mapping
import AlphaOS.Mm.Runs
import Mathlib.Data.Finset.Max

set_option relaxedAutoImplicit false
set_option autoImplicit false

/-!
# When `sys_mmap` cannot give what it is asked for

The two loops of `sys_mmap` run over all 1024 tables, and the only way to leave them early is to
have mapped exactly as many pages as were asked for. So a call for no pages, or for more pages than
the user half has left, goes on into the kernel's half, and a call that runs out of frames maps the
frame behind the end of the bitmap. This file follows the loops to their end and says when a call
has either mapped what it was asked for or has changed nothing.

## Main definitions

* `AlphaOS.Mm.spill` — the frame that `pmm_alloc` returns when none is free.
* `AlphaOS.Sys.AllOrNothing` — the call has mapped the pages, or has returned `-1` and changed
  nothing.
* `AlphaOS.Sys.Full` — every page of the address space except page 0 is mapped.
* `AlphaOS.Sys.Marred` — a page is mapped that no successful call maps.

## Main results

* `AlphaOS.Sys.sysMmap_outcome` — how a call ends, whatever it is asked for.
* `AlphaOS.Sys.mmap_all_or_nothing_iff` — when it is all or nothing.
* `AlphaOS.Sys.mmap_of_nothing` — a call for no pages that maps some.

## Design

A page of the kernel's half is taken for unmapped when its word in memory is zero. The entry of the
temporary mapping in the boot page table is read through itself, so the source never reads it as
zero; a state has some other word there.
-/

namespace AlphaOS

namespace Mm

variable {s s' s'' : Mm} {t i j f g x : ℕ}

/-! ## Installing a frame, free or not -/

/-- The frame whose address `pmm_alloc(1)` returns when no frame is free. -/
def spill (s : Mm) : ℕ := s.bitmapSize % 2 ^ 20

/-- Frame `f` has been zeroed and put in entry `j` of the table in frame `t`: it was free, or no
frame was and it is the one behind the end of the bitmap. -/
structure Installed (t j f : ℕ) (s s' : Mm) : Prop where
  lt : f < 2 ^ 20
  mem : ∀ g x, s'.mem g x =
    if g = t ∧ x = j then f * 4096 + userFlags else if g = f then 0 else s.mem g x
  size : s'.bitmapSize = s.bitmapSize
  used : ∀ {g}, s.used g → s'.used g
  source : (f < s.bitmapSize ∧ ¬ s.used f ∧ s'.used f ∧ s'.overrun = s.overrun) ∨
    (f = s.spill ∧ ∀ g < s.bitmapSize, s.used g)

/-- What an allocation does, whether or not it finds a frame. -/
lemma allocZeroed_eq (hsize : s.bitmapSize ≤ 2 ^ 20) :
    s.allocZeroed.1 = s.pmmLast 1 % 2 ^ 20 * 4096 ∧ s.allocZeroed.2 =
      ({ s.take (s.pmmLast 1) with
        overrun := s.overrun || decide (s.pmmLast 1 = s.bitmapSize) } : Mm).put
        (s.pmmLast 1 % 2 ^ 20) fun _ => 0 := by
  have hle := s.pmmLast_one.1
  have haddr : (s.pmmAlloc 1).1 = s.pmmLast 1 % 2 ^ 20 * 4096 := by
    rw [pmmAlloc, pmmFirst_one (by omega)]
    omega
  have hstate : (s.pmmAlloc 1).2 = { s.take (s.pmmLast 1) with
      overrun := s.overrun || decide (s.pmmLast 1 = s.bitmapSize) } := by
    rw [pmmAlloc, pmmFirst_one (by omega), setBits_self]
    rfl
  refine ⟨by rw [allocZeroed, allocFilled, haddr], ?_⟩
  rw [allocZeroed, allocFilled, haddr, hstate, fillPage_eq (by omega),
    Nat.mul_div_cancel _ (by omega)]

/-- **What `installEntry` does**, whether or not it finds a frame. -/
lemma installed_installEntry (hsize : s.bitmapSize ≤ 2 ^ 20) {p : ℕ} (hp : p < 2 ^ 32) :
    ∃ f, s.allocZeroed.1 = f * 4096 ∧
      Installed (p / 4096) j f s (s.installEntry p j userFlags) := by
  obtain ⟨hle, hfree, hleast⟩ := s.pmmLast_one
  obtain ⟨haddr, hstate⟩ := allocZeroed_eq hsize
  generalize s.pmmLast 1 = b at *
  have hentry : entry (b % 2 ^ 20 * 4096) userFlags = b % 2 ^ 20 * 4096 + userFlags :=
    entry_frame (Nat.mod_lt b (by omega)) (by decide)
  refine ⟨b % 2 ^ 20, haddr, Nat.mod_lt b (by omega), fun g x => ?_, ?_, fun {g} hg => ?_, ?_⟩
  · rw [installEntry, haddr, hstate, hentry, writeEntry_eq hp]
    change Function.update (Function.update s.mem (b % 2 ^ 20) _) (p / 4096)
      (Function.update (Function.update s.mem (b % 2 ^ 20) _ (p / 4096)) j _) g x = _
    simp only [Function.update_apply]
    split_ifs <;> simp_all
  · rw [installEntry, haddr, hstate, writeEntry_eq hp]
    rfl
  · rw [installEntry, haddr, hstate, writeEntry_eq hp]
    exact used_take.mpr (.inr hg)
  · rcases Nat.lt_or_ge b s.bitmapSize with hlt | hge
    · left
      have hb : b % 2 ^ 20 = b := Nat.mod_eq_of_lt (by omega)
      rw [installEntry, haddr, hstate, writeEntry_eq hp, hb]
      refine ⟨hlt, hfree hlt, used_take.mpr (.inl rfl), ?_⟩
      change (s.overrun || decide (b = s.bitmapSize)) = s.overrun
      rw [decide_eq_false (by omega), Bool.or_false]
    · right
      obtain rfl : b = s.bitmapSize := by omega
      refine ⟨rfl, fun g hg => ?_⟩
      by_contra hu
      have := hleast g hu
      omega

/-- Used frames stay used, and the nonzero words of used frames stay as they are, except in the
frame behind the end of the bitmap. -/
structure Grows (s s' : Mm) : Prop where
  size : s'.bitmapSize = s.bitmapSize
  used : ∀ {f}, s.used f → s'.used f
  words : ∀ {f x}, s.used f → f ≠ s.spill → s.mem f x ≠ 0 → s'.mem f x = s.mem f x

/-- The frame that a failing `pmm_alloc` returns stays the same. -/
lemma Grows.spill (h : Grows s s') : s'.spill = s.spill := by
  rw [Mm.spill, Mm.spill, h.size]

/-- No call has been made. -/
lemma Grows.refl (s : Mm) : Grows s s := ⟨rfl, id, fun _ _ _ => rfl⟩

/-- One call after another. -/
lemma Grows.trans (h₁ : Grows s s') (h₂ : Grows s' s'') : Grows s s'' where
  size := h₂.size.trans h₁.size
  used := fun hf => h₂.used (h₁.used hf)
  words := by
    intro f x hu hf hne
    have hsame := h₁.words hu hf hne
    have hne' : s'.mem f x ≠ 0 := by rwa [hsame]
    rw [h₂.words (h₁.used hu) (by rwa [h₁.spill]) hne', hsame]

/-- Installing a frame in an entry that was zero. -/
lemma Installed.grows (h : Installed t j f s s') (hzero : s.mem t j = 0) : Grows s s' := by
  refine ⟨h.size, h.used, fun {g x} hu hg hne => ?_⟩
  rw [h.mem]
  split_ifs with h₁ h₂
  · rw [h₁.1, h₁.2] at hne
    exact absurd hzero hne
  · rcases h.source with ⟨-, hfree, -⟩ | ⟨hspill, -⟩
    · exact absurd (h₂ ▸ hu) hfree
    · exact absurd (h₂.trans hspill) hg
  · rfl

/-- A used frame that is not behind the end of the bitmap is not the one installed. -/
lemma Installed.ne_of_used (h : Installed t j f s s') (hu : s.used g) (hg : g ≠ s.spill) :
    g ≠ f := by
  rintro rfl
  rcases h.source with ⟨-, hfree, -⟩ | ⟨hspill, -⟩
  · exact hfree hu
  · exact hg hspill

/-! ## The end of the bitmap -/

/-- An allocation does not move the end of the bitmap. -/
lemma bitmapSize_allocFilled (s : Mm) (page : ℕ → ℕ) :
    (s.allocFilled page).2.bitmapSize = s.bitmapSize := by
  -- for arbitrary values, so that the bitmap is not evaluated
  have hwith : ∀ (b : ℕ → BitVec 8) (o : Bool),
      ({ s with bitmap := b, overrun := o } : Mm).bitmapSize = s.bitmapSize := fun _ _ => rfl
  have hfill : ∀ (m : Mm) (p : ℕ), (m.fillPage p page).bitmapSize = m.bitmapSize := fun _ _ => rfl
  rewrite [allocFilled, hfill, pmmAlloc]
  exact hwith _ _

/-- Installing a missing page table does not, either. -/
lemma bitmapSize_ensureTable (s : Mm) (pde flags : ℕ) :
    (s.ensureTable pde flags).bitmapSize = s.bitmapSize := by
  have hwith : ∀ (m : Mm) (k : ℕ → ℕ),
      ({ m with kernelPageDirectory := k } : Mm).bitmapSize = m.bitmapSize := fun _ _ => rfl
  rw [ensureTable]
  split_ifs
  · rw [hwith, allocZeroed, bitmapSize_allocFilled]
  · rfl

/-- `mmap` does not change `bitmap_size`. -/
lemma bitmapSize_mmap (s : Mm) (n flags : ℕ) : (s.mmap n flags).2.bitmapSize = s.bitmapSize := by
  rw [mmap]
  refine Loop.forEach_rule (I := fun _ m => Mm.bitmapSize m = s.bitmapSize) ?_ rfl
  intro v m _ _ hm
  have hmap : ∀ (m : Mm) (w phys : ℕ), (m.mapHeapPage w phys flags).bitmapSize = m.bitmapSize :=
    fun _ _ _ => rfl
  rw [mmapPage, hmap, bitmapSize_ensureTable, allocZeroed, bitmapSize_allocFilled, hm]

/-- `unmmap` does not change `bitmap_size`. -/
lemma bitmapSize_unmmap (s : Mm) (addr n : ℕ) : (s.unmmap addr n).bitmapSize = s.bitmapSize :=
  Loop.forEach_rule (I := fun _ m => Mm.bitmapSize m = s.bitmapSize) (fun _ _ _ _ hm => hm) rfl

/-- `mmap_ring3` does not change `bitmap_size`. -/
lemma bitmapSize_mmapRing3 (s : Mm) (code : ℕ → ℕ) :
    (s.mmapRing3 code).2.bitmapSize = s.bitmapSize := by
  rw [mmapRing3, bitmapSize_allocFilled, ring3Table, bitmapSize_allocFilled, allocZeroed,
    bitmapSize_allocFilled, bitmapSize_allocFilled]

end Mm

namespace Sys

variable {s₀ s s' : Sys} {mm mm' : Mm} {d i j f p q N len : ℕ}

/-! ## Maps that only grow -/

/-- The frame behind the end of the bitmap is no table of the task's address space: what makes the
damage of a failed call visible. -/
structure Grounded (s : Sys) (d : ℕ) : Prop where
  size : s.mm.bitmapSize ≤ 2 ^ 20
  dir : d < 2 ^ 32 ∧ s.mm.used (d / 4096) ∧ d / 4096 ≠ s.mm.spill
  last : s.mm.spill < s.mm.bitmapSize → s.mm.used s.mm.spill
  word : ∀ {i}, i < 1024 → s.mm.mem (d / 4096) i ≠ 0 → s.mm.mem (d / 4096) i < 2 ^ 32 ∧
    s.mm.mem (d / 4096) i / 4096 ≠ d / 4096 ∧ s.mm.used (s.mm.mem (d / 4096) i / 4096) ∧
    s.mm.mem (d / 4096) i / 4096 ≠ s.mm.spill

/-- What the loops of a call begun in `s₀` keep in any case: the memory has grown, and the words of
the directory name tables. -/
structure Sane (s₀ : Sys) (d : ℕ) (mm : Mm) : Prop where
  grows : Mm.Grows s₀.mm mm
  word : ∀ {i}, i < 1024 → mm.mem (d / 4096) i ≠ 0 →
    mm.mem (d / 4096) i < 2 ^ 32 ∧ mm.mem (d / 4096) i / 4096 ≠ d / 4096

/-- The state in which the call is made. -/
lemma Grounded.sane (h₀ : Grounded s₀ d) : Sane s₀ d s₀.mm :=
  ⟨.refl _, fun hi hne => ⟨(h₀.word hi hne).1, (h₀.word hi hne).2.1⟩⟩

/-- The temporary mapping does not matter. -/
lemma Sane.tmp (h : Sane s₀ d mm) (e : ℕ) : Sane s₀ d { mm with tmpPte := e } :=
  ⟨⟨h.grows.size, h.grows.used, h.grows.words⟩, h.word⟩

/-- The entry of a page, table word first. -/
lemma lookup_withMm (s₀ : Sys) (mm : Mm) (d i j : ℕ) : (s₀.withMm mm).lookup d i j =
    if mm.mem (d / 4096) i = 0 then 0 else mm.mem (mm.mem (d / 4096) i / 4096) j := rfl

/-- A page that was mapped is still mapped. -/
lemma Sane.lookup_eq (h : Sane s₀ d mm) (h₀ : Grounded s₀ d) (hi : i < 1024)
    (hne : s₀.lookup d i j ≠ 0) : (s₀.withMm mm).lookup d i j = s₀.lookup d i j := by
  have hword : s₀.mm.mem (d / 4096) i ≠ 0 := fun hz => hne (if_pos hz)
  have hentry : s₀.lookup d i j = s₀.mm.mem (s₀.mm.mem (d / 4096) i / 4096) j := if_neg hword
  obtain ⟨-, -, hu, hsp⟩ := h₀.word hi hword
  rw [hentry] at hne ⊢
  rw [lookup_withMm, h.grows.words h₀.dir.2.1 h₀.dir.2.2 hword, if_neg hword]
  exact h.grows.words hu hsp hne

/-- The part of an iteration of `sys_mmap` that maps a page. -/
def pushPage (d i j : ℕ) (mm : Mm) : Mm :=
  if mm.readEntry d i = 0 then (mm.installEntry d i userFlags).installEntry
    (entry mm.allocZeroed.1 userFlags) j userFlags
  else mm.installEntry (mm.readEntry d i) j userFlags

/-- An iteration maps the page if its entry is zero. -/
lemma Sane.page_eq {st : Mm.MmapState} (h : Sane s₀ d st.mm) (h₀ : Grounded s₀ d) (hi : i < 1024)
    (N j : ℕ) : Mm.sysMmapPage d N i j st = if (s₀.withMm st.mm).lookup d i j = 0
      then Mm.countPage N i j st (pushPage d i j st.mm)
      else .inr { st with mm := st.mm.mapTmpPage (st.mm.readEntry d i) } := by
  have hread : st.mm.readEntry d i = st.mm.mem (d / 4096) i := Mm.readEntry_eq h₀.dir.1
  rw [Mm.sysMmapPage, pushPage, lookup_withMm, hread]
  by_cases hz : st.mm.mem (d / 4096) i = 0
  · rw [if_pos hz, if_pos hz, if_pos rfl, if_pos hz]
  · have hread' : st.mm.readEntry (st.mm.mem (d / 4096) i) j =
        st.mm.mem (st.mm.mem (d / 4096) i / 4096) j := Mm.readEntry_eq (h.word hi hz).1
    rw [if_neg hz, if_neg hz, if_neg hz, hread']

/-- What mapping one page does, whether or not there are frames for it. -/
structure Pushed (s₀ : Sys) (d i j : ℕ) (mm mm' : Mm) : Prop where
  grows : Mm.Grows mm mm'
  sane : Sane s₀ d mm'
  entry : (∀ g < mm'.bitmapSize, mm'.used g) ∧
      (s₀.withMm mm').lookup d i j = entryOf (.task d) mm'.spill ∨
    mm'.overrun = mm.overrun ∧ (∃ g < mm.bitmapSize, ¬ mm.used g) ∧ mm'.mem (d / 4096) i ≠ 0 ∧
      (s₀.withMm mm').lookup d i j ≠ 0 ∧ (mm'.mem (d / 4096) i = mm.mem (d / 4096) i ∨
        mm'.used (mm'.mem (d / 4096) i / 4096) ∧ mm'.mem (d / 4096) i / 4096 ≠ mm'.spill)

/-- **Mapping a page in a table that is there.** -/
lemma Sane.pushed_present (h : Sane s₀ d mm) (h₀ : Grounded s₀ d) (hi : i < 1024)
    (hw : mm.mem (d / 4096) i ≠ 0) (hole : mm.mem (mm.mem (d / 4096) i / 4096) j = 0)
    (hin : Mm.Installed (mm.mem (d / 4096) i / 4096) j f mm mm') : Pushed s₀ d i j mm mm' := by
  have hgrows := hin.grows hole
  have hdf : d / 4096 ≠ f :=
    hin.ne_of_used (h.grows.used h₀.dir.2.1) (by rw [h.grows.spill]; exact h₀.dir.2.2)
  have hdt := (h.word hi hw).2
  have hwords (k : ℕ) : mm'.mem (d / 4096) k = mm.mem (d / 4096) k := by
    rw [hin.mem, if_neg fun hc => hdt hc.1.symm, if_neg hdf]
  have hentry : (s₀.withMm mm').lookup d i j = entryOf (.task d) f := by
    rw [lookup_withMm, hwords, if_neg hw, hin.mem, if_pos ⟨rfl, rfl⟩]
    rfl
  refine ⟨hgrows, ⟨h.grows.trans hgrows, fun {k} hk hne => ?_⟩, ?_⟩
  · rw [hwords] at hne ⊢
    exact h.word hk hne
  · rcases hin.source with ⟨hlt, hfree, -, hover⟩ | ⟨hspill, hall⟩
    · right
      refine ⟨hover, ⟨f, hlt, hfree⟩, by rwa [hwords], ?_, .inl (hwords i)⟩
      rw [hentry]
      exact entryOf_ne_zero _ _
    · left
      refine ⟨fun g hg => hin.used (hall g (hin.size ▸ hg)), ?_⟩
      rw [hentry, hspill, hgrows.spill]

/-- **Mapping a page in a table that is missing**: the table is installed first. -/
lemma Sane.pushed_missing {m : Mm} {t : ℕ} (h : Sane s₀ d mm) (h₀ : Grounded s₀ d)
    (hw : mm.mem (d / 4096) i = 0) (htab : Mm.Installed (d / 4096) i t mm m)
    (hin : Mm.Installed t j f m mm') : Pushed s₀ d i j mm mm' := by
  have hdu : mm.used (d / 4096) := h.grows.used h₀.dir.2.1
  have hdsp : d / 4096 ≠ mm.spill := by rw [h.grows.spill]; exact h₀.dir.2.2
  have hdt : d / 4096 ≠ t := htab.ne_of_used hdu hdsp
  have hgrows₁ := htab.grows hw
  have hdf : d / 4096 ≠ f := hin.ne_of_used (htab.used hdu) (by rw [hgrows₁.spill]; exact hdsp)
  have hgrows : Mm.Grows mm mm' := by
    refine hgrows₁.trans (hin.grows ?_)
    rw [htab.mem, if_neg fun hc => hdt hc.1.symm, if_pos rfl]
  have hwords (k : ℕ) : mm'.mem (d / 4096) k =
      if k = i then t * 4096 + userFlags else mm.mem (d / 4096) k := by
    rw [hin.mem, if_neg fun hc => hdt hc.1, if_neg hdf, htab.mem]
    simp [hdt]
  have hflags : userFlags = 7 := by decide
  have hword : mm'.mem (d / 4096) i = t * 4096 + userFlags := by rw [hwords, if_pos rfl]
  have hframe : (t * 4096 + userFlags) / 4096 = t := by omega
  have hentry : (s₀.withMm mm').lookup d i j = entryOf (.task d) f := by
    rw [lookup_withMm, hword, if_neg (by omega), hframe, hin.mem, if_pos ⟨rfl, rfl⟩]
    rfl
  refine ⟨hgrows, ⟨h.grows.trans hgrows, fun {k} hk hne => ?_⟩, ?_⟩
  · rw [hwords] at hne ⊢
    split_ifs at hne ⊢ with hki
    · have := htab.lt
      exact ⟨by omega, by rw [hframe]; exact hdt.symm⟩
    · exact h.word hk hne
  · rcases hin.source with ⟨hlt, hfree, -, hover⟩ | ⟨hspill, hall⟩
    · right
      rcases htab.source with ⟨htlt, htfree, htused, htover⟩ | ⟨-, hall⟩
      · refine ⟨hover.trans htover, ⟨t, htlt, htfree⟩, by omega, ?_, .inr ⟨?_, ?_⟩⟩
        · rw [hentry]
          exact entryOf_ne_zero _ _
        · rw [hword, hframe]
          exact hin.used htused
        · rw [hword, hframe, hgrows.spill]
          rintro rfl
          rw [h.grows.spill, h.grows.size] at htlt
          exact htfree (h.grows.spill ▸ h.grows.used (h₀.last htlt))
      · exact absurd (htab.used (hall f (htab.size ▸ hlt))) hfree
    · left
      refine ⟨fun g hg => hin.used (hall g (hin.size ▸ hg)), ?_⟩
      rw [hentry, hspill, hgrows₁.spill, hgrows.spill]

/-- **Mapping a page.** -/
lemma Sane.pushed (h : Sane s₀ d mm) (h₀ : Grounded s₀ d) (hi : i < 1024)
    (hole : (s₀.withMm mm).lookup d i j = 0) : Pushed s₀ d i j mm (pushPage d i j mm) := by
  have hsize : mm.bitmapSize ≤ 2 ^ 20 := by rw [h.grows.size]; exact h₀.size
  have hread : mm.readEntry d i = mm.mem (d / 4096) i := Mm.readEntry_eq h₀.dir.1
  rw [lookup_withMm] at hole
  rw [pushPage, hread]
  by_cases hw : mm.mem (d / 4096) i = 0
  · rw [if_pos hw]
    obtain ⟨t, haddr, htab⟩ := Mm.installed_installEntry (j := i) hsize h₀.dir.1
    have hentry : entry mm.allocZeroed.1 userFlags = t * 4096 + userFlags := by
      rw [haddr]
      exact Mm.entry_frame htab.lt (by decide)
    have hlt : t * 4096 + userFlags < 2 ^ 32 := by
      have hflags : userFlags = 7 := by decide
      have := htab.lt
      omega
    rw [hentry]
    generalize mm.installEntry d i userFlags = m at *
    obtain ⟨f, -, hin⟩ :=
      Mm.installed_installEntry (s := m) (j := j) (by rw [htab.size]; exact hsize) hlt
    have hframe : (t * 4096 + userFlags) / 4096 = t := by
      have hflags : userFlags = 7 := by decide
      omega
    rw [hframe] at hin
    exact h.pushed_missing h₀ hw htab hin
  · rw [if_neg hw] at hole ⊢
    obtain ⟨f, -, hin⟩ := Mm.installed_installEntry (s := mm) (j := j) hsize (h.word hi hw).1
    exact h.pushed_present h₀ hi hw hole hin

/-! ## Damage -/

/-- No frame is free, and a page that was not mapped is mapped to the frame behind the end of the
bitmap. -/
def Spoiled (s₀ : Sys) (d : ℕ) (mm : Mm) : Prop := (∀ g < mm.bitmapSize, mm.used g) ∧
  ∃ i < 1024, ∃ j < 1024, (i ≠ 0 ∨ j ≠ 0) ∧ s₀.lookup d i j = 0 ∧
    (s₀.withMm mm).lookup d i j = entryOf (.task d) mm.spill

/-- A page of the kernel's half that was not mapped is mapped, in a table that will stay. -/
def Stray (s₀ : Sys) (d : ℕ) (mm : Mm) : Prop :=
  ∃ i, 768 ≤ i ∧ i < 1024 ∧ ∃ j < 1024, s₀.lookup d i j = 0 ∧ mm.mem (d / 4096) i ≠ 0 ∧
    mm.used (mm.mem (d / 4096) i / 4096) ∧ mm.mem (d / 4096) i / 4096 ≠ mm.spill ∧
    (s₀.withMm mm).lookup d i j ≠ 0

/-- The call has done one of the two, and will not mend it. -/
structure Damaged (s₀ : Sys) (d : ℕ) (mm : Mm) : Prop where
  sane : Sane s₀ d mm
  kind : Spoiled s₀ d mm ∨ Stray s₀ d mm

/-- A stray page stays. -/
lemma Stray.grows (h : Stray s₀ d mm) (hs : Sane s₀ d mm) (h₀ : Grounded s₀ d)
    (hg : Mm.Grows mm mm') : Stray s₀ d mm' := by
  obtain ⟨i, hi, hi', j, hj, hzero, hw, hu, hsp, hne⟩ := h
  have hdu : mm.used (d / 4096) := hs.grows.used h₀.dir.2.1
  have hword : mm'.mem (d / 4096) i = mm.mem (d / 4096) i :=
    hg.words hdu (by rw [hs.grows.spill]; exact h₀.dir.2.2) hw
  rw [lookup_withMm, if_neg hw] at hne
  refine ⟨i, hi, hi', j, hj, hzero, by rwa [hword], ?_, ?_, ?_⟩
  · rw [hword]
    exact hg.used hu
  · rw [hword, hg.spill]
    exact hsp
  · rw [lookup_withMm, hword, if_neg hw, hg.words hu hsp hne]
    exact hne

/-- A page that is not mapped now was not mapped at the start. -/
lemma Sane.lookup_zero (h : Sane s₀ d mm) (h₀ : Grounded s₀ d) (hi : i < 1024)
    (hole : (s₀.withMm mm).lookup d i j = 0) : s₀.lookup d i j = 0 := by
  by_contra hne
  rw [h.lookup_eq h₀ hi hne] at hole
  exact hne hole

/-- **Damage stays** when another page is mapped. When no frame is free the page just mapped is the
spoiled one, since the frame behind the end of the bitmap has been zeroed again. -/
lemma Damaged.push (h : Damaged s₀ d mm) (h₀ : Grounded s₀ d) (hi : i < 1024) (hj : j < 1024)
    (hij : i ≠ 0 ∨ j ≠ 0) (hole : (s₀.withMm mm).lookup d i j = 0) :
    Damaged s₀ d (pushPage d i j mm) := by
  have hp := h.sane.pushed h₀ hi hole
  refine ⟨hp.sane, ?_⟩
  rcases h.kind with ⟨hall, -⟩ | hstray
  · rcases hp.entry with ⟨hall', hentry⟩ | ⟨-, ⟨g, hg, hfree⟩, -⟩
    · exact .inl ⟨hall', i, hi, j, hj, hij, h.sane.lookup_zero h₀ hi hole, hentry⟩
    · exact absurd (hall g hg) hfree
  · exact .inr (hstray.grows h.sane h₀ hp.grows)

/-- The end of an iteration that has mapped a page passes the memory on. -/
lemma ends_countPage {Q : Mm → Prop} (h : Q mm) (N i j : ℕ) (st : Mm.MmapState) :
    Loop.Ends (fun r => Q r.2) (fun st' => Q st'.mm) (Mm.countPage N i j st mm) := by
  rw [Mm.countPage]
  split_ifs
  · exact h
  · exact h
  · exact h
  · exact h

/-- **Damage stays** through an iteration. -/
lemma Damaged.page {st : Mm.MmapState} (h : Damaged s₀ d st.mm) (h₀ : Grounded s₀ d) (hi : i < 1024)
    (hj : j < 1024) (hij : i ≠ 0 ∨ j ≠ 0) (N : ℕ) :
    Loop.Ends (fun r => Damaged s₀ d r.2) (fun st' => Damaged s₀ d st'.mm)
      (Mm.sysMmapPage d N i j st) := by
  rw [h.sane.page_eq h₀ hi]
  split_ifs with hole
  · exact ends_countPage (h.push h₀ hi hj hij hole) N i j st
  · exact ⟨h.sane.tmp _, h.kind⟩

/-! ## The walk through the user half -/

/-- The number of pages at which the loops stop, beyond their reach for a call for no pages. -/
def goal (N : ℕ) : ℕ := if N = 0 then 2 ^ 20 + 1 else N

/-- The number of holes before a page is at most the number of pages. -/
lemma holes_le (s : Sys) (d p : ℕ) : s.holes d p ≤ p := Nat.count_le _

/-- A call for no pages counts as one for more pages than there are. -/
lemma countPage_goal {st : Mm.MmapState} (h : st.mapped < 2 ^ 20) (N i j : ℕ) (mm : Mm) :
    Mm.countPage N i j st mm = Mm.countPage (goal N) i j st mm := by
  by_cases hN : N = 0
  · have hgoal : goal N = 2 ^ 20 + 1 := if_pos hN
    have h₁ : ¬ st.mapped + 1 = N := by omega
    have h₂ : ¬ st.mapped + 1 = goal N := by omega
    rw [Mm.countPage, Mm.countPage, if_neg h₁, if_neg h₂]
  · rw [goal, if_neg hN]

/-- The iterations look at the number of pages only up to the size of the user half. -/
lemma sysMmapPage_goal {st : Mm.MmapState} (h : st.mapped < 2 ^ 20) (N i j : ℕ) :
    Mm.sysMmapPage d N i j st = Mm.sysMmapPage d (goal N) i j st := by
  rw [Mm.sysMmapPage, Mm.sysMmapPage]
  simp only [countPage_goal h N]

/-- **An iteration in the user half**: the walk goes on or has ended, and where it has run out of
frames there is damage.

**Proof sketch.** The iteration has run out of frames only if the search of one of its allocations
has failed. Then the page is mapped to the frame behind the end of the bitmap. -/
lemma Walk.page_or_damaged {st : Mm.MmapState} (h : Walk s₀ d (goal N) p st)
    (hs : Sane s₀ d st.mm) (h₀ : Grounded s₀ d) (hd : d ∈ s₀.dirs) (hp : 1 ≤ p)
    (hlt : p < 768 * 1024) :
    Loop.Ends (fun r => Damaged s₀ d r.2 ∨ Done s₀ d (goal N) r)
      (fun st' => Damaged s₀ d st'.mm ∨ Sane s₀ d st'.mm ∧ Walk s₀ d (goal N) (p + 1) st')
      (Mm.sysMmapPage d (goal N) (p / 1024) (p % 1024) st) := by
  have hquiet : st.mm.overrun = false := h.filled.inv.quiet
  have hi : p / 1024 < 1024 := by omega
  have hj : p % 1024 < 1024 := Nat.mod_lt p (by omega)
  have hmem : Loop.Ends (fun r => Sane s₀ d r.2 ∧ (r.2.overrun = true → Damaged s₀ d r.2))
      (fun st' => Sane s₀ d st'.mm ∧ (st'.mm.overrun = true → Damaged s₀ d st'.mm))
      (Mm.sysMmapPage d (goal N) (p / 1024) (p % 1024) st) := by
    rw [hs.page_eq h₀ hi]
    split_ifs with hole
    · have hpush := hs.pushed h₀ hi hole
      refine ends_countPage (Q := fun m => Sane s₀ d m ∧ (m.overrun = true → Damaged s₀ d m))
        ⟨hpush.sane, fun hover => ⟨hpush.sane, .inl ?_⟩⟩ _ _ _ _
      rcases hpush.entry with ⟨hall, hentry⟩ | ⟨hsame, -⟩
      · exact ⟨hall, _, hi, _, hj, page_ne_zero hp, hs.lookup_zero h₀ hi hole, hentry⟩
      · rw [hsame, hquiet] at hover
        exact absurd hover (by simp)
    · exact ⟨hs.tmp _, fun hover => absurd (hquiet.symm.trans hover) (by simp)⟩
  refine ((h.page hd hp hlt).and hmem).mono ?_ ?_
  · rintro r ⟨hfail | hdone, hsane, hover⟩
    · exact .inl (hover hfail.1)
    · exact .inr hdone
  · rintro st' ⟨hfail | hwalk, hsane, hover⟩
    · exact .inl (hover hfail.1)
    · exact .inr ⟨hsane, hwalk⟩

/-- A call for no pages is never done. -/
lemma Done.of_goal {r : ℕ × Mm} (h : Done s₀ d (goal N) r) : Done s₀ d N r := by
  by_cases hN : N = 0
  · obtain ⟨p, -, hp, -, hcount, -⟩ := h
    have hle := holes_le s₀ d p
    rw [hcount, goal, if_pos hN] at hle
    omega
  · rwa [goal, if_neg hN] at h

/-! ## The walk through all tables -/

/-- What the loops know at page `p` of all `2^20`: there is damage, or the walk through the user
half has gone as far, no page of it is left to do behind its end, and the pages of the kernel's half
that have been passed were mapped. -/
def Passage (s₀ : Sys) (d N p : ℕ) (st : Mm.MmapState) : Prop :=
  Damaged s₀ d st.mm ∨ Sane s₀ d st.mm ∧ Walk s₀ d (goal N) (min p (768 * 1024)) st ∧
    ∀ q, 768 * 1024 ≤ q → q < p → s₀.entryAt d q ≠ 0

/-- The walk is not held up by the temporary mapping. -/
lemma Walk.tmp {st : Mm.MmapState} (h : Walk s₀ d N p st) (e : ℕ) :
    Walk s₀ d N p { st with mm := { st.mm with tmpPte := e } } :=
  ⟨h.filled.tmp e, h.mapped, h.lt, h.first⟩

/-- **Mapping a page of the kernel's half is damage.** -/
lemma Walk.push_kernel {st : Mm.MmapState} (h : Walk s₀ d N p st) (hs : Sane s₀ d st.mm)
    (h₀ : Grounded s₀ d) (hi : 768 ≤ i) (hi' : i < 1024) (hj : j < 1024)
    (hole : (s₀.withMm st.mm).lookup d i j = 0) : Damaged s₀ d (pushPage d i j st.mm) := by
  have hpush := hs.pushed h₀ hi' hole
  have hzero := hs.lookup_zero h₀ hi' hole
  refine ⟨hpush.sane, ?_⟩
  rcases hpush.entry with ⟨hall, hentry⟩ | ⟨-, -, hw, hne, hsame | ⟨hu, hsp⟩⟩
  · exact .inl ⟨hall, i, hi', j, hj, .inl (by omega), hzero, hentry⟩
  · -- the table was there from the start
    have hupper : st.mm.mem (d / 4096) i = s₀.mm.mem (d / 4096) i := h.filled.confined.upper hi
    have hword : (pushPage d i j st.mm).mem (d / 4096) i = s₀.mm.mem (d / 4096) i :=
      hsame.trans hupper
    have hw₀ : s₀.mm.mem (d / 4096) i ≠ 0 := by rwa [hword] at hw
    obtain ⟨-, -, hu, hsp⟩ := h₀.word hi' hw₀
    refine .inr ⟨i, hi, hi', j, hj, hzero, hw, ?_, ?_, hne⟩
    · rw [hword]
      exact hpush.sane.grows.used hu
    · rw [hword, hpush.sane.grows.spill]
      exact hsp
  · exact .inr ⟨i, hi, hi', j, hj, hzero, hw, hu, hsp, hne⟩

/-- **An iteration**, in either half. -/
lemma Passage.page {st : Mm.MmapState} (h : Passage s₀ d N (i * 1024 + j) st) (hinv : Inv s₀)
    (h₀ : Grounded s₀ d) (hd : d ∈ s₀.dirs) (hi : i < 1024) (hj : j < 1024) (hij : i ≠ 0 ∨ j ≠ 0) :
    Loop.Ends (fun r => Damaged s₀ d r.2 ∨ Done s₀ d N r) (Passage s₀ d N (i * 1024 + (j + 1)))
      (Mm.sysMmapPage d N i j st) := by
  have hp₁ : (i * 1024 + j) / 1024 = i := by omega
  have hp₂ : (i * 1024 + j) % 1024 = j := by omega
  rcases h with hdam | ⟨hs, hwalk, hkernel⟩
  · exact (hdam.page h₀ hi hj hij N).mono (fun _ hr => .inl hr) fun _ hr => .inl hr
  rcases Nat.lt_or_ge (i * 1024 + j) (768 * 1024) with hlow | hhigh
  · rw [min_eq_left (by omega)] at hwalk
    have hmapped : st.mapped < 2 ^ 20 := by
      have h₁ := hwalk.mapped
      have h₂ := holes_le s₀ d (i * 1024 + j)
      omega
    have hpage := hwalk.page_or_damaged hs h₀ hd (by omega) hlow
    rw [hp₁, hp₂, ← sysMmapPage_goal hmapped] at hpage
    refine hpage.mono (fun r hr => hr.imp_right Done.of_goal) fun st' hst => ?_
    refine hst.imp_right fun hnext => ⟨hnext.1, ?_, fun q h₁ h₂ => by omega⟩
    rw [min_eq_left (by omega), ← Nat.add_assoc]
    exact hnext.2
  · rw [min_eq_right hhigh] at hwalk
    have hsame : (s₀.withMm st.mm).lookup d i j = s₀.lookup d i j :=
      hwalk.filled.confined.lookup_eq hinv hd (by omega) hi
    rw [hs.page_eq h₀ hi]
    split_ifs with hole
    · exact (ends_countPage (hwalk.push_kernel hs h₀ (by omega) hi hj hole) N i j st).mono
        (fun _ hr => .inl hr) fun _ hr => .inl hr
    · refine .inr ⟨hs.tmp _, ?_, fun q h₁ h₂ => ?_⟩
      · rw [min_eq_right (by omega)]
        exact hwalk.tmp _
      · rcases Nat.lt_or_ge q (i * 1024 + j) with hq | hq
        · exact hkernel q h₁ hq
        · obtain rfl : q = i * 1024 + j := by omega
          rw [entryAt, hp₁, hp₂, ← hsame]
          exact hole

/-- **The inner loop**, in either half. -/
lemma Passage.table {st : Mm.MmapState} (h : Passage s₀ d N (startPage i) st) (hinv : Inv s₀)
    (h₀ : Grounded s₀ d) (hd : d ∈ s₀.dirs) (hi : i < 1024) :
    Loop.Ends (fun r => Damaged s₀ d r.2 ∨ Done s₀ d N r) (Passage s₀ d N (startPage (i + 1)))
      (Mm.sysMmapTable d N i st) := by
  have hnext : startPage (i + 1) = i * 1024 + 1024 := by
    simp [startPage, Nat.succ_mul]
  have hloop (lo n : ℕ) (hlo : i ≠ 0 ∨ 1 ≤ lo) (hn : lo + n = 1024)
      (h : Passage s₀ d N (i * 1024 + lo) st) :
      Loop.Ends (fun r => Damaged s₀ d r.2 ∨ Done s₀ d N r) (Passage s₀ d N (i * 1024 + 1024))
        (Loop.forRange (Mm.sysMmapPage d N i) lo n st) := by
    have hend := Loop.forRange_rule (n := n) (I := fun k st => Passage s₀ d N (i * 1024 + k) st)
      (fun k st h₁ h₂ h => h.page hinv h₀ hd hi (by omega : k < 1024) (by omega)) h
    rw [hn] at hend
    exact hend
  rw [hnext, Mm.sysMmapTable]
  split_ifs with hz
  · subst hz
    exact hloop 1 1023 (.inr (Nat.le_refl 1)) rfl h
  · rw [startPage, if_neg hz] at h
    exact hloop 0 1024 (.inl hz) rfl (by rw [Nat.add_zero]; exact h)

/-- The call has gone through all tables and has returned `-1`: every hole of the user half is
filled, which was not what was asked for, and no page of the kernel's half was left. -/
structure RanOut (s₀ : Sys) (d N : ℕ) (r : ℕ × Mm) : Prop where
  result : r.1 = 2 ^ 32 - 1
  filled : Filled s₀ d (768 * 1024) (s₀.withMm r.2)
  short : s₀.holes d (768 * 1024) < goal N
  kernel : ∀ q, 768 * 1024 ≤ q → q < 2 ^ 20 → s₀.entryAt d q ≠ 0

/-- **How a call of `sys_mmap` ends**, whatever it is asked for: with damage, with what it was asked
for, or with `-1` when every page is mapped.

**Proof sketch.** The outer loop keeps the course from the first page of a table to the first page
of the next, and at its end the walk has come to the end of the user half. -/
theorem sysMmap_outcome (hinv : Inv s) (h₀ : Grounded s d) (hd : d ∈ s.dirs) (len : ℕ) :
    Damaged s d (s.mm.sysMmap d len).2 ∨ Done s d (Mm.totalPages len) (s.mm.sysMmap d len) ∨
      RanOut s d (Mm.totalPages len) (s.mm.sysMmap d len) := by
  have hstart : Passage s d (Mm.totalPages len) (startPage 0) ⟨s.mm, 0, 0⟩ := by
    refine .inr ⟨h₀.sane, ⟨Filled.start hinv d, ?_, ?_, fun h => absurd rfl h⟩, ?_⟩
    · simp [startPage, holes, Nat.count_succ]
    · change 0 < goal _
      unfold goal
      split_ifs <;> omega
    · intro q h₁ h₂
      have : startPage 0 = 1 := rfl
      omega
  have hloop := Loop.forRange_rule (n := 1024)
    (I := fun i st => Passage s d (Mm.totalPages len) (startPage i) st)
    (fun i st _ h₂ h => h.table hinv h₀ hd (by omega)) hstart
  have hend : startPage (0 + 1024) = 2 ^ 20 := rfl
  rw [hend] at hloop
  rw [Mm.sysMmap]
  generalize Loop.forRange (Mm.sysMmapTable d (Mm.totalPages len)) 0 1024 ⟨s.mm, 0, 0⟩ = x at hloop
  cases x with
  | inl r => exact hloop.imp_right .inl
  | inr st =>
    rcases hloop with hdam | ⟨-, hwalk, hkernel⟩
    · exact .inl hdam
    · rw [min_eq_right (by omega)] at hwalk
      exact .inr (.inr ⟨rfl, hwalk.filled, hwalk.mapped ▸ hwalk.lt, hkernel⟩)

/-! ## All or nothing -/

/-- The call has mapped `N` pages of the user half that were not mapped, and no others, and has
returned the address of the first. -/
def MapsAll (d N : ℕ) (s : Sys) (r : ℕ × Mm) : Prop :=
  ∃ P : Finset ℕ, P.card = N ∧ (∀ q ∈ P, q < 768 * 1024 ∧ s.entryAt d q = 0) ∧
    Mapped d P s (s.withMm r.2) ∧ ∀ q, IsLeast (P : Set ℕ) q → r.1 = q * 4096

/-- The call has returned `-1`, and the directory, the translations and the bitmap are as they were.
-/
structure Untouched (d : ℕ) (s : Sys) (r : ℕ × Mm) : Prop where
  result : r.1 = 2 ^ 32 - 1
  words : ∀ i < 1024, r.2.mem (d / 4096) i = s.mm.mem (d / 4096) i
  entries : ∀ q < 2 ^ 20, (s.withMm r.2).entryAt d q = s.entryAt d q
  bitmap : r.2.bitmap = s.mm.bitmap

/-- A call of `sys_mmap(_, len)` maps what it is asked for, or fails and changes nothing. -/
def AllOrNothing (d len : ℕ) (s : Sys) : Prop :=
  MapsAll d ((len + 4095) / 4096) s (s.mm.sysMmap d len) ∨ Untouched d s (s.mm.sysMmap d len)

/-- Every page of the address space except page 0 is mapped. -/
def Full (s : Sys) (d : ℕ) : Prop := ∀ q, 1 ≤ q → q < 2 ^ 20 → s.entryAt d q ≠ 0

/-- A page that was not mapped is mapped, in the kernel's half or to a frame that was not free. -/
def Marred (s : Sys) (d : ℕ) (mm : Mm) : Prop :=
  ∃ q, 1 ≤ q ∧ q < 2 ^ 20 ∧ s.entryAt d q = 0 ∧ (s.withMm mm).entryAt d q ≠ 0 ∧
    (q < 768 * 1024 → ∀ f < s.mm.bitmapSize, ¬ s.mm.used f →
      (s.withMm mm).entryAt d q ≠ entryOf (.task d) f)

/-- The entry of a page by table and index. -/
lemma entryAt_mul_add (s : Sys) (d i : ℕ) (hj : j < 1024) :
    s.entryAt d (i * 1024 + j) = s.lookup d i j := by
  rw [entryAt, show (i * 1024 + j) / 1024 = i by omega, show (i * 1024 + j) % 1024 = j by omega]

/-- What the loops call damage is visible in the address space. -/
lemma Damaged.marred (h : Damaged s d mm) (h₀ : Grounded s d) : Marred s d mm := by
  rcases h.kind with ⟨-, i, hi, j, hj, hij, hzero, hentry⟩ |
    ⟨i, hi, hi', j, hj, hzero, -, -, -, hne⟩
  · refine ⟨i * 1024 + j, by omega, by omega, ?_, ?_, fun _ f hf hfree he => ?_⟩
    · rw [entryAt_mul_add s d i hj, hzero]
    · rw [entryAt_mul_add _ d i hj, hentry]
      exact entryOf_ne_zero _ _
    · rw [entryAt_mul_add _ d i hj, hentry] at he
      have hspill : mm.spill = f := by
        rw [← entryOf_div (.task d) mm.spill, he, entryOf_div]
      rw [h.sane.grows.spill] at hspill
      subst hspill
      exact hfree (h₀.last hf)
  · refine ⟨i * 1024 + j, by omega, by omega, ?_, ?_, fun hlow => by omega⟩
    · rw [entryAt_mul_add s d i hj, hzero]
    · rw [entryAt_mul_add _ d i hj]
      exact hne

/-- A marred state is not one in which all pages are mapped. -/
lemma Marred.not_mapsAll {r : ℕ × Mm} (h : Marred s d r.2) : ¬ MapsAll d N s r := by
  rintro ⟨P, -, hP, hmapped, -⟩
  obtain ⟨q, -, hq, hzero, hne, hbad⟩ := h
  by_cases hqP : q ∈ P
  · obtain ⟨f, hentry, hf, hfree, -⟩ := hmapped.new q hqP
    exact hbad (hP q hqP).1 f hf hfree hentry
  · exact hne ((hmapped.old q hq hqP).trans hzero)

/-- A marred state is not the one the call was made in. -/
lemma Marred.not_untouched {r : ℕ × Mm} (h : Marred s d r.2) : ¬ Untouched d s r := by
  intro hun
  obtain ⟨q, -, hq, hzero, hne, -⟩ := h
  exact hne ((hun.entries q hq).trans hzero)

/-- **A call that is done has mapped all.** -/
lemma Done.mapsAll {r : ℕ × Mm} (h : Done s d N r) (hinv : Inv s) (hd : d ∈ s.dirs) :
    MapsAll d N s r := by
  obtain ⟨p, -, hp, hfilled, hcount, ⟨q, hq, hqp, hres⟩, -⟩ := h
  refine ⟨s.holesBelow d p, (card_holesBelow s d p).trans hcount, fun q hq => ?_,
    hfilled.mapped hinv hd hp, fun q' hq' => ?_⟩
  · exact ((lowest_holesBelow hd hp).unmapped q hq).2
  · rw [hres, hq'.unique (hq.isLeast hqp)]

/-- A call that is done has had enough frames and pages. -/
lemma Done.enough {r : ℕ × Mm} (h : Done s d N r) : 0 < N ∧ s.Enough d N := by
  obtain ⟨p, -, hp, hfilled, hcount, ⟨q, hq, hqp, -⟩, -⟩ := h
  have hfree := hfilled.count
  refine ⟨Nat.pos_of_ne_zero fun hN => ?_, p, hp, hcount, by omega⟩
  rw [hN, holes] at hcount
  exact Nat.count_iff_forall_not.mp hcount q hqp ⟨hq.1, hq.2.1⟩

/-- A task whose pages are all mapped has all its tables. -/
lemma Full.word_ne_zero (h : s.Full d) (hi : i < 1024) : s.mm.mem (d / 4096) i ≠ 0 := by
  intro hz
  refine h (i * 1024 + 1) (by omega) (by omega) ?_
  rw [entryAt_mul_add s d i (by omega)]
  exact if_pos hz

/-- A task whose pages are all mapped has no holes. -/
lemma Full.not_hole (h : s.Full d) (hd : d ∈ s.dirs) (hq : 1 ≤ q) (hlt : q < 768 * 1024) :
    ¬ s.Hole d q := by
  rw [hole_iff_entryAt hd hlt]
  exact h q hq (by omega)

/-- When nothing is left to fill, no frame has been taken. -/
lemma Filled.used_of_full (hf : Filled s d p s') (hfull : s.Full d) (hinv : Inv s)
    (hd : d ∈ s.dirs) (hu : s'.mm.used f) : s.mm.used f := by
  have hd' : d ∈ s'.dirs := hf.confined.dirs ▸ hd
  rcases hf.grown hu with hu₀ | ⟨pl, hpl, hown⟩
  · exact hu₀
  refine hinv.sound.used_of_own (p := pl) ?_
  cases pl with
  | dir d' =>
    rw [← hown, own, own, hf.confined.dirs]
  | table sp i =>
    obtain rfl : sp = .task d := hpl
    rcases hf.table i with hsame | ⟨hnone, -⟩
    · rw [← hsame, hown]
    · have hi := (covers_of_tableEntry (frameOf_eq_some.mp hown).1).2
      have hword : s.tableEntry (.task d) i = s.mm.mem (d / 4096) i :=
        if_pos (show s.Covers (.task d) i from ⟨hd, hi⟩)
      have hz := frameOf_eq_none.mp hnone
      rw [hword] at hz
      exact absurd hz (hfull.word_ne_zero (by omega))
  | page sp i j =>
    obtain rfl : sp = .task d := hpl
    obtain ⟨ht, hj⟩ := tableEntry_of_pageEntry (frameOf_eq_some.mp hown).1
    have hi : i < 768 := (covers_of_tableEntry ht).2
    have hplace := place_eq_userPage hown
    rw [hplace] at hown ⊢
    rcases Nat.eq_zero_or_pos (i * 1024 + j) with hz | hpos
    · rw [hz] at hown
      exact absurd ((hf.inv.null d).symm.trans hown) (by simp)
    · rw [← hown]
      exact (hf.same (.inr (hfull.not_hole hd hpos (by omega)))).symm

/-- **A call that runs out in a full address space has changed nothing.** -/
lemma RanOut.untouched {r : ℕ × Mm} (h : RanOut s d N r) (hfull : s.Full d) (hinv : Inv s)
    (hd : d ∈ s.dirs) : Untouched d s r := by
  have hf := h.filled
  refine ⟨h.result, fun i hi => ?_, fun q hq => hf.entryAt_old hinv hd hq fun hq' => ?_, ?_⟩
  · exact (hf.dirWord hinv hd i).resolve_right fun hnew => hfull.word_ne_zero hi hnew.1
  · obtain ⟨hlt, h₁, hole⟩ := mem_holesBelow.mp hq'
    exact hfull.not_hole hd h₁ hlt hole
  · exact Mm.bitmap_ext fun f => ⟨hf.used_of_full hfull hinv hd, hf.used⟩

/-- A call that runs out has filled the holes of the user half, so it has not left everything
unchanged, and `-1` is not the address of a page. -/
lemma RanOut.not_allOrNothing {r : ℕ × Mm} (h : RanOut s d N r) (hfull : ¬ s.Full d)
    (hd : d ∈ s.dirs) : ¬ MapsAll d N s r ∧ ¬ Untouched d s r := by
  obtain ⟨q, hq, hlt, hzero⟩ : ∃ q, 1 ≤ q ∧ q < 2 ^ 20 ∧ s.entryAt d q = 0 := by
    by_contra hc
    exact hfull fun q h₁ h₂ hz => hc ⟨q, h₁, h₂, hz⟩
  have hlow : q < 768 * 1024 := by
    by_contra hge
    exact h.kernel q (by omega) hlt hzero
  have hole : q ∈ s.holesBelow d (768 * 1024) :=
    mem_holesBelow.mpr ⟨hlow, hq, (hole_iff_entryAt hd hlow).mpr hzero⟩
  obtain ⟨f, -, hentry, -⟩ := h.filled.entryAt_new hd (Nat.le_refl _) hole
  have hne : (s.withMm r.2).entryAt d q ≠ 0 := hentry ▸ entryOf_ne_zero _ _
  refine ⟨?_, fun hun => hne ((hun.entries q hlt).trans hzero)⟩
  rintro ⟨P, -, hP, hmapped, hleast⟩
  have hqP : q ∈ P := by
    by_contra hnot
    exact hne ((hmapped.old q hlt hnot).trans hzero)
  have hmin := hleast (P.min' ⟨q, hqP⟩) (P.isLeast_min' ⟨q, hqP⟩)
  rw [h.result] at hmin
  omega

/-- **When a call is all or nothing**, in a state that meets the invariant. -/
lemma Inv.allOrNothing_iff (hinv : Inv s) (h₀ : Grounded s d) (hd : d ∈ s.dirs) (len : ℕ) :
    AllOrNothing d len s ↔ (0 < len ∧ s.Enough d ((len + 4095) / 4096)) ∨ s.Full d := by
  rw [AllOrNothing, ← totalPages_eq]
  constructor
  · intro hall
    rcases sysMmap_outcome hinv h₀ hd len with hdam | hdone | hran
    · have hmar := hdam.marred h₀
      exact absurd hall (not_or.mpr ⟨hmar.not_mapsAll, hmar.not_untouched⟩)
    · obtain ⟨hpos, henough⟩ := hdone.enough
      refine .inl ⟨?_, henough⟩
      rw [totalPages_eq] at hpos
      omega
    · right
      by_contra hfull
      exact absurd hall (not_or.mpr (hran.not_allOrNothing hfull hd))
  · rintro (⟨hlen, henough⟩ | hfull)
    · exact .inl ((hinv.sysMmap_of_enough hd hlen henough).mapsAll hinv hd)
    · rcases sysMmap_outcome hinv h₀ hd len with hdam | hdone | hran
      · obtain ⟨q, h₁, h₂, hzero, -⟩ := hdam.marred h₀
        exact absurd hzero (hfull q h₁ h₂)
      · exact .inl (hdone.mapsAll hinv hd)
      · exact .inr (hran.untouched hfull hinv hd)

/-! ## Where the kernel's page tables are -/

/-- The page tables of the kernel's half outside of the heap, which are in the kernel image or were
allocated at boot, are in memory that the bitmap covers, and not in frame 0. -/
def Sited (s : Sys) : Prop := ∀ i, 768 ≤ i → i < 1024 → ¬ (769 ≤ i ∧ i < 896) →
  s.mm.kernelPageDirectory i ≠ 0 →
  s.mm.kernelPageDirectory i / 4096 ≠ 0 ∧ s.mm.kernelPageDirectory i / 4096 < s.mm.bitmapSize

/-- What a boot fixes depends on the size of the bitmap and the kernel's entries outside of the heap
only. -/
lemma Sited.of_eq (h : Sited s) (hsize : s'.mm.bitmapSize = s.mm.bitmapSize)
    (hkernel : ∀ i, ¬ (769 ≤ i ∧ i < 896) →
      s'.mm.kernelPageDirectory i = s.mm.kernelPageDirectory i) : Sited s' := by
  intro i hi hi' hheap
  rw [hkernel i hheap, hsize]
  exact h i hi hi' hheap

/-- **No call moves them.** -/
lemma Sited.step {e : Event} (h : Sited s) (hinv : Inv s) (hs : Step s e s') : Sited s' := by
  obtain ⟨hen, rfl, hquiet⟩ := hs
  cases e with
  | mmap n =>
    rcases Nat.eq_zero_or_pos n with rfl | hn
    · rw [exec, mmap_zero hquiet]
      exact h
    · exact h.of_eq (Mm.bitmapSize_mmap s.mm n kernelFlags) fun i hi =>
        (hinv.mmap hn hquiet).1.step.outside hi
  | unmmap v n =>
    exact h.of_eq (Mm.bitmapSize_unmmap s.mm _ n) fun i _ =>
      congrFun (hinv.unmmap hen.1 hen.2).kernel i
  | create code =>
    exact h.of_eq (Mm.bitmapSize_mmapRing3 s.mm code) fun i _ =>
      congrFun (hinv.mmapRing3 hquiet).kernel i
  | sysMmap d len =>
    obtain ⟨p, -, -, hfilled, -⟩ := hinv.sysMmap hen hquiet
    exact h.of_eq hfilled.confined.size fun i _ => congrFun hfilled.confined.kernel i
  | sysMunmap d addr len =>
    have hconf := (sysMunmap_spec hinv hen.1 hen.2).confined
    exact h.of_eq hconf.size fun i _ => congrFun hconf.kernel i
  | destroy d =>
    have hsize : (s.mm.unmmapRing3 d).bitmapSize = s.mm.bitmapSize := by
      have hfree : ∀ (m : Mm) (a : ℕ), (m.pmmFree a 1).bitmapSize = m.bitmapSize := fun _ _ => rfl
      rw [Mm.unmmapRing3, hfree]
      exact (hinv.unmmapRing3Tables hen).confined.size
    exact h.of_eq hsize fun i _ => congrFun (hinv.unmmapRing3 hen).kernel i
  | store f page => exact h.of_eq rfl fun _ _ => rfl

/-- **They stay where they are** in every run. -/
theorem sited_of_reach {ok : Sys → Event → Prop}
    (h : Transition.Reach (fun s => Boot s ∧ Sited s) Step ok s) : Inv s ∧ Sited s :=
  h.invariant (I := fun s => Inv s ∧ Sited s) (fun _ hb => ⟨hb.1.inv, hb.2⟩)
    fun _ _ _ hI _ hs => ⟨hI.1.step hs, hI.2.step hI.1 hs⟩

/-- Frames at places are not the one behind the end of the bitmap. -/
lemma Inv.own_ne_spill {pl : Place} (h : Inv s) (hf : s.own pl = some f) : f ≠ s.mm.spill := by
  have hlt := h.bound hf
  have hsize := h.size
  rw [Mm.spill]
  intro he
  obtain rfl : f = 0 := by omega
  exact (h.reserved (.inl rfl)).2 pl hf

/-- **The address space of a task is grounded.** -/
lemma Inv.grounded (h : Inv s) (hsited : Sited s) (hd : d ∈ s.dirs) : Grounded s d := by
  have hsize := h.size
  refine ⟨hsize, ⟨h.dir_lt hd, h.sound.used_of_own (own_dir hd), h.own_ne_spill (own_dir hd)⟩,
    fun hlt => ?_, fun {i} hi hne => ?_⟩
  · rw [Mm.spill] at hlt ⊢
    rw [show s.mm.bitmapSize % 2 ^ 20 = 0 by omega]
    exact (h.reserved (.inl rfl)).1
  · have hrest : s.mm.mem (d / 4096) i < 2 ^ 32 ∧ s.mm.used (s.mm.mem (d / 4096) i / 4096) ∧
        s.mm.mem (d / 4096) i / 4096 ≠ s.mm.spill := by
      rcases Nat.lt_or_ge i 768 with hlow | hhigh
      · have hword : s.tableEntry (.task d) i = s.mm.mem (d / 4096) i :=
          if_pos (show s.Covers (.task d) i from ⟨hd, hlow⟩)
        rw [← hword] at hne ⊢
        exact ⟨h.tableEntry_lt _ _, h.sound.used_of_own (own_table hne),
          h.own_ne_spill (own_table hne)⟩
      · have hk := (h.halves d hd i hhigh hi).resolve_left hne
        rw [hk] at hne ⊢
        refine ⟨h.kernelTable_lt hhigh hi hne, (h.alien_kernelTable (d := d) hhigh hi hne).1, ?_⟩
        by_cases hheap : 769 ≤ i ∧ i < 896
        · exact h.own_ne_spill (own_kernelTable hheap hne)
        · have := hsited i hhigh hi hheap hne
          rw [Mm.spill]
          omega
    have hdir := h.dirWord_ne hd hi
    rw [Mm.entry_div hrest.1 (by decide)] at hdir
    exact ⟨hrest.1, hdir, hrest.2⟩

/-- The kernel's page tables of the state after boot. -/
lemma sited_bootState : Sited bootState := by
  intro i hi hi' hheap hne
  have hsize : bootState.mm.bitmapSize = 4096 := rfl
  rw [bootState_directory hne, hsize]
  omega

/-- The run to the first task. -/
lemma reach_taskState_sited :
    Transition.Reach (fun s => Boot s ∧ Sited s) Step (fun _ _ => True) taskState :=
  .next (a := .create fun _ => 0) (.next (a := .mmap 1)
    (.start ⟨boot_bootState, sited_bootState⟩) trivial ⟨trivial, rfl, heapGrown_boot.2.1⟩) trivial
    ⟨trivial, rfl, created_taskState.inv.quiet⟩

end Sys

end AlphaOS
