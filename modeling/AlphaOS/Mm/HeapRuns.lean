import AlphaOS.Mm.Window
import AlphaOS.Mm.System
import Mathlib.Order.Interval.Finset.Nat

set_option relaxedAutoImplicit false
set_option autoImplicit false

/-!
# Calls that map and unmap runs of heap pages

`mmap` takes the lowest run of free heap pages and maps it page by page, each page to a frame of its
own, with a page table made on the way when a page is the first one behind its directory entry.
`unmmap` goes through a range in the same way. This file says what the two functions do, for every
number of pages and all flags, and what holds after every sequence of calls.

## Main definitions

* `AlphaOS.Mm.lowCount` — the number of free frames that have a 32-bit address.
* `AlphaOS.Mm.PageMapped`, `AlphaOS.Mm.RunMapped` — what an iteration of `mmap`, and its loop, has
  done.
* `AlphaOS.Mm.RangeUnmapped` — what the loop of `unmmap` has done.

## Main results

* `AlphaOS.Mm.Window.mmap`, `AlphaOS.Mm.Window.unmmap` — the two functions.
* `AlphaOS.Mm.heap_window` — what holds in every run, and what the next call does.
-/

namespace AlphaOS

namespace Mm

variable {s s' s'' : Mm} {f g t i j k u v n lo flags : ℕ} {page : ℕ → ℕ}

/-! ## Frames with a 32-bit address -/

/-- The free frames that have a 32-bit address. -/
def lowFrames (s : Mm) : Finset ℕ := s.freeFrames.filter (· < 2 ^ 20)

/-- The number of free frames that have a 32-bit address. -/
def lowCount (s : Mm) : ℕ := s.lowFrames.card

/-- The free frames below 4 GiB. -/
lemma mem_lowFrames : f ∈ s.lowFrames ↔ (f < s.bitmapSize ∧ ¬s.used f) ∧ f < 2 ^ 20 := by
  rw [lowFrames, Finset.mem_filter, mem_freeFrames]

/-- Taking a frame with a 32-bit address leaves one fewer. -/
lemma lowCount_take (hf : f ∈ s.lowFrames) : (s.take f).lowCount + 1 = s.lowCount := by
  have herase : (s.take f).lowFrames = s.lowFrames.erase f := by
    ext g
    have hsize : (s.take f).bitmapSize = s.bitmapSize := rfl
    rw [Finset.mem_erase, mem_lowFrames, mem_lowFrames, used_take, hsize]
    tauto
  rw [lowCount, herase, Finset.card_erase_of_mem hf, lowCount]
  have hpos := Finset.card_pos.mpr ⟨f, hf⟩
  omega

/-- **An allocation finds a frame** with a 32-bit address when one is free. -/
lemma allocFilled_low (h : 0 < s.lowCount) (page : ℕ → ℕ) :
    ∃ f ∈ s.lowFrames, s.allocFilled page = (f * 4096, (s.take f).put f page) := by
  obtain ⟨g, hg⟩ := Finset.card_pos.mp h
  obtain ⟨⟨hlt, hfree⟩, hlow⟩ := mem_lowFrames.mp hg
  obtain ⟨-, hunused, hmin⟩ := s.pmmLast_one
  have hle := hmin g hfree
  have hfirst : s.pmmFirst 1 = s.pmmLast 1 := pmmFirst_one (by omega)
  have haddr : s.pmmLast 1 * 4096 % 2 ^ 32 = s.pmmLast 1 * 4096 := Nat.mod_eq_of_lt (by omega)
  have hflag : (s.overrun || decide (s.pmmLast 1 = s.bitmapSize)) = s.overrun := by
    rw [decide_eq_false (by omega), Bool.or_false]
  refine ⟨s.pmmLast 1, mem_lowFrames.mpr ⟨⟨by omega, hunused (by omega)⟩, by omega⟩, ?_⟩
  have halloc : s.pmmAlloc 1 = (s.pmmLast 1 * 4096, s.take (s.pmmLast 1)) := by
    rw [pmmAlloc, hfirst, setBits_self, haddr, hflag]
    rfl
  rw [allocFilled, halloc]
  rw [fillPage_eq (by omega), Nat.mul_div_cancel _ (by omega)]

/-! ## Making sure of a table -/

/-- What `mmap` and `init_video_memory` do when there is no table behind directory entry `i`: the
frame `t` becomes one. -/
structure NewTable (flags i t : ℕ) (s s' : Mm) : Prop where
  free : t ∈ s.lowFrames
  pos : t ≠ 0
  state : s' = ((s.take t).put t fun _ => 0).putKernel i (t * 4096 + flags)
  used : ∀ g, s'.used g ↔ g = t ∨ s.used g
  directory :
    ∀ k, s'.kernelPageDirectory k = if k = i then t * 4096 + flags else s.kernelPageDirectory k
  entries : ∀ k, ∀ j < 1024, k < 1024 → s'.kernelEntry k j = s.kernelEntry k j
  count : s'.lowCount + 1 = s.lowCount

/-- **A missing table is made.**

**Proof sketch.** The frame is filled with zeros before it becomes the table, so the entries behind
the directory entry read zero before and after. -/
lemma newTable_ensureTable (hzero : s.used 0) (hnot : ∀ f, ¬s.used f → s.NotTable f)
    (hz : s.kernelPageDirectory i = 0) (hflags : flags < 256) (hfree : 0 < s.lowCount) :
    ∃ t, NewTable flags i t s (s.ensureTable i flags) := by
  obtain ⟨t, ht, heq⟩ := allocFilled_low hfree fun _ => 0
  obtain ⟨⟨-, hunused⟩, hlow⟩ := mem_lowFrames.mp ht
  have hne : t ≠ 0 := fun he => hunused (he ▸ hzero)
  obtain ⟨hentry, hdiv, -, -⟩ := entry_spec hlow hne hflags
  have hstate :
      s.ensureTable i flags = ((s.take t).put t fun _ => 0).putKernel i (t * 4096 + flags) := by
    rw [Mm.ensureTable, if_pos hz, allocZeroed, heq, hentry]
    rfl
  have hmem : ((s.take t).put t fun _ => 0).mem t = fun _ => 0 := Function.update_self ..
  rw [hstate]
  refine ⟨t, ht, hne, rfl, fun _ => used_take, fun k =>
    Function.update_apply .., fun k j hj hk => ?_,
    lowCount_take ht⟩
  have hput := kernelEntry_putKernel (s := (s.take t).put t fun _ => 0) (e := t * 4096 + flags) hz
    (fun j _ => by rw [hdiv, hmem]) k hj
  rw [hput]
  exact kernelEntry_put (s := s.take t) (hnot t hunused) hk j _

/-- What has been done when there is a table behind directory entry `i`. -/
structure TableReady (i : ℕ) (s s' : Mm) : Prop where
  window : Window s'
  size : s'.bitmapSize = s.bitmapSize
  table : s'.kernelPageDirectory i ≠ 0
  /-- No other entry of the directory has changed, and none that was there. -/
  directory : ∀ k, k ≠ i ∨ s.kernelPageDirectory k ≠ 0 →
    s'.kernelPageDirectory k = s.kernelPageDirectory k
  entries : ∀ k, ∀ j < 1024, k < 1024 → s'.kernelEntry k j = s.kernelEntry k j
  used : ∀ g, s'.used g ↔ s.used g ∨ s'.held (.table i) = some g
  /-- A new table is at a frame that was free. -/
  tables : ∀ k g, s'.held (.table k) = some g → s.held (.table k) = some g ∨ ¬s.used g
  loose : ∀ g, Ledger.Loose s.held s.used g → Ledger.Loose s'.held s'.used g
  mem : ∀ g, s.used g → s'.mem g = s.mem g
  record : s'.kheapPages = s.kheapPages
  count : s.lowCount = s'.lowCount + if s.kernelPageDirectory i = 0 then 1 else 0

/-- **`mmap` makes sure of a table.** -/
lemma Window.ensureTable (h : Window s) (hi : InHeap i) (hflags : flags < 256)
    (hfree : (if s.kernelPageDirectory i = 0 then 1 else 0) ≤ s.lowCount) :
    TableReady i s (s.ensureTable i flags) := by
  by_cases hz : s.kernelPageDirectory i = 0
  · rw [if_pos hz] at hfree
    obtain ⟨t, hnew⟩ :=
      newTable_ensureTable h.zero.1 (fun f hf => h.notTable_of_free hf) hz hflags hfree
    obtain ⟨⟨-, hunused⟩, hlow⟩ := mem_lowFrames.mp hnew.free
    obtain ⟨hwindow, hheld, hloose, -, -⟩ := h.take hunused
    have hapart : s.Apart t := fun k hk _ hnz => h.notTable_of_free hunused k hk hnz
    have hzero : ((s.take t).put t fun _ => 0).mem t = fun _ => 0 := Function.update_self ..
    obtain ⟨hwindow', hheld'⟩ :=
      hwindow.putKernel hi hz (hheld ▸ hloose) hlow hnew.pos hflags hapart
      fun j _ => congrFun hzero j
    rw [← hnew.state] at hwindow' hheld'
    obtain ⟨-, -, hpos, -⟩ := entry_spec hlow hnew.pos hflags
    constructor
    case window => exact hwindow'
    case size =>
      rw [hnew.state]
      rfl
    case table =>
      rw [hnew.directory, if_pos rfl]
      exact hpos
    case directory =>
      intro k hk
      rw [hnew.directory, if_neg fun hki => hk.elim (· hki) fun hnz => hnz (hki ▸ hz)]
    case entries => exact hnew.entries
    case used =>
      intro g
      rw [hnew.used, hheld', Function.update_self, Option.some.injEq, or_comm, eq_comm]
    case tables =>
      intro k g hg
      rw [hheld', Function.update_apply, hheld] at hg
      split_ifs at hg
      · exact .inr (Option.some.inj hg ▸ hunused)
      · exact .inl hg
    case loose =>
      intro g hg
      have hgt : g ≠ t := fun heq => hunused (heq ▸ hg.1)
      rw [hheld']
      refine Ledger.Loose.put ⟨(hnew.used g).mpr (.inr hg.1), ?_⟩ hgt
      rw [hheld]
      exact hg.2
    case mem =>
      intro g hg
      have hgt : g ≠ t := fun heq => hunused (heq ▸ hg)
      rw [hnew.state]
      exact Function.update_of_ne hgt _ _
    case record =>
      rw [hnew.state]
      rfl
    case count =>
      rw [if_pos hz]
      exact hnew.count.symm
  · have hsame : s.ensureTable i flags = s := by rw [Mm.ensureTable, if_neg hz]
    rw [hsame]
    constructor
    case window => exact h
    case size => rfl
    case table => exact hz
    case directory => exact fun _ _ => rfl
    case entries => exact fun _ _ _ _ => rfl
    case used => exact fun g => ⟨.inl, fun hg => hg.elim id h.sound.used_of_own⟩
    case tables => exact fun _ _ hg => .inl hg
    case loose => exact fun _ hg => hg
    case mem => exact fun _ _ => rfl
    case record => rfl
    case count => rw [if_neg hz, Nat.add_zero]

/-! ## Mapping a page -/

/-- What an iteration of `mmap` for heap page `v` has done. -/
structure PageMapped (flags v : ℕ) (s s' : Mm) : Prop where
  window : Window s'
  /-- The page is at a frame that was free, and reads zero. -/
  page : ∃ f ∈ s.lowFrames, s'.heapEntry v = f * 4096 + flags ∧ ∀ j < 1024, s'.mem f j = 0
  table : s'.kernelPageDirectory (769 + v / 1024) ≠ 0
  directory : ∀ k, k ≠ 769 + v / 1024 ∨ s.kernelPageDirectory k ≠ 0 →
    s'.kernelPageDirectory k = s.kernelPageDirectory k
  entries : ∀ k j, k < 1024 → j < 1024 → ¬(k = 769 + v / 1024 ∧ j = v % 1024) →
    s'.kernelEntry k j = s.kernelEntry k j
  size : s'.bitmapSize = s.bitmapSize
  used : ∀ g, s'.used g ↔
    s.used g ∨ s'.held (.page v) = some g ∨ s'.held (.table (769 + v / 1024)) = some g
  tables : ∀ k g, s'.held (.table k) = some g → s.held (.table k) = some g ∨ ¬s.used g
  /-- The frames in use keep their content, except for the tables of the heap. -/
  mem : ∀ g, s.used g → (∀ k, s.held (.table k) ≠ some g) → s'.mem g = s.mem g
  record : ∀ u, s'.kheapPages u = if u = v then 1 else s.kheapPages u
  count : s.lowCount =
    s'.lowCount + 1 + if s.kernelPageDirectory (769 + v / 1024) = 0 then 1 else 0

/-- The end of an iteration of `mmap` sets the entry of the page. -/
lemma mapHeapPage_eq (hv : v < kheapPagesNum) (hf : f < 2 ^ 20) (hflags : flags < 256)
    (hlt : s.kernelPageDirectory (769 + v / 1024) < 2 ^ 32) :
    s.mapHeapPage v (f * 4096) flags = s.setHeapEntry v (f * 4096 + flags) 1 := by
  rw [mapHeapPage, pdeIndex_heapAddr hv, pteIndex_heapAddr hv, entry_frame hf (by omega),
    writeEntry_eq hlt]
  rfl

/-- **An iteration of `mmap`** maps the heap page to a zeroed frame of its own. -/
lemma Window.mmapPage (h : Window s) (hv : v < kheapPagesNum) (hflags : flags < 256)
    (hfree : 1 + (if s.kernelPageDirectory (769 + v / 1024) = 0 then 1 else 0) ≤ s.lowCount) :
    PageMapped flags v s (Mm.mmapPage flags v s) := by
  obtain ⟨f, hf, heq⟩ := allocFilled_low (s := s) (by omega) fun _ => 0
  obtain ⟨⟨-, hunused⟩, hlow⟩ := mem_lowFrames.mp hf
  have hne : f ≠ 0 := fun hzero => hunused (hzero ▸ h.zero.1)
  obtain ⟨hwindow, hheld, hloose, hdir, hentries⟩ := h.take hunused
  have hcount : ((s.take f).put f fun _ => 0).lowCount + 1 = s.lowCount := lowCount_take hf
  have hused : ∀ g, ((s.take f).put f fun _ => 0).used g ↔ g = f ∨ s.used g := fun _ => used_take
  have hzero : ((s.take f).put f fun _ => 0).mem f = fun _ => 0 := Function.update_self ..
  have hmem : ∀ g, s.used g → ((s.take f).put f fun _ => 0).mem g = s.mem g := fun g hg =>
    Function.update_of_ne (fun he : g = f => hunused (he ▸ hg)) _ _
  have hsize : ((s.take f).put f fun _ => 0).bitmapSize = s.bitmapSize := rfl
  have hrec : ((s.take f).put f fun _ => 0).kheapPages = s.kheapPages := rfl
  have hapart : s.Apart f := fun k hk _ hnz => h.notTable_of_free hunused k hk hnz
  rw [Mm.mmapPage, pdeIndex_heapAddr hv, allocZeroed, heq]
  generalize (s.take f).put f (fun _ => 0) = s₁ at *
  -- the frame is taken: it is loose until its entry is written
  have hready := hwindow.ensureTable (inHeap_of_lt hv) hflags (by rw [hdir]; omega)
  generalize s₁.ensureTable (769 + v / 1024) flags = s₂ at hready ⊢
  have hloose₂ : Ledger.Loose s₂.held s₂.used f := hready.loose f (hheld ▸ hloose)
  have hapart₂ : s₂.Apart f := by
    intro k hk hheap
    rw [hready.directory k (.inl fun he => hheap (he ▸ inHeap_of_lt hv)), hdir]
    exact hapart k hk hheap
  have hlt := hready.window.directory_lt (inHeap_of_lt hv) hready.table
  rw [mapHeapPage_eq hv hlow hflags hlt]
  obtain ⟨-, hdiv, hpos, -⟩ := entry_spec hlow hne hflags
  have hframe : frameOf (f * 4096 + flags) = some f := frameOf_eq_some.mpr ⟨hpos, hdiv⟩
  have hheld₂ := hready.window.held_setHeapEntry hv hready.table (f * 4096 + flags) 1
  have htable :
      ∀ k, (s₂.setHeapEntry v (f * 4096 + flags) 1).held (.table k) = s₂.held (.table k) := by
    intro k
    rw [hheld₂, Function.update_of_ne (by simp)]
  have hkept : ∀ g, g ≠ s₂.kernelPageDirectory (769 + v / 1024) / 4096 →
      (s₂.setHeapEntry v (f * 4096 + flags) 1).mem g = s₂.mem g := fun g hg =>
    Function.update_of_ne hg _ _
  have hslot := held_table (inHeap_of_lt hv) hready.table
  constructor
  case window => exact hready.window.mapPage hv hready.table hloose₂ hlow hne hflags hapart₂
  case page =>
    refine ⟨f, hf, ?_, fun j _ => ?_⟩
    · rw [hready.window.heapEntry_setHeapEntry hv hready.table _ 1 hv, if_pos rfl]
    · rw [hkept f (hloose₂.ne hslot), hready.mem f ((hused f).mpr (.inl rfl)), hzero]
  case table => exact hready.table
  case directory =>
    intro k hk
    exact (hready.directory k (hdir ▸ hk)).trans (congrFun hdir k)
  case entries =>
    intro k j hk hj hne
    rw [hready.window.kernelEntry_setHeapEntry hv hready.table _ 1 hk, if_neg hne,
      hready.entries k j hj hk, hentries k hk j]
  case size => exact hready.size.trans hsize
  case used =>
    intro g
    rw [htable, hheld₂, Function.update_self, hframe, Option.some.injEq]
    refine (hready.used g).trans ?_
    rw [hused]
    tauto
  case tables =>
    intro k g hg
    rw [htable] at hg
    rcases hready.tables k g hg with hold | hnew
    · exact .inl (hheld ▸ hold)
    · exact .inr fun hg => hnew ((hused g).mpr (.inr hg))
  case mem =>
    intro g hg hno
    have hg₁ := (hused g).mpr (.inr hg)
    rw [hkept g ?_, hready.mem g hg₁, hmem g hg]
    intro he
    rcases hready.tables _ g (he ▸ hslot) with hold | hnew
    · exact hno _ (hheld ▸ hold)
    · exact hnew hg₁
  case record =>
    intro u
    have hset : (s₂.setHeapEntry v (f * 4096 + flags) 1).kheapPages u =
        if u = v then 1 else s₂.kheapPages u := Function.update_apply ..
    rw [hset, hready.record, hrec]
  case count =>
    have hc := hready.count
    have hc' : (s₂.setHeapEntry v (f * 4096 + flags) 1).lowCount = s₂.lowCount := rfl
    rw [hdir] at hc
    omega

/-! ## Mapping a run -/

/-- The directory entries behind the heap pages from `lo` to before `k` that have no table. -/
def tablesMissing (s : Mm) (lo k : ℕ) : Finset ℕ :=
  ((Finset.Ico lo k).image fun u => 769 + u / 1024).filter fun i => s.kernelPageDirectory i = 0

/-- The tables that are missing for a run of heap pages. -/
lemma mem_tablesMissing : i ∈ s.tablesMissing lo k ↔
    (∃ u, (lo ≤ u ∧ u < k) ∧ 769 + u / 1024 = i) ∧ s.kernelPageDirectory i = 0 := by
  simp [tablesMissing]

/-- More pages need more tables. -/
lemma tablesMissing_mono (s : Mm) (lo : ℕ) (h : k ≤ n) :
    (s.tablesMissing lo k).card ≤ (s.tablesMissing lo n).card := by
  refine Finset.card_le_card fun i hi => ?_
  obtain ⟨⟨u, hu, heq⟩, hz⟩ := mem_tablesMissing.mp hi
  exact mem_tablesMissing.mpr ⟨⟨u, by omega, heq⟩, hz⟩

/-- The heap pages need the tables behind the directory entries of the heap. -/
lemma card_tablesMissing_le (s : Mm) (hn : v + n ≤ kheapPagesNum) :
    (s.tablesMissing v (v + n)).card ≤ 127 := by
  have hsub : s.tablesMissing v (v + n) ⊆ Finset.Ico 769 896 := by
    intro i hi
    obtain ⟨⟨u, hu, rfl⟩, -⟩ := mem_tablesMissing.mp hi
    exact Finset.mem_Ico.mpr (inHeap_of_lt (by omega))
  have hcard := Finset.card_le_card hsub
  rwa [Nat.card_Ico] at hcard

/-- What `mmap` has done when the heap pages from `lo` to before `k` have been mapped. -/
structure RunMapped (flags lo k : ℕ) (s s' : Mm) : Prop where
  window : Window s'
  /-- Each page is at a frame that was free, and reads zero. -/
  pages : ∀ u, lo ≤ u → u < k →
    ∃ f ∈ s.lowFrames, s'.heapEntry u = f * 4096 + flags ∧ ∀ j < 1024, s'.mem f j = 0
  /-- No other entry of a table has changed, -/
  entries : ∀ i j, i < 1024 → j < 1024 →
    (∀ u, lo ≤ u → u < k → ¬(i = 769 + u / 1024 ∧ j = u % 1024)) →
      s'.kernelEntry i j = s.kernelEntry i j
  /-- and no entry of the directory but those behind the pages that had no table. -/
  directory : ∀ i, s'.kernelPageDirectory i ≠ s.kernelPageDirectory i →
    s.kernelPageDirectory i = 0 ∧ ∃ u, (lo ≤ u ∧ u < k) ∧ 769 + u / 1024 = i
  ready : ∀ u, lo ≤ u → u < k → s'.kernelPageDirectory (769 + u / 1024) ≠ 0
  size : s'.bitmapSize = s.bitmapSize
  /-- The frames in use are those used before, those of the pages and those of their tables. -/
  used : ∀ g, s'.used g ↔ s.used g ∨ ∃ u, (lo ≤ u ∧ u < k) ∧
    (s'.held (.page u) = some g ∨ s'.held (.table (769 + u / 1024)) = some g)
  tables : ∀ i g, s'.held (.table i) = some g → s.held (.table i) = some g ∨ ¬s.used g
  mem : ∀ g, s.used g → (∀ i, s.held (.table i) ≠ some g) → s'.mem g = s.mem g
  record : ∀ u, s'.kheapPages u = if lo ≤ u ∧ u < k then 1 else s.kheapPages u
  count : s.lowCount = s'.lowCount + (k - lo) + (s.tablesMissing lo k).card

/-- When no entry of a table has changed but those of a range, the other heap pages keep theirs. -/
lemma heapEntry_of_entries (h : ∀ i j, i < 1024 → j < 1024 →
      (∀ u, lo ≤ u → u < k → ¬(i = 769 + u / 1024 ∧ j = u % 1024)) →
        s'.kernelEntry i j = s.kernelEntry i j)
    (hu : u < kheapPagesNum) (hout : ¬(lo ≤ u ∧ u < k)) : s'.heapEntry u = s.heapEntry u := by
  have hi := (inHeap_of_lt hu).2
  refine h _ _ (by omega) (Nat.mod_lt u (by omega)) fun w h₁ h₂ hc => hout ?_
  rw [heapIndex_inj.mp hc]
  exact ⟨h₁, h₂⟩

/-- The pages outside of the run keep their entries. -/
lemma RunMapped.heapEntry (h : RunMapped flags lo k s s') (hu : u < kheapPagesNum)
    (hout : ¬(lo ≤ u ∧ u < k)) : s'.heapEntry u = s.heapEntry u :=
  heapEntry_of_entries h.entries hu hout

/-- Nothing has been mapped at the start. -/
lemma RunMapped.start (h : Window s) (flags lo : ℕ) : RunMapped flags lo lo s s := by
  have hnone : ∀ u, ¬(lo ≤ u ∧ u < lo) := fun u hu => by omega
  constructor
  case window => exact h
  case pages => exact fun u h₁ h₂ => absurd ⟨h₁, h₂⟩ (hnone u)
  case entries => exact fun _ _ _ _ _ => rfl
  case directory => exact fun _ hne => absurd rfl hne
  case ready => exact fun u h₁ h₂ => absurd ⟨h₁, h₂⟩ (hnone u)
  case size => rfl
  case used => exact fun g => ⟨.inl, fun hg => hg.elim id fun ⟨u, hu, _⟩ => absurd hu (hnone u)⟩
  case tables => exact fun _ _ hg => .inl hg
  case mem => exact fun _ _ _ => rfl
  case record => exact fun u => (if_neg (hnone u)).symm
  case count => simp [tablesMissing]

/-- The tables missing for one page more. -/
lemma RunMapped.card_tablesMissing_succ (h : RunMapped flags lo v s s') (hlo : lo ≤ v) :
    (s.tablesMissing lo (v + 1)).card = (s.tablesMissing lo v).card +
      if s'.kernelPageDirectory (769 + v / 1024) = 0 then 1 else 0 := by
  split_ifs with hz
  · have hnew : 769 + v / 1024 ∉ s.tablesMissing lo v := by
      intro hmem
      obtain ⟨⟨u, ⟨h₁, h₂⟩, heq⟩, -⟩ := mem_tablesMissing.mp hmem
      exact h.ready u h₁ h₂ (heq ▸ hz)
    have hold : s.kernelPageDirectory (769 + v / 1024) = 0 := by
      by_contra hne
      exact hne (h.directory _ fun heq => hne (heq ▸ hz)).1
    have hinsert : s.tablesMissing lo (v + 1) = insert (769 + v / 1024) (s.tablesMissing lo v) := by
      ext i
      rw [Finset.mem_insert, mem_tablesMissing, mem_tablesMissing]
      constructor
      · rintro ⟨⟨u, ⟨h₁, h₂⟩, heq⟩, hi⟩
        rcases Nat.lt_succ_iff_lt_or_eq.mp h₂ with hlt | rfl
        · exact .inr ⟨⟨u, ⟨h₁, hlt⟩, heq⟩, hi⟩
        · exact .inl heq.symm
      · rintro (rfl | ⟨⟨u, ⟨h₁, h₂⟩, heq⟩, hi⟩)
        · exact ⟨⟨v, ⟨hlo, Nat.lt_succ_self v⟩, rfl⟩, hold⟩
        · exact ⟨⟨u, ⟨h₁, by omega⟩, heq⟩, hi⟩
    rw [hinsert, Finset.card_insert_of_notMem hnew]
  · have hsame : s.tablesMissing lo (v + 1) = s.tablesMissing lo v := by
      ext i
      rw [mem_tablesMissing, mem_tablesMissing]
      refine and_congr_left fun hi => ?_
      constructor
      · rintro ⟨u, ⟨h₁, h₂⟩, heq⟩
        rcases Nat.lt_succ_iff_lt_or_eq.mp h₂ with hlt | rfl
        · exact ⟨u, ⟨h₁, hlt⟩, heq⟩
        · exact (h.directory i fun hsame => hz (heq ▸ hsame.trans hi)).2
      · rintro ⟨u, ⟨h₁, h₂⟩, heq⟩
        exact ⟨u, ⟨h₁, by omega⟩, heq⟩
    rw [hsame, Nat.add_zero]

/-- A page mapped later leaves the entries of the other pages. -/
lemma PageMapped.heapEntry (h : PageMapped flags v s s') (hu : u < kheapPagesNum) (hne : u ≠ v) :
    s'.heapEntry u = s.heapEntry u := by
  have hi := (inHeap_of_lt hu).2
  exact h.entries _ _ (by omega) (Nat.mod_lt u (by omega)) fun hc => hne (heapIndex_inj.mp hc)

/-- The frame of a mapped heap page is in use, and is no table. -/
lemma Window.used_of_heapEntry (h : Window s) (hv : v < kheapPagesNum) (he : s.heapEntry v ≠ 0) :
    s.used (s.heapEntry v / 4096) ∧ ∀ i, s.held (.table i) ≠ some (s.heapEntry v / 4096) := by
  have hp := held_page hv he
  refine ⟨h.sound.used_of_own hp, fun i hi => ?_⟩
  cases h.sound.inj hp hi

/-- **One more heap page is mapped.** -/
lemma RunMapped.next (h : RunMapped flags lo v s s') (hlo : lo ≤ v) (hv : v < kheapPagesNum)
    (hflags : flags < 256) (hmap : PageMapped flags v s' s'') :
      RunMapped flags lo (v + 1) s s'' := by
  have hused : ∀ g, s.used g → s'.used g := fun g hg => (h.used g).mpr (.inl hg)
  have hsame : ∀ u, lo ≤ u → u < v → s''.held (.page u) = s'.held (.page u) ∧
      s''.held (.table (769 + u / 1024)) = s'.held (.table (769 + u / 1024)) := by
    intro u h₁ h₂
    have hu : u < kheapPagesNum := by omega
    have hdir := hmap.directory _ (.inr (h.ready u h₁ h₂))
    rw [held, held, held, held, hmap.heapEntry hu (by omega), hdir]
    exact ⟨rfl, rfl⟩
  constructor
  case window => exact hmap.window
  case pages =>
    intro u h₁ h₂
    by_cases huv : u = v
    · subst huv
      obtain ⟨f, hf, hentry, hzero⟩ := hmap.page
      refine ⟨f, ?_, hentry, hzero⟩
      obtain ⟨⟨hlt, hfree⟩, hlow⟩ := mem_lowFrames.mp hf
      exact mem_lowFrames.mpr ⟨⟨h.size ▸ hlt, fun hg => hfree (hused f hg)⟩, hlow⟩
    · have hu : u < kheapPagesNum := by omega
      obtain ⟨f, hf, hentry, hzero⟩ := h.pages u h₁ (by omega)
      refine ⟨f, hf, (hmap.heapEntry hu huv).trans hentry, fun j hj => ?_⟩
      have hpos : s'.heapEntry u ≠ 0 :=
        (h.window.record hu).1.mp ((h.record u).trans (if_pos ⟨h₁, by omega⟩))
      have hkeep := h.window.used_of_heapEntry hu hpos
      have hdiv : s'.heapEntry u / 4096 = f := by omega
      rw [hdiv] at hkeep
      rw [hmap.mem f hkeep.1 hkeep.2]
      exact hzero j hj
  case entries =>
    intro i j hi hj hout
    rw [hmap.entries i j hi hj (hout v hlo (Nat.lt_succ_self v))]
    exact h.entries i j hi hj fun u h₁ h₂ => hout u h₁ (by omega)
  case directory =>
    intro i hne
    by_cases hlast : s''.kernelPageDirectory i = s'.kernelPageDirectory i
    · obtain ⟨hz, u, hu, heq⟩ := h.directory i (hlast ▸ hne)
      exact ⟨hz, u, by omega, heq⟩
    · have hiv : i = 769 + v / 1024 := by
        by_contra hiv
        exact hlast (hmap.directory i (.inl hiv))
      have hz : s'.kernelPageDirectory i = 0 := by
        by_contra hz
        exact hlast (hmap.directory i (.inr hz))
      refine ⟨?_, v, ⟨hlo, Nat.lt_succ_self v⟩, hiv.symm⟩
      by_contra hnz
      exact hnz (h.directory i fun heq => hnz (heq ▸ hz)).1
  case ready =>
    intro u h₁ h₂
    by_cases huv : u = v
    · exact huv ▸ hmap.table
    · have hready := h.ready u h₁ (by omega)
      rwa [hmap.directory _ (.inr hready)]
  case size => exact hmap.size.trans h.size
  case used =>
    intro g
    rw [hmap.used, h.used]
    constructor
    · rintro ((hg | ⟨u, hu, hg⟩) | hg)
      · exact .inl hg
      · obtain ⟨hp, ht⟩ := hsame u hu.1 hu.2
        exact .inr ⟨u, by omega, by rwa [hp, ht]⟩
      · exact .inr ⟨v, ⟨hlo, Nat.lt_succ_self v⟩, hg⟩
    · rintro (hg | ⟨u, hu, hg⟩)
      · exact .inl (.inl hg)
      · by_cases huv : u = v
        · exact .inr (huv ▸ hg)
        · obtain ⟨hp, ht⟩ := hsame u hu.1 (by omega)
          exact .inl (.inr ⟨u, by omega, by rwa [hp, ht] at hg⟩)
  case tables =>
    intro i g hg
    rcases hmap.tables i g hg with hold | hnew
    · exact h.tables i g hold
    · exact .inr fun hg => hnew (hused g hg)
  case mem =>
    intro g hg hno
    rw [hmap.mem g (hused g hg), h.mem g hg hno]
    intro i hi
    exact (h.tables i g hi).elim (hno i) fun hfree => hfree hg
  case record =>
    intro u
    rw [hmap.record, h.record]
    by_cases huv : u = v
    · rw [if_pos huv, if_pos (by omega)]
    · rw [if_neg huv]
      exact if_congr (by omega) rfl rfl
  case count =>
    have hcount := h.card_tablesMissing_succ hlo
    have h₁ := h.count
    have h₂ := hmap.count
    omega

/-! ## `mmap` -/

/-- The `n` heap pages from `v` on are free. -/
def FreeHeapRun (s : Mm) (v n : ℕ) : Prop :=
  v + n ≤ kheapPagesNum ∧ ∀ u, v ≤ u → u < v + n → s.kheapPages u = 0

/-- The lowest run of `n` free heap pages starts at `v`. -/
def LowestRun (s : Mm) (v n : ℕ) : Prop := s.FreeHeapRun v n ∧ ∀ w < v, ¬s.FreeHeapRun w n

/-- There are frames for the `n` heap pages from `v` on and for the tables they need. -/
def EnoughFrames (s : Mm) (v n : ℕ) : Prop := n + (s.tablesMissing v (v + n)).card ≤ s.lowCount

/-- **The search of `mmap`** finds the lowest run. -/
lemma freeVirtAreaIdx_lowest (hn : 1 ≤ n) (h : s.FreeHeapRun v n) :
    s.virtLast n ≠ kheapPagesNum ∧ s.LowestRun (s.freeVirtAreaIdx n) n := by
  have hnum : kheapPagesNum = 130048 := by decide
  have hclear : ∀ w, v ≤ w → w < v + n → (s.kheapPages w != 0) = false := fun w h₁ h₂ => by
    simp [h.2 w h₁ h₂]
  have hbound := h.1
  have hlt : s.virtLast n < 0 + kheapPagesNum :=
    Bits.search_lt (u := fun i => s.kheapPages i != 0) (by omega) hclear hn
      (Nat.zero_le _) (by omega)
      (by omega)
  have hlast : s.virtLast n ≠ kheapPagesNum := by omega
  obtain ⟨hle, hfree⟩ := Sys.freeVirtAreaIdx_spec hn hlast
  refine ⟨hlast, ⟨hle, hfree⟩, fun w hw hrun => ?_⟩
  have hidx : s.freeVirtAreaIdx n + n ≤ s.virtLast n + 1 := by
    have hend : n ≤ s.virtLast n + 1 := (Bits.search_found (u := fun i => s.kheapPages i != 0)
      (.inl (by omega)) (Nat.le_refl 0) (fun u _ h => absurd h (Nat.not_lt_zero u)) hlt).1
    rw [freeVirtAreaIdx, sub32, sub32]
    omega
  refine Bits.search_first (u := fun i => s.kheapPages i != 0) (k := kheapPagesNum)
    (v := w) hn (by omega)
    ?_ fun u h₁ h₂ => by simp [hrun.2 u h₁ h₂]
  rw [← virtLast]
  omega

/-- The lowest run is one run. -/
lemma LowestRun.unique (h₁ : s.LowestRun u n) (h₂ : s.LowestRun v n) : u = v := by
  rcases Nat.lt_trichotomy u v with hlt | heq | hlt
  · exact absurd h₁.1 (h₂.2 u hlt)
  · exact heq
  · exact absurd h₂.1 (h₁.2 v hlt)

/-- **`mmap`** maps the lowest run of free heap pages. -/
theorem Window.mmap (h : Window s) (hn : 1 ≤ n) (hflags : flags < 256) (hrun : s.LowestRun v n)
    (hframes : s.EnoughFrames v n) :
    (s.mmap n flags).1 = heapAddr v ∧ RunMapped flags v (v + n) s (s.mmap n flags).2 := by
  obtain ⟨hlast, hlowest⟩ := freeVirtAreaIdx_lowest hn hrun.1
  have hidx : s.freeVirtAreaIdx n = v := hlowest.unique hrun
  have hbound : v + n ≤ 130048 := hrun.1.1
  have hsame :
      ({ s with overrun := s.overrun || decide (s.virtLast n = kheapPagesNum) } : Mm) = s := by
    simp [hlast]
  rw [Mm.mmap, hidx, hsame]
  refine ⟨rfl, Loop.forEach_rule (I := fun k m => RunMapped flags v k s m) ?_ (.start h flags v)⟩
  intro k m h₁ h₂ hmapped
  rw [Nat.mod_eq_of_lt (show k < 2 ^ 32 by omega)]
  have hk : k < kheapPagesNum := show k < 130048 by omega
  -- the frames left are enough for this page and for its table
  have hcount := hmapped.count
  have hsucc := hmapped.card_tablesMissing_succ h₁
  have hmono := tablesMissing_mono s v (show k + 1 ≤ v + n by omega)
  have hfree : n + (s.tablesMissing v (v + n)).card ≤ s.lowCount := hframes
  exact hmapped.next h₁ hk hflags (hmapped.window.mmapPage hk hflags (by omega))

/-! ## `unmmap` -/

/-- A mapped heap page has a table. -/
lemma table_of_heapEntry (he : s.heapEntry v ≠ 0) :
    s.kernelPageDirectory (769 + v / 1024) ≠ 0 ∧
      s.heapEntry v = s.mem (s.kernelPageDirectory (769 + v / 1024) / 4096) (v % 1024) := by
  have hne : s.kernelPageDirectory (769 + v / 1024) ≠ 0 := fun hz => he (if_pos hz)
  exact ⟨hne, if_neg hne⟩

/-- **An iteration of `unmmap`** clears the entry of the page and gives its frame back. -/
lemma Window.unmmapPage_eq (h : Window s) (hv : v < kheapPagesNum) (he : s.heapEntry v ≠ 0) :
    unmmapPage (heapAddr v) s = (s.setHeapEntry v 0 0).release (s.heapEntry v / 4096) := by
  obtain ⟨hne, hmem⟩ := table_of_heapEntry he
  have hlt := h.directory_lt (inHeap_of_lt hv) hne
  have hword : s.heapEntry v < 2 ^ 32 := by
    have hlow := h.low (held_page hv he)
    omega
  have hmask : (s.heapEntry v &&& pageMask) / 4096 = s.heapEntry v / 4096 := by
    rw [pageMask, Bits.and_mask hword, Nat.mul_div_cancel _ (by omega)]
  rw [unmmapPage, pdeIndex_heapAddr hv, pteIndex_heapAddr hv, heapIndex_heapAddr hv,
    readEntry_eq hlt, ← hmem, pmmFree_one, hmask, writeEntry_eq hlt]
  rfl

/-- What `unmmap` has done when the heap pages from `lo` to before `k` have been unmapped. -/
structure RangeUnmapped (lo k : ℕ) (s s' : Mm) : Prop where
  window : Window s'
  directory : s'.kernelPageDirectory = s.kernelPageDirectory
  cleared : ∀ u, lo ≤ u → u < k → s'.heapEntry u = 0
  entries : ∀ i j, i < 1024 → j < 1024 →
    (∀ u, lo ≤ u → u < k → ¬(i = 769 + u / 1024 ∧ j = u % 1024)) →
      s'.kernelEntry i j = s.kernelEntry i j
  size : s'.bitmapSize = s.bitmapSize
  /-- The frames of the pages are free, and no other frame has become so. -/
  used : ∀ g, s'.used g ↔ s.used g ∧ ∀ u, lo ≤ u → u < k → s.held (.page u) ≠ some g
  mem : ∀ g, (∀ i, s.held (.table i) ≠ some g) → s'.mem g = s.mem g
  record : ∀ u, s'.kheapPages u = if lo ≤ u ∧ u < k then 0 else s.kheapPages u

/-- Nothing has been unmapped at the start. -/
lemma RangeUnmapped.start (h : Window s) (lo : ℕ) : RangeUnmapped lo lo s s := by
  have hnone : ∀ u, ¬(lo ≤ u ∧ u < lo) := fun u hu => by omega
  constructor
  case window => exact h
  case directory => rfl
  case cleared => exact fun u h₁ h₂ => absurd ⟨h₁, h₂⟩ (hnone u)
  case entries => exact fun _ _ _ _ _ => rfl
  case size => rfl
  case used => exact fun g =>
    ⟨fun hg => ⟨hg, fun u h₁ h₂ => absurd ⟨h₁, h₂⟩ (hnone u)⟩, fun hg => hg.1⟩
  case mem => exact fun _ _ => rfl
  case record => exact fun u => (if_neg (hnone u)).symm

/-- The pages outside of the range keep their entries. -/
lemma RangeUnmapped.heapEntry (h : RangeUnmapped lo k s s') (hu : u < kheapPagesNum)
    (hout : ¬(lo ≤ u ∧ u < k)) : s'.heapEntry u = s.heapEntry u :=
  heapEntry_of_entries h.entries hu hout

/-- **One more heap page is unmapped.** -/
lemma RangeUnmapped.next (h : RangeUnmapped lo v s s') (hlo : lo ≤ v) (hv : v < kheapPagesNum)
    (he : s.heapEntry v ≠ 0) : RangeUnmapped lo (v + 1) s (unmmapPage (heapAddr v) s') := by
  have hsame : s'.heapEntry v = s.heapEntry v := h.heapEntry hv (by omega)
  have hp : s'.held (.page v) = s.held (.page v) := by rw [held, held, hsame]
  have hframe := held_page hv he
  rw [h.window.unmmapPage_eq hv (hsame ▸ he), hsame]
  obtain ⟨htable, -⟩ := table_of_heapEntry (s := s') (hsame ▸ he)
  have hwindow := h.window.unmapPage hv (hp.trans hframe)
  have hentry : ∀ i j, i < 1024 →
      ((s'.setHeapEntry v 0 0).release (s.heapEntry v / 4096)).kernelEntry i j =
        if i = 769 + v / 1024 ∧ j = v % 1024 then 0 else s'.kernelEntry i j := fun i j hi =>
    h.window.kernelEntry_setHeapEntry hv htable 0 0 hi
  have hused : ∀ g, ((s'.setHeapEntry v 0 0).release (s.heapEntry v / 4096)).used g ↔
      g ≠ s.heapEntry v / 4096 ∧ s'.used g := fun _ => used_release
  have hmem : ∀ g, g ≠ s'.kernelPageDirectory (769 + v / 1024) / 4096 →
      ((s'.setHeapEntry v 0 0).release (s.heapEntry v / 4096)).mem g = s'.mem g := fun g hg =>
    Function.update_of_ne hg _ _
  have hrec : ∀ u, ((s'.setHeapEntry v 0 0).release (s.heapEntry v / 4096)).kheapPages u =
      if u = v then 0 else s'.kheapPages u := fun u => Function.update_apply ..
  constructor
  case window => exact hwindow
  case directory => exact h.directory
  case cleared =>
    intro u h₁ h₂
    have hi := (inHeap_of_lt (v := u) (by omega)).2
    rw [Mm.heapEntry, hentry _ _ (by omega)]
    by_cases huv : u = v
    · rw [if_pos ⟨by rw [huv], by rw [huv]⟩]
    · rw [if_neg (fun hc => huv (heapIndex_inj.mp hc))]
      exact h.cleared u h₁ (by omega)
  case entries =>
    intro i j hi hj hout
    rw [hentry i j hi, if_neg (hout v hlo (Nat.lt_succ_self v))]
    exact h.entries i j hi hj fun u h₁ h₂ => hout u h₁ (by omega)
  case size => exact h.size
  case used =>
    intro g
    rw [hused, h.used]
    constructor
    · rintro ⟨hne, hg, hno⟩
      refine ⟨hg, fun u h₁ h₂ hu => ?_⟩
      by_cases huv : u = v
      · subst huv
        exact hne (Option.some.inj (hu.symm.trans hframe))
      · exact hno u h₁ (by omega) hu
    · rintro ⟨hg, hno⟩
      refine ⟨?_, hg, fun u h₁ h₂ => hno u h₁ (by omega)⟩
      rintro rfl
      exact hno v hlo (Nat.lt_succ_self v) hframe
  case mem =>
    intro g hno
    rw [hmem g, h.mem g hno]
    rintro rfl
    refine hno (769 + v / 1024) ?_
    rw [h.directory] at htable ⊢
    exact held_table (inHeap_of_lt hv) htable
  case record =>
    intro u
    rw [hrec, h.record]
    by_cases huv : u = v
    · rw [if_pos huv, if_pos (by omega)]
    · rw [if_neg huv]
      exact if_congr (by omega) rfl rfl

/-- **`unmmap`** of a mapped range. -/
theorem Window.unmmap (h : Window s) (hv : v + n ≤ kheapPagesNum)
    (hmapped : ∀ u, v ≤ u → u < v + n → s.heapEntry u ≠ 0) :
    RangeUnmapped v (v + n) s (s.unmmap (heapAddr v) n) := by
  have hloop : RangeUnmapped v (v + (0 + n)) s (s.unmmap (heapAddr v) n) := by
    refine Loop.forEach_rule (I := fun k m => RangeUnmapped v (v + k) s m) ?_ (.start h v)
    intro k m _ hk hrange
    rw [Sys.heapAddr_add (by omega)]
    exact hrange.next (by omega) (by omega) (hmapped _ (by omega) (by omega))
  rw [Nat.zero_add] at hloop
  exact hloop

/-! ## Sequences of calls -/

/-- The state after boot: no heap page is mapped, and frame `0` and the tables of the directory are
set aside. -/
structure HeapBoot (s : Mm) : Prop where
  quiet : s.overrun = false
  heap : ∀ i, InHeap i → s.kernelPageDirectory i = 0
  pages : ∀ v, s.kheapPages v = 0
  zero : s.used 0
  fixed : ∀ i < 1024, ¬InHeap i → s.kernelPageDirectory i ≠ 0 →
    s.used (s.kernelPageDirectory i / 4096)

/-- **The invariant holds after boot.** -/
lemma HeapBoot.window (h : HeapBoot s) : Window s := by
  have hentry : ∀ v < kheapPagesNum, s.heapEntry v = 0 :=
    fun v hv => if_pos (h.heap _ (inHeap_of_lt hv))
  have hheld : ∀ p, s.held p = none := by
    intro p
    cases p with
    | table i =>
      rw [held]
      split_ifs with hi
      · exact if_pos (h.heap i hi)
      · rfl
    | page v =>
      rw [held]
      split_ifs with hv
      · exact if_pos (hentry v hv)
      · rfl
  have hempty : ∀ p f, s.held p ≠ some f := fun p f hp => by simp [hheld] at hp
  constructor
  case quiet => exact h.quiet
  case sound => exact ⟨fun hp => absurd hp (hempty _ _), fun hp => absurd hp (hempty _ _)⟩
  case low => exact fun hp => absurd hp (hempty _ _)
  case zero => exact ⟨h.zero, fun p => hempty p 0⟩
  case fixed => exact fun {i} hi hheap hne => ⟨h.fixed i hi hheap hne, fun p => hempty p _⟩
  case record =>
    intro v hv
    rw [h.pages, hentry v hv]
    omega

/-- A call of `mmap`, a call of `unmmap` on the `n` pages from heap page `v` on, or a store of the
kernel into heap page `v`. -/
inductive HeapCall
  | mmap (npages flags : ℕ)
  | unmmap (v npages : ℕ)
  | store (v j w : ℕ)
deriving DecidableEq, Repr

/-- The calls that are made: `mmap` while there are a run of free heap pages and enough frames,
`unmmap` and stores on mapped pages. The flags are a byte. -/
def HeapEnabled (s : Mm) : HeapCall → Prop
  | .mmap n flags => 1 ≤ n ∧ flags < 256 ∧ ∃ v, s.LowestRun v n ∧ s.EnoughFrames v n
  | .unmmap v n => v + n ≤ kheapPagesNum ∧ ∀ u, v ≤ u → u < v + n → s.heapEntry u ≠ 0
  | .store v _ _ => v < kheapPagesNum ∧ s.heapEntry v ≠ 0

/-- What a call does. -/
def heapExec (s : Mm) : HeapCall → Mm
  | .mmap n flags => (s.mmap n flags).2
  | .unmmap v n => s.unmmap (heapAddr v) n
  | .store v j w => s.storeWord v j w

/-- A call that is made. -/
def HeapCalled (s : Mm) (c : HeapCall) (s' : Mm) : Prop := s.HeapEnabled c ∧ s' = s.heapExec c

/-- **Every call keeps the invariant.** -/
lemma Window.call (h : Window s) {c : HeapCall} (hc : s.HeapCalled c s') : Window s' := by
  obtain ⟨hen, rfl⟩ := hc
  cases c with
  | mmap n flags =>
    obtain ⟨hn, hflags, v, hrun, hframes⟩ := hen
    exact (h.mmap hn hflags hrun hframes).2.window
  | unmmap v n => exact (h.unmmap hen.1 hen.2).window
  | store v j w => exact h.storeWord hen.1 hen.2 j w

/-- `mmap` takes the lowest run of free heap pages and maps all of it, the pages to different
frames. -/
def TakesRun (s : Mm) (n flags : ℕ) : Prop :=
  ∃ v, s.LowestRun v n ∧ (s.mmap n flags).1 = heapAddr v ∧
    RunMapped flags v (v + n) s (s.mmap n flags).2 ∧
    ∀ u w, v ≤ u → u < w → w < v + n →
      (s.mmap n flags).2.heapEntry u / 4096 ≠ (s.mmap n flags).2.heapEntry w / 4096

/-- **The window of the kernel heap.** After every sequence of calls, `kheap_pages` records the
pages that have an entry; the next `mmap` takes the lowest run, maps all of it to different zeroed
frames and changes no other translation, and the next `unmmap` removes its range and frees the
frames of it.

**Proof sketch.** Every call keeps `Window`, by the lemmas about one page and induction along the
loops. The frames of a run are different because the ledger of the state after the call is sound. -/
theorem heap_window (h : Transition.Reach HeapBoot HeapCalled (fun _ _ => True) s) :
    (∀ v < kheapPagesNum, s.kheapPages v = 1 ↔ s.heapEntry v ≠ 0) ∧
      (∀ n flags, s.HeapEnabled (.mmap n flags) → s.TakesRun n flags) ∧
      ∀ v n, s.HeapEnabled (.unmmap v n) → RangeUnmapped v (v + n) s (s.unmmap (heapAddr v) n) := by
  have hwindow : Window s := h.invariant (fun _ => HeapBoot.window) fun _ _ _ hw _ hc => hw.call hc
  refine ⟨fun v hv => (hwindow.record hv).1, ?_, fun v n hen => hwindow.unmmap hen.1 hen.2⟩
  intro n flags hen
  obtain ⟨hn, hflags, v, hrun, hframes⟩ := hen
  obtain ⟨haddr, hmapped⟩ := hwindow.mmap hn hflags hrun hframes
  have hbound := hrun.1.1
  have hentry : ∀ u, v ≤ u → u < v + n → (s.mmap n flags).2.heapEntry u ≠ 0 := by
    intro u h₁ h₂
    refine (hmapped.window.record (by omega)).1.mp ?_
    rw [hmapped.record, if_pos ⟨h₁, h₂⟩]
  refine ⟨v, hrun, haddr, hmapped, fun u w h₁ huw h₂ => ?_⟩
  have hu := held_page (by omega) (hentry u h₁ (by omega))
  have hw := held_page (by omega) (hentry w (by omega) h₂)
  exact hmapped.window.sound.ne hu hw (by simp; omega)

/-- The state of the memory manager after boot, on a machine with 16 MiB. -/
lemma heapBoot_bootState : HeapBoot Sys.bootState.mm := by
  have hboot := Sys.boot_bootState
  refine ⟨rfl, fun i hi => hboot.heap i hi.1 hi.2, hboot.pages, ?_, fun i _ _ hne => ?_⟩
  · exact (Sys.bootState_used 0).mpr (by omega)
  · rw [Sys.bootState_directory hne, Sys.bootState_used]
    omega

/-- All of the free frames have a 32-bit address. -/
lemma lowCount_bootState : 3584 ≤ Sys.bootState.mm.lowCount := by
  have hall : Sys.bootState.mm.lowFrames = Sys.bootState.mm.freeFrames := by
    refine Finset.filter_true_of_mem fun f hf => ?_
    have hlt : f < 4096 := (mem_freeFrames.mp hf).1
    omega
  rw [lowCount, hall]
  exact Sys.bootState_freeCount

/-- After boot, 1025 pages are mapped across two entries of the directory. -/
theorem heap_window_wide :
    Sys.bootState.mm.LowestRun 0 1025 ∧ Sys.bootState.mm.EnoughFrames 0 1025 ∧
    Sys.bootState.mm.TakesRun 1025 kernelFlags := by
  have hrun : Sys.bootState.mm.LowestRun 0 1025 :=
    ⟨⟨show 0 + 1025 ≤ 130048 by omega, fun _ _ _ => rfl⟩, fun w hw => absurd hw (Nat.not_lt_zero w)⟩
  have hframes : Sys.bootState.mm.EnoughFrames 0 1025 := by
    have hcard := card_tablesMissing_le Sys.bootState.mm hrun.1.1
    have hcount := lowCount_bootState
    rw [EnoughFrames]
    omega
  refine ⟨hrun, hframes, (heap_window (.start heapBoot_bootState)).2.1 1025 kernelFlags ?_⟩
  exact ⟨by omega, by decide, 0, hrun, hframes⟩

end Mm

end AlphaOS
