import AlphaOS.Mm.Isolation
import AlphaOS.Mm.Regions

set_option relaxedAutoImplicit false
set_option autoImplicit false

/-!
# What `sys_munmap` unmaps

`sys_munmap` is meant to unmap the pages of a range. Its inner loop starts each table at the entry
of the first page, so a range that goes on into a second table is followed only if it begins at the
start of a table. It also takes every entry it reaches for a mapped one: an entry that is zero is
freed as frame 0, and a missing table is taken for the table at frame 0.

## Main definitions

* `AlphaOS.Sys.lookup` — the page-table entry of a page, as the processor finds it.
* `AlphaOS.Sys.Unmapped` — the pages of a range have been unmapped, and nothing else has happened to
  the address space or to the bitmap.
* `AlphaOS.Sys.Harmless` — only frames mapped in the range have been freed, and only the caller's
  page tables have been written.
* `AlphaOS.Sys.Covered` — every entry that the call reaches is that of a mapped page of the range.

## Main results

* `AlphaOS.Sys.munmap_exact_iff` — when a mapped range is unmapped.
* `AlphaOS.Sys.munmap_harmless_iff` — when the call harms nobody, whatever is mapped in the range.
* `AlphaOS.Sys.munmap_skips_page`, `AlphaOS.Sys.munmap_frees_frame_zero` — calls that do not.
-/

namespace AlphaOS

namespace Sys

variable {s s' : Sys} {d i j f k p N addr len : ℕ}

/-! ## Translations -/

/-- The entry of page `j` of table `i` in the address space with page directory `d`, zero when the
table is not there. -/
def lookup (s : Sys) (d i j : ℕ) : ℕ :=
  if s.mm.mem (d / 4096) i = 0 then 0 else s.mm.mem (s.mm.mem (d / 4096) i / 4096) j

/-- In the user half the entries are those of the ledger. -/
lemma lookup_eq_pageEntry (hd : d ∈ s.dirs) (hi : i < 768) (hj : j < 1024) :
    s.lookup d i j = s.pageEntry (.task d) i j := by
  have hentry : s.tableEntry (.task d) i = s.mm.mem (d / 4096) i :=
    if_pos (show s.Covers (.task d) i from ⟨hd, hi⟩)
  have hj' : ¬ 1024 ≤ j := by omega
  simp only [lookup, pageEntry, hentry, hj', or_false]

/-- Entries of places with the same frame are the same. -/
lemma pageEntry_of_own (h : Inv s) (h' : Inv s')
    (hown : s'.own (.page (.task d) i j) = s.own (.page (.task d) i j)) :
    s'.pageEntry (.task d) i j = s.pageEntry (.task d) i j := by
  cases hf : s.own (.page (.task d) i j) with
  | none => rw [frameOf_eq_none.mp hf, frameOf_eq_none.mp (hown.trans hf)]
  | some f => rw [h.pageEntry_eq hf, h'.pageEntry_eq (hown.trans hf)]

/-- The kernel's half of an address space does not change when another part of the caller does. -/
lemma Confined.lookup_eq (hc : Confined d s s') (h : Inv s) (hd : d ∈ s.dirs) (hi : 768 ≤ i)
    (hi' : i < 1024) : s'.lookup d i j = s.lookup d i j := by
  unfold lookup
  rw [hc.upper hi]
  split_ifs with hz
  · rfl
  · have hk := (h.halves d hd i hi hi').resolve_left hz
    rw [hk] at hz ⊢
    exact congrFun (hc.alien (h.alien_kernelTable hi hi' hz)).2 j

/-! ## A mapped range -/

/-- The `N` pages from page `p` on are mapped pages of the user half. -/
def MappedRange (s : Sys) (d p N : ℕ) : Prop :=
  p + N ≤ 768 * 1024 ∧ ∀ k < N, s.own (userPage d (p + k)) ≠ none

/-- The `N` pages from page `p` on have been unmapped: their entries are zero and the bits of their
frames clear, and no other entry and no other bit has changed. -/
structure Unmapped (d p N : ℕ) (s s' : Sys) : Prop where
  entries : ∀ i < 1024, ∀ j < 1024, s'.lookup d i j =
    if p ≤ i * 1024 + j ∧ i * 1024 + j < p + N then 0 else s.lookup d i j
  bits : ∀ f, s'.mm.used f ↔ s.mm.used f ∧ ∀ k < N, s.own (userPage d (p + k)) ≠ some f

/-- The number of pages of a length that fits in the user half. -/
lemma pagesRequired_eq (hlen : len ≤ kernelBase) : Mm.pagesRequired len = (len + 4095) / 4096 := by
  have hlen' : len ≤ 0xC0000000 := hlen
  rw [Mm.pagesRequired]
  omega

/-- The page number of an address, from its two indices. -/
lemma indices_eq (haddr : addr < 2 ^ 32) : pdeIndex addr * 1024 + pteIndex addr = addr / 4096 := by
  rw [pdeIndex_eq, pteIndex_eq]
  omega

/-- A range that begins at the start of a table, or lies inside one, is followed. -/
lemma visited_eq_userPage (haddr : addr < 2 ^ 32)
    (hcond : pteIndex addr = 0 ∨ pteIndex addr + N ≤ 1024) (hk : k < N) :
    visited d addr k = userPage d (addr / 4096 + k) := by
  have hidx := indices_eq haddr
  rcases hcond with hz | hin
  · rw [visited, visitedTable, visitedIndex, hz, userPage, ← hidx, hz]
    congr 1 <;> omega
  · rw [visited_of_lt (by omega), userPage, ← hidx]
    congr 1 <;> omega

/-- A mapped range is not longer than the user half. -/
lemma MappedRange.len_le (hm : s.MappedRange d p ((len + 4095) / 4096)) : len ≤ kernelBase := by
  have hlen : len ≤ 0xC0000000 := by
    have := hm.1
    omega
  exact hlen

/-- A mapped range that is followed is one whose entries the call may clear. -/
lemma MappedRange.clears (hm : s.MappedRange d (addr / 4096) ((len + 4095) / 4096))
    (haddr : addr < 2 ^ 32)
    (hcond : pteIndex addr = 0 ∨ pteIndex addr + (len + 4095) / 4096 ≤ 1024) :
    s.Clears d addr len := by
  intro k hk
  rw [pagesRequired_eq hm.len_le] at hk
  have hplace : visited d addr k = userPage d (addr / 4096 + k) :=
    visited_eq_userPage haddr hcond hk
  have htable : visitedTable addr k = (addr / 4096 + k) / 1024 := (Place.page.inj hplace).2.1
  have := hm.1
  refine ⟨by omega, ?_⟩
  rw [hplace]
  exact hm.2 k hk

/-- **A range that is followed is unmapped.** -/
lemma Emptied.unmapped (h : Inv s) (hd : d ∈ s.dirs) (hm : s.MappedRange d p N)
    (hvis : ∀ k < N, visited d addr k = userPage d (p + k)) (he : Emptied s d addr N s') :
    Unmapped d p N s s' := by
  have hd' : d ∈ s'.dirs := he.confined.dirs ▸ hd
  refine ⟨fun i hi j hj => ?_, fun f => ?_⟩
  · rcases Nat.lt_or_ge i 768 with hlow | hhigh
    · rw [lookup_eq_pageEntry hd' hlow hj, lookup_eq_pageEntry hd hlow hj]
      have hplace := (page_eq_userPage d i hj).symm
      split_ifs with hin
      · have hnone := he.cleared (k := i * 1024 + j - p) (by omega)
        rw [hvis _ (by omega), Nat.add_sub_cancel' hin.1, hplace] at hnone
        exact frameOf_eq_none.mp hnone
      · refine pageEntry_of_own h he.inv (he.same fun k hk heq => hin ?_)
        rw [hvis k hk, ← hplace] at heq
        by_contra hne
        exact userPage_ne (show i * 1024 + j ≠ p + k by omega) heq
    · have hout : ¬ (p ≤ i * 1024 + j ∧ i * 1024 + j < p + N) := by
        have := hm.1
        omega
      rw [if_neg hout]
      exact he.confined.lookup_eq h hd hhigh hi
  · rw [he.used f]
    refine and_congr_right fun _ => forall_congr' fun k => forall_congr' fun hk => ?_
    rw [hvis k hk]

/-! ## A range that is not followed -/

/-- The words of a page directory name other frames than its own. -/
lemma Inv.dirWord_ne (h : Inv s) (hd : d ∈ s.dirs) (hi : i < 1024) :
    entry (s.mm.mem (d / 4096) i) kernelFlags / 4096 ≠ d / 4096 := by
  have hdir : s.own (.dir d) = some (d / 4096) := own_dir hd
  by_cases hz : s.mm.mem (d / 4096) i = 0
  · rw [hz, Mm.entry_div (by omega) (by decide)]
    exact fun he => (h.reserved (.inl rfl)).2 (.dir d) (by rw [hdir, ← he])
  · rcases Nat.lt_or_ge i 768 with hlow | hhigh
    · have hentry : s.tableEntry (.task d) i = s.mm.mem (d / 4096) i :=
        if_pos (show s.Covers (.task d) i from ⟨hd, hlow⟩)
      have hlt := h.tableEntry_lt (.task d) i
      rw [hentry] at hlt
      rw [Mm.entry_div hlt (by decide), ← hentry]
      exact h.sound.ne (own_table (hentry.trans_ne hz)) hdir (by simp)
    · have hk := (h.halves d hd i hhigh hi).resolve_left hz
      rw [hk] at hz ⊢
      rw [Mm.entry_div (h.kernelTable_lt hhigh hi hz) (by decide)]
      exact fun he => (h.alien_kernelTable (d := d) hhigh hi hz).2 (.dir d) rfl (by rw [hdir, ← he])

/-- What no call of `sys_munmap` writes: the words below the index of its first entry, and the
caller's page directory. -/
structure Spares (s : Sys) (d addr : ℕ) (mm : Mm) : Prop where
  low : ∀ g x, x < pteIndex addr → mm.mem g x = s.mm.mem g x
  dir : mm.mem (d / 4096) = s.mm.mem (d / 4096)

/-- Clearing an entry at or above that index, of a table the directory names. -/
lemma Spares.clearEntry {mm : Mm} (h : Spares s d addr mm) (hinv : Inv s) (hd : d ∈ s.dirs)
    (hi : i < 1024) (hj : pteIndex addr ≤ j) :
    Spares s d addr (mm.clearEntry (s.mm.mem (d / 4096) i) j) := by
  have hmem (g x : ℕ) : (mm.clearEntry (s.mm.mem (d / 4096) i) j).mem g x =
      if g = entry (s.mm.mem (d / 4096) i) kernelFlags / 4096 ∧ x = j then 0 else mm.mem g x :=
    Mm.mem_writeEntry mm _ j 0 g x
  refine ⟨fun g x hx => ?_, funext fun x => ?_⟩
  · rw [hmem, if_neg fun he => by omega]
    exact h.low g x hx
  · rw [hmem, if_neg fun he => hinv.dirWord_ne hd hi he.1.symm, h.dir]

/-- **No call of `sys_munmap`** writes a word below the index of its first entry, or the caller's
page directory. -/
lemma Inv.spares (h : Inv s) (hd : d ∈ s.dirs) (addr len : ℕ) :
    Spares s d addr (s.mm.sysMunmap d addr len) := by
  have hpde := pdeIndex_lt addr
  have hpte := pteIndex_lt addr
  refine Loop.forEach_rule (n := 1024 - pdeIndex addr)
    (I := fun _ (st : Mm × ℕ) => Spares s d addr st.1) ?_ (s := (s.mm, 0)) ⟨fun _ _ _ => rfl, rfl⟩
  intro i st hi hi' hst
  have hword : st.1.readEntry d i = s.mm.mem (d / 4096) i := by
    rw [Mm.readEntry_eq (h.dir_lt hd), hst.dir]
  rw [Mm.sysMunmapTable, hword]
  have hloop : Loop.Ends (fun st : Mm × ℕ => Spares s d addr st.1)
      (fun st : Mm × ℕ => Spares s d addr st.1)
      (Loop.forRange (Mm.sysMunmapPage (Mm.pagesRequired len) (s.mm.mem (d / 4096) i))
        (pteIndex addr) (1024 - pteIndex addr) (st.1.unmapTmpPage, st.2)) :=
    Loop.forRange_rule (I := fun _ (st : Mm × ℕ) => Spares s d addr st.1)
      (fun j st' hj _ hst' => by
        rw [Mm.sysMunmapPage]
        split_ifs
        · exact hst'
        · exact hst'.clearEntry h hd (by omega) hj) ⟨hst.low, hst.dir⟩
  generalize Loop.forRange (Mm.sysMunmapPage (Mm.pagesRequired len) (s.mm.mem (d / 4096) i))
    (pteIndex addr) (1024 - pteIndex addr) (st.1.unmapTmpPage, st.2) = x at hloop
  cases x with
  | inl r => exact hloop
  | inr r => exact hloop

/-- **A range that is not followed is not unmapped**: the first page of its second table stays
mapped. -/
lemma Inv.not_unmapped (h : Inv s) (hd : d ∈ s.dirs) (haddr : addr < 2 ^ 32)
    (hm : s.MappedRange d (addr / 4096) N) (hpte : pteIndex addr ≠ 0)
    (hN : 1024 < pteIndex addr + N) :
    ¬ Unmapped d (addr / 4096) N s (s.withMm (s.mm.sysMunmap d addr len)) := by
  intro hun
  have hidx := indices_eq haddr
  have hlt := pteIndex_lt addr
  obtain ⟨hroom, hmapped⟩ := hm
  have hi : pdeIndex addr + 1 < 768 := by omega
  have hspares := h.spares hd addr len
  have hzero := hun.entries (pdeIndex addr + 1) (by omega) 0 (by omega)
  rw [if_pos (by omega)] at hzero
  have hsame : (s.withMm (s.mm.sysMunmap d addr len)).lookup d (pdeIndex addr + 1) 0 =
      s.lookup d (pdeIndex addr + 1) 0 := by
    unfold lookup
    rw [withMm_mm, hspares.dir, hspares.low _ 0 (by omega)]
  rw [hsame, lookup_eq_pageEntry hd hi (by omega)] at hzero
  refine hmapped (1024 - pteIndex addr) (by omega) (frameOf_eq_none.mpr ?_)
  rw [show (addr / 4096 + (1024 - pteIndex addr)) / 1024 = pdeIndex addr + 1 by omega,
    show (addr / 4096 + (1024 - pteIndex addr)) % 1024 = 0 by omega]
  exact hzero

/-- **When a mapped range is unmapped.** In every reachable state, for every task and every range of
mapped pages of its user half, `sys_munmap` unmaps the pages of the range and does nothing else if
and only if the range begins at the start of a page table or lies inside one.

**Proof sketch.** When the range begins at the start of a table or lies inside one, the entries
visited are those of its pages, in order. Otherwise the loop starts again at the index of the first
page in each table, and does not visit the first entry of the second. -/
theorem munmap_exact_iff (h : Transition.Reach Boot Step (fun _ _ => True) s) (hd : d ∈ s.dirs)
    (haddr : addr < 2 ^ 32) (hm : s.MappedRange d (addr / 4096) ((len + 4095) / 4096)) :
    Unmapped d (addr / 4096) ((len + 4095) / 4096) s (s.exec (.sysMunmap d addr len)) ↔
      pteIndex addr = 0 ∨ pteIndex addr + (len + 4095) / 4096 ≤ 1024 := by
  have hinv := inv_of_reach h
  constructor
  · intro hun
    by_contra hcond
    rw [not_or, not_le] at hcond
    exact hinv.not_unmapped hd haddr hm hcond.1 hcond.2 hun
  · intro hcond
    have hempty := sysMunmap_spec hinv hd (hm.clears haddr hcond)
    rw [pagesRequired_eq hm.len_le] at hempty
    exact hempty.unmapped hinv hd hm fun k hk => visited_eq_userPage haddr hcond hk

/-! ## A task with more than one table -/

/-- The first task after it has mapped 1022 pages: its pages from 1 to 1024 are mapped. -/
def wideState : Sys := taskState.exec (.sysMmap firstTask 4186112)

/-- The call that maps them finds its frames and pages. -/
lemma enough_wide : taskState.Enough firstTask (Mm.totalPages 4186112) ∧
    taskState.LowestHole firstTask 3 ∧ ∀ k < 1022, taskState.Hole firstTask (3 + k) := by
  have hlay := Session.layout₀
  have hcount := hlay.count
  have hpages : Mm.totalPages 4186112 = 1022 := by decide
  have hlow : taskState.LowestHole firstTask 3 :=
    hlay.lowestHole (by omega) (by simp) fun r h₁ h₂ => by simp; omega
  have hrun : ∀ k < 1022, taskState.Hole firstTask (3 + k) := by
    intro k _
    refine (hlay.holes (by omega)).mpr ?_
    simp only [Set.mem_insert_iff, Set.mem_singleton_iff]
    omega
  have hmissing : taskState.missing firstTask 1025 ≤ 1 := by
    rw [missing_succ]
    have hzero : taskState.missing firstTask 1024 = 0 := hlay.missing_eq (Nat.le_refl 1024)
    rw [hzero]
    split_ifs <;> omega
  refine ⟨⟨1025, by omega, ?_, ?_⟩, hlow, hrun⟩
  · rw [hpages, show 1025 = 3 + 1022 by omega]
    exact hlow.holes_add hrun
  · rw [hpages]
    have hcount' : 3578 ≤ taskState.mm.freeCount := hcount
    omega

/-- The pages are mapped. -/
lemma wideState_spec : Transition.Reach Boot Step (fun _ _ => True) wideState ∧
    firstTask ∈ wideState.dirs ∧ ∀ p, 1 ≤ p → p ≤ 1024 →
      wideState.own (userPage firstTask p) ≠ none := by
  obtain ⟨henough, hlow, hrun⟩ := enough_wide
  have hinv := created_taskState.inv
  have hpages : Mm.totalPages 4186112 = 1022 := by decide
  have hdone := hinv.sysMmap_of_enough firstTask_mem (by omega) henough
  rw [hpages] at hdone
  have hroom : Mm.totalPages 4186112 ≤ taskState.holes firstTask (768 * 1024) := by
    obtain ⟨p, hp, hcount, -⟩ := henough
    rw [← hcount]
    exact Nat.count_monotone _ hp
  have hnew (k : ℕ) (hk : k < 1022) : wideState.own (userPage firstTask (3 + k)) ≠ none := by
    obtain ⟨-, f, hf, -⟩ := hdone.pages hlow hrun hk
    rw [show wideState.own (userPage firstTask (3 + k)) = some f from hf]
    simp
  obtain ⟨p, -, -, hfilled, -⟩ := hdone
  have hstep : Step taskState (.sysMmap firstTask 4186112) wideState := by
    rw [wideState]
    exact ⟨⟨firstTask_mem, by omega, hroom⟩, rfl, hfilled.inv.quiet⟩
  have hmem : firstTask ∈ wideState.dirs := by
    rw [wideState, exec, hfilled.confined.dirs]
    exact firstTask_mem
  refine ⟨(reach_taskState trivial trivial).next trivial hstep, hmem, fun q h₁ h₂ => ?_⟩
  rcases Nat.lt_or_ge q 3 with hq | hq
  · have hmapped : ¬ taskState.Hole firstTask q := hlow.2.2 q h₁ hq
    exact (hfilled.same (.inr hmapped)).trans_ne hmapped
  · have := hnew (q - 3) (by omega)
    rwa [Nat.add_sub_cancel' hq] at this

/-- The two pages around the end of the first table are mapped. -/
lemma wideState_mappedRange :
    wideState.MappedRange firstTask (0x3FF000 / 4096) ((8192 + 4095) / 4096) := by
  refine ⟨by decide, fun k hk => wideState_spec.2.2 _ (by omega) ?_⟩
  have : (8192 + 4095) / 4096 = 2 := by decide
  omega

/-- **A mapped page that is skipped**: `sys_munmap(0x3FF000, 8192)` of two mapped pages, the last of
the first table and the first of the second, leaves the second page mapped. -/
theorem munmap_skips_page : ¬ ∀ s, Transition.Reach Boot Step (fun _ _ => True) s → ∀ d ∈ s.dirs,
    ∀ addr len, addr < 2 ^ 32 → addr % 4096 = 0 →
      s.MappedRange d (addr / 4096) ((len + 4095) / 4096) →
      Unmapped d (addr / 4096) ((len + 4095) / 4096) s (s.exec (.sysMunmap d addr len)) := by
  intro hall
  obtain ⟨hreach, hmem, -⟩ := wideState_spec
  have hun := hall wideState hreach firstTask hmem 0x3FF000 8192 (by decide) (by decide)
    wideState_mappedRange
  exact (inv_of_reach hreach).not_unmapped hmem (by decide) wideState_mappedRange (by decide)
    (by decide) hun

/-- The last page of the first table alone is unmapped. -/
theorem munmap_exact_iff_last :
    wideState.MappedRange firstTask (0x3FF000 / 4096) ((4096 + 4095) / 4096) ∧
    Unmapped firstTask (0x3FF000 / 4096) ((4096 + 4095) / 4096) wideState
      (wideState.exec (.sysMunmap firstTask 0x3FF000 4096)) := by
  obtain ⟨hreach, hmem, hpages⟩ := wideState_spec
  have hm : wideState.MappedRange firstTask (0x3FF000 / 4096) ((4096 + 4095) / 4096) := by
    refine ⟨by decide, fun k hk => hpages _ (by omega) ?_⟩
    have : (4096 + 4095) / 4096 = 1 := by decide
    omega
  exact ⟨hm, (munmap_exact_iff hreach hmem (by decide) hm).mpr (by decide)⟩

/-! ## Ranges that are not mapped -/

/-- Page `q` meets the range of `len` bytes from `addr` on. -/
def InRange (addr len q : ℕ) : Prop := addr < (q + 1) * 4096 ∧ q * 4096 < addr + len

/-- The call has cleared the bits of frames that the caller had mapped in the range only, and has
written the caller's page tables only. -/
structure Harmless (d addr len : ℕ) (s s' : Sys) : Prop where
  bits : ∀ f, s.mm.used f → ¬ s'.mm.used f →
    ∃ q, InRange addr len q ∧ s.own (userPage d q) = some f
  memory : ∀ f x, s'.mm.mem f x ≠ s.mm.mem f x → ∃ i, s.own (.table (.task d) i) = some f

/-- Every entry that the call reaches is that of a mapped page of the range. -/
def Covered (s : Sys) (d addr len : ℕ) : Prop :=
  ∀ k < Mm.pagesRequired len, visitedTable addr k < 768 ∧ s.own (visited d addr k) ≠ none ∧
    InRange addr len (visitedTable addr k * 1024 + visitedIndex addr k)

/-- The entry reached, by the number of its page. -/
lemma visited_eq (d addr k : ℕ) :
    visited d addr k = userPage d (visitedTable addr k * 1024 + visitedIndex addr k) := by
  have := visitedIndex_lt addr k
  rw [visited, userPage]
  congr 1 <;> omega

/-- A call whose entries are all mapped pages of the range is harmless. -/
lemma Emptied.harmless (hc : s.Covered d addr len)
    (he : Emptied s d addr (Mm.pagesRequired len) s') : Harmless d addr len s s' := by
  refine ⟨fun f hu hfree => ?_, fun f x hne => he.written fun hsame => hne (congrFun hsame x)⟩
  rw [he.used f] at hfree
  have hex : ∃ k < Mm.pagesRequired len, s.own (visited d addr k) = some f := by
    by_contra hno
    exact hfree ⟨hu, fun k hk hown => hno ⟨k, hk, hown⟩⟩
  obtain ⟨k, hk, hown⟩ := hex
  exact ⟨_, (hc k hk).2.2, visited_eq d addr k ▸ hown⟩

/-- A frame that the caller had not mapped in the range has been freed, or a word outside of the
caller's page tables has been cleared. -/
def Harmed (s : Sys) (d addr len : ℕ) (mm : Mm) : Prop :=
  (∃ f, s.mm.used f ∧ ¬ mm.used f ∧ ∀ q, InRange addr len q → s.own (userPage d q) ≠ some f) ∨
    ∃ f x, s.mm.mem f x ≠ 0 ∧ mm.mem f x = 0 ∧ ∀ i, s.own (.table (.task d) i) ≠ some f

/-- A harmed state is not a harmless one. -/
lemma Harmed.not_harmless {mm : Mm} (hb : s.Harmed d addr len mm) :
    ¬ Harmless d addr len s (s.withMm mm) := by
  intro hh
  rcases hb with ⟨f, hu, hfree, hout⟩ | ⟨f, x, hold, hnew, hout⟩
  · obtain ⟨q, hq, hown⟩ := hh.bits f hu hfree
    exact hout q hq hown
  · obtain ⟨i, hown⟩ := hh.memory f x fun he => hold (he.symm.trans hnew)
    exact hout i hown

/-- Clearing further entries mends nothing. -/
lemma Harmed.clearEntry {mm : Mm} (hb : s.Harmed d addr len mm) (t j : ℕ) :
    s.Harmed d addr len (mm.clearEntry t j) := by
  rcases hb with ⟨f, hu, hfree, hout⟩ | ⟨f, x, hold, hnew, hout⟩
  · exact .inl ⟨f, hu, fun h => hfree (Mm.used_of_clearEntry h), hout⟩
  · exact .inr ⟨f, x, hold, Mm.mem_clearEntry_zero hnew, hout⟩

/-- Freeing frame 0 is a harm. -/
lemma Inv.harmed_zero {mm : Mm} (h : Inv s) (hfree : ¬ mm.used 0) : s.Harmed d addr len mm :=
  .inl ⟨0, (h.reserved (.inl rfl)).1, hfree, fun _ _ => (h.reserved (.inl rfl)).2 _⟩

/-- Breaking the isolation is a harm. -/
lemma Broken.harmed {mm : Mm} (hb : Broken s mm) (h : Inv s) : s.Harmed d addr len mm := by
  rcases hb with hfree | ⟨i, j, hi, hi', -, hne, hold, hnew⟩
  · exact h.harmed_zero hfree
  · exact .inr ⟨_, j, hold, hnew, fun i' => (h.alien_kernelTable hi hi' hne).2 _ rfl⟩

/-- A missing table is taken for the one at frame 0: a word of that frame is lost, or it is zero and
frame 0 is freed. -/
lemma Sweep.harmed_missing {st : Mm × ℕ} (hs : Sweep s d addr N i j st) (h : Inv s) :
    s.Harmed d addr len (st.1.clearEntry 0 j) := by
  have hframe : entry 0 kernelFlags / 4096 = 0 := by decide
  have hread : st.1.readEntry 0 j = s.mm.mem 0 j := by
    rw [Mm.readEntry_eq (by omega)]
    exact congrFun (hs.emptied.confined.alien (h.alien_zero d)).2 j
  by_cases hz : s.mm.mem 0 j = 0
  · exact h.harmed_zero (Mm.not_used_clearEntry_zero (hread.trans hz))
  · refine .inr ⟨0, j, hz, ?_, fun i => (h.reserved (.inl rfl)).2 _⟩
    change (st.1.writeEntry 0 j 0).mem 0 j = 0
    rw [Mm.mem_writeEntry, if_pos ⟨hframe.symm, rfl⟩]

/-- A mapped page outside of the range loses its frame. -/
lemma Sweep.harmed_stray {st : Mm × ℕ} (hs : Sweep s d addr N i j st) (h : Inv s)
    (hti : visitedTable addr st.2 = i) (hji : visitedIndex addr st.2 = j)
    (hmapped : s.own (visited d addr st.2) ≠ none)
    (hout : ¬ InRange addr len (visitedTable addr st.2 * 1024 + visitedIndex addr st.2)) :
    s.Harmed d addr len (st.1.clearEntry (s.tableEntry (.task d) i) j) := by
  obtain ⟨f, hf⟩ := Option.ne_none_iff_exists'.mp hmapped
  have hnext := hs.emptied.clearEntry h hmapped
  rw [hti, hji] at hnext
  refine .inl ⟨f, h.sound.used_of_own hf, fun hu => ?_, fun q hq hown => hout ?_⟩
  · exact ((hnext.used f).mp hu).2 st.2 (by omega) hf
  · have hplace := h.sound.inj hown hf
    rw [visited_eq] at hplace
    by_contra hne
    have hpage : q ≠ visitedTable addr st.2 * 1024 + visitedIndex addr st.2 := by
      rintro rfl
      exact hne hq
    exact userPage_ne hpage hplace

/-- **The harm is done at the first entry that is not that of a mapped page of the range.** -/
lemma Inv.hazard_harmed (h : Inv s) (hd : d ∈ s.dirs) (addr len : ℕ) :
    Hazard s d addr (Mm.pagesRequired len) (fun k => visitedTable addr k < 768 ∧
      s.own (visited d addr k) ≠ none ∧
      InRange addr len (visitedTable addr k * 1024 + visitedIndex addr k))
      (s.Harmed d addr len) where
  mapped := fun _ hg => ⟨hg.1, hg.2.1⟩
  strays := by
    intro i j st hsweep hlt hti hji hi hg
    have hj : j < 1024 := hji ▸ visitedIndex_lt addr st.2
    by_cases hz : s.mm.mem (d / 4096) i = 0
    · rw [hz]
      exact hsweep.harmed_missing h
    · by_cases hgood : i < 768 ∧ s.own (.page (.task d) i j) ≠ none
      · have hentry : s.mm.mem (d / 4096) i = s.tableEntry (.task d) i :=
          (if_pos (show s.Covers (.task d) i from ⟨hd, hgood.1⟩)).symm
        have hmapped : s.own (visited d addr st.2) ≠ none := by
          rw [visited, hti, hji]
          exact hgood.2
        rw [hentry]
        exact hsweep.harmed_stray h hti hji hmapped
          fun hin => hg ⟨hti.symm ▸ hgood.1, hmapped, hin⟩
      · exact (hsweep.broken h hd hi hj hgood hz).harmed h
  tmp := fun hb => hb
  clear := fun t j hb => hb.clearEntry t j

/-- A call is harmless if and only if every entry that it reaches is that of a mapped page of the
range. -/
lemma Inv.harmless_iff (h : Inv s) (hd : d ∈ s.dirs) (addr len : ℕ) :
    Harmless d addr len s (s.exec (.sysMunmap d addr len)) ↔ s.Covered d addr len := by
  constructor
  · intro hh
    refine (sysMunmap_course h hd (h.hazard_harmed hd addr len)).resolve_right fun hb => ?_
    exact hb.not_harmless hh
  · intro hc
    have hclears : s.Clears d addr len := fun k hk => ⟨(hc k hk).1, (hc k hk).2.1⟩
    exact (sysMunmap_spec h hd hclears).harmless hc

/-- **When a call harms nobody.** In every reachable state, for every task and every range, whatever
is mapped there, `sys_munmap` clears the bits only of frames mapped in the range and writes only the
caller's page tables if and only if every entry that it reaches is that of a mapped page of the
range. -/
theorem munmap_harmless_iff (h : Transition.Reach Boot Step (fun _ _ => True) s) (hd : d ∈ s.dirs)
    (addr len : ℕ) :
    Harmless d addr len s (s.exec (.sysMunmap d addr len)) ↔ s.Covered d addr len :=
  (inv_of_reach h).harmless_iff hd addr len

/-- The first entry that a call for one page reaches, in the first table. -/
lemma visited_page (d : ℕ) (hp : p < 1024) : visitedTable (p * 4096) 0 = 0 ∧
    visitedIndex (p * 4096) 0 = p ∧ visited d (p * 4096) 0 = .page (.task d) 0 p := by
  have htable : visitedTable (p * 4096) 0 = 0 := by
    rw [visitedTable, pdeIndex_eq, Nat.zero_div]
    omega
  have hindex : visitedIndex (p * 4096) 0 = p := by
    rw [visitedIndex, pteIndex_eq, Nat.zero_mod]
    omega
  exact ⟨htable, hindex, by rw [visited, htable, hindex]⟩

/-- The first task unmaps its code page, and harms nobody. -/
theorem munmap_harmless_iff_code_page : taskState.Covered firstTask (1 * 4096) 4096 ∧
    Harmless firstTask (1 * 4096) 4096 taskState
      (taskState.exec (.sysMunmap firstTask (1 * 4096) 4096)) := by
  have hc : taskState.Covered firstTask (1 * 4096) 4096 := by
    intro k hk
    obtain rfl : k = 0 := by
      have : Mm.pagesRequired 4096 = 1 := by decide
      omega
    obtain ⟨htable, hindex, hplace⟩ := visited_page (p := 1) firstTask (by omega)
    rw [htable, hindex, hplace]
    exact ⟨by omega, created_taskState.pages.mpr ⟨rfl, .inl rfl⟩, by omega, by omega⟩
  exact ⟨hc, (munmap_harmless_iff (reach_taskState trivial trivial) firstTask_mem _ _).mpr hc⟩

/-- **A call that frees frame 0**: the first task calls `sys_munmap` on page 3, which is not mapped.
-/
theorem munmap_frees_frame_zero : ¬ ∀ s, Transition.Reach Boot Step (fun _ _ => True) s →
    ∀ d ∈ s.dirs, ∀ addr len, addr + len ≤ kernelBase →
      Harmless d addr len s (s.exec (.sysMunmap d addr len)) := by
  intro hall
  have hh :=
    hall taskState (reach_taskState trivial trivial) firstTask firstTask_mem (3 * 4096) 4096
    (by decide)
  have hc := (created_taskState.inv.harmless_iff firstTask_mem _ _).mp hh 0 (by decide)
  obtain ⟨-, -, hplace⟩ := visited_page (p := 3) firstTask (by omega)
  rw [hplace] at hc
  have := created_taskState.pages.mp hc.2.1
  omega

end Sys

end AlphaOS
