import AlphaOS.Mm.System

set_option relaxedAutoImplicit false
set_option autoImplicit false

/-!
# Isolation of the memory system calls

`sys_mmap` and `sys_munmap` take their arguments unchecked from the caller's registers. A call of
`sys_mmap` for which there are enough frames and user pages stays inside the caller's user half.
`sys_munmap` does if the entries it reaches are mapped ones of the user half; if it reaches another
entry of a table that is there, it clears an entry of the kernel's half, or it frees frame 0.

## Main definitions

* `AlphaOS.Sys.Isolated` — a call has left the kernel and the other tasks alone.

## Main results

* `AlphaOS.Sys.calls_isolated` — when the two calls are isolated.
* `AlphaOS.Sys.munmap_not_isolated` — a call that unmaps a page of the kernel heap.
-/

namespace AlphaOS

namespace Mm

variable {s : Mm} {t i j v g x : ℕ}

/-- Writing an entry changes one word. -/
lemma mem_writeEntry (s : Mm) (t i v g x : ℕ) : (s.writeEntry t i v).mem g x =
    if g = entry t kernelFlags / 4096 ∧ x = i then v else s.mem g x := by
  change Function.update s.mem (entry t kernelFlags / 4096)
    (Function.update (s.mem (entry t kernelFlags / 4096)) i v) g x = _
  by_cases hg : g = entry t kernelFlags / 4096
  · subst hg
    rw [Function.update_self, Function.update_apply]
    simp
  · rw [Function.update_of_ne hg, if_neg fun h => hg h.1]

/-- Clearing an entry makes no word nonzero. -/
lemma mem_clearEntry_zero (h : s.mem g x = 0) : (s.clearEntry t j).mem g x = 0 := by
  change (s.writeEntry t j 0).mem g x = 0
  rw [mem_writeEntry, h, ite_self]

/-- Clearing an entry records no frame as used. -/
lemma used_of_clearEntry (h : (s.clearEntry t j).used g) : s.used g := by
  rw [clearEntry, pmmFree_one, used_release] at h
  exact h.2

/-- Clearing a zero entry frees frame 0. -/
lemma not_used_clearEntry_zero (h : s.readEntry t j = 0) : ¬ (s.clearEntry t j).used 0 := by
  rw [clearEntry, pmmFree_one, h, used_release]
  exact fun hu => hu.1 rfl

end Mm

namespace Sys

variable {s₀ s s' : Sys} {d i j N c k addr len : ℕ}

/-- A call of the task with directory `d` has left the kernel and the other tasks alone. -/
structure Isolated (d : ℕ) (s s' : Sys) : Prop where
  /-- The kernel's halves of all directories. -/
  halves : ∀ d' ∈ s.dirs, ∀ i, 768 ≤ i → i < 1024 →
    s'.mm.mem (d' / 4096) i = s.mm.mem (d' / 4096) i
  /-- The page-table entries behind the kernel's half. -/
  entries : ∀ i j, 768 ≤ i → i < 1024 → j < 1024 → s.mm.kernelPageDirectory i ≠ 0 →
    s'.mm.kernelPageDirectory i = s.mm.kernelPageDirectory i ∧
      s'.mm.mem (s.mm.kernelPageDirectory i / 4096) j =
        s.mm.mem (s.mm.kernelPageDirectory i / 4096) j
  /-- The translations of the other tasks. -/
  others : ∀ d' ∈ s.dirs, d' ≠ d → ∀ i j,
    s'.tableEntry (.task d') i = s.tableEntry (.task d') i ∧
      s'.pageEntry (.task d') i j = s.pageEntry (.task d') i j
  /-- The bits of the frames that are not the caller's. -/
  bits : ∀ f, s.Alien d f → s'.mm.used f

/-- The page tables of the kernel's half are nobody's. -/
lemma Inv.alien_kernelTable (h : Inv s) (hi : 768 ≤ i) (hi' : i < 1024)
    (hne : s.mm.kernelPageDirectory i ≠ 0) :
    s.Alien d (s.mm.kernelPageDirectory i / 4096) := by
  by_cases hheap : 769 ≤ i ∧ i < 896
  · exact h.alien (p := .table .kernel i) (by simp [Place.OfTask]) (own_kernelTable hheap hne)
  · have hr : s.Reserved (s.mm.kernelPageDirectory i / 4096) :=
      .inr ⟨i, hi, hi', hheap, hne, rfl⟩
    exact ⟨(h.reserved hr).1, fun p _ => (h.reserved hr).2 p⟩

/-- **A confined change is isolated.** -/
lemma Confined.isolated (hc : Confined d s s') (h : Inv s) : Isolated d s s' where
  halves := by
    intro d' hd' i hi _
    by_cases hdd : d' = d
    · rw [hdd]
      exact hc.upper hi
    · have hne : ¬ (Place.dir d').OfTask d := hdd
      exact congrFun (hc.alien (h.alien hne (own_dir hd'))).2 i
  entries := fun i j hi hi' _ hne =>
    ⟨congrFun hc.kernel i, congrFun (hc.alien (h.alien_kernelTable hi hi' hne)).2 j⟩
  others := fun d' _ hne i j => by
    have hsp : Space.task d' ≠ .task d := fun he => hne (Space.task.inj he)
    exact ⟨hc.tableEntry_eq h hsp i, hc.pageEntry_eq h hsp i j⟩
  bits := fun f hf => (hc.alien hf).1.1

/-! ## Calls that break the isolation -/

/-- Frame 0 has been freed, or an entry of the kernel's half has been cleared. -/
def Broken (s₀ : Sys) (mm : Mm) : Prop :=
  ¬ mm.used 0 ∨ ∃ i j, 768 ≤ i ∧ i < 1024 ∧ j < 1024 ∧ s₀.mm.kernelPageDirectory i ≠ 0 ∧
    s₀.mm.mem (s₀.mm.kernelPageDirectory i / 4096) j ≠ 0 ∧
    mm.mem (s₀.mm.kernelPageDirectory i / 4096) j = 0

/-- Frame 0 is nobody's. -/
lemma Inv.alien_zero (h : Inv s) (d : ℕ) : s.Alien d 0 :=
  ⟨(h.reserved (.inl rfl)).1, fun p _ => (h.reserved (.inl rfl)).2 p⟩

/-- A broken state is not one in which the other address spaces are as before. -/
lemma Broken.not_isolated {mm : Mm} (hb : Broken s mm) (h : Inv s) :
    ¬ Isolated d s (s.withMm mm) := by
  intro hiso
  rcases hb with hfree | ⟨i, j, hi, hi', hj, hne, hold, hnew⟩
  · exact hfree (hiso.bits 0 (h.alien_zero d))
  · exact hold ((hiso.entries i j hi hi' hj hne).2.symm.trans hnew)

/-- Clearing further entries mends nothing. -/
lemma Broken.clearEntry {mm : Mm} (hb : Broken s₀ mm) (t j : ℕ) :
    Broken s₀ (mm.clearEntry t j) := by
  rcases hb with hfree | ⟨i, j', hi, hi', hj, hne, hold, hnew⟩
  · exact .inl fun hu => hfree (Mm.used_of_clearEntry hu)
  · exact .inr ⟨i, j', hi, hi', hj, hne, hold, Mm.mem_clearEntry_zero hnew⟩

/-- The call reaches a mapped entry of the user half at its `k`-th entry. -/
def Good (s : Sys) (d addr k : ℕ) : Prop :=
  visitedTable addr k < 768 ∧ s.own (visited d addr k) ≠ none

/-- The kernel's directory holds words. -/
lemma Inv.kernelTable_lt (h : Inv s) (hi : 768 ≤ i) (hi' : i < 1024)
    (hne : s.mm.kernelPageDirectory i ≠ 0) : s.mm.kernelPageDirectory i < 2 ^ 32 := by
  have hlt : s.mm.kernelPageDirectory i / 4096 < 2 ^ 20 := by
    by_cases hheap : 769 ≤ i ∧ i < 896
    · exact h.frame_lt (own_kernelTable hheap hne)
    · exact h.low (.inr ⟨i, hi, hi', hheap, hne, rfl⟩)
  omega

/-- **An entry that is not a mapped one of the user half is cleared**: an entry of the kernel's half
is lost, or the entry is zero and frame 0 is freed. -/
lemma Sweep.broken {st : Mm × ℕ} (h : Sweep s₀ d addr N i j st) (h₀ : Inv s₀) (hd : d ∈ s₀.dirs)
    (hi : i < 1024) (hj : j < 1024) (hbad : ¬ (i < 768 ∧ s₀.own (.page (.task d) i j) ≠ none))
    (hw : s₀.mm.mem (d / 4096) i ≠ 0) :
    Broken s₀ (st.1.clearEntry (s₀.mm.mem (d / 4096) i) j) := by
  by_cases hlow : i < 768
  · have hnone : s₀.own (.page (.task d) i j) = none := by
      by_contra hne
      exact hbad ⟨hlow, hne⟩
    have hnow : (s₀.withMm st.1).own (.page (.task d) i j) = none := by
      by_cases hk : ∃ k < st.2, Place.page (.task d) i j = visited d addr k
      · obtain ⟨k, hk, he⟩ := hk
        rw [he]
        exact h.emptied.cleared hk
      · rw [h.emptied.same fun k hk' he => hk ⟨k, hk', he⟩]
        exact hnone
    have hentry : s₀.mm.mem (d / 4096) i = (s₀.withMm st.1).tableEntry (.task d) i := by
      rw [h.emptied.tableEntry h₀, tableEntry, if_pos (show s₀.Covers (.task d) i from ⟨hd, hlow⟩)]
      rfl
    refine .inl (Mm.not_used_clearEntry_zero ?_)
    rw [hentry] at hw ⊢
    exact (h.emptied.inv.readEntry_table hw hj).trans (frameOf_eq_none.mp hnow)
  · have hkpd := (h₀.halves d hd i (by omega) hi).resolve_left hw
    rw [hkpd] at hw ⊢
    have hlt := h₀.kernelTable_lt (by omega) hi hw
    have hmem := (h.emptied.confined.alien (h₀.alien_kernelTable (by omega) hi hw)).2
    have hread : st.1.readEntry (s₀.mm.kernelPageDirectory i) j =
        s₀.mm.mem (s₀.mm.kernelPageDirectory i / 4096) j := by
      rw [Mm.readEntry_eq hlt]
      exact congrFun hmem j
    by_cases hz : s₀.mm.mem (s₀.mm.kernelPageDirectory i / 4096) j = 0
    · exact .inl (Mm.not_used_clearEntry_zero (hread.trans hz))
    · refine .inr ⟨i, j, by omega, hi, hj, hw, hz, ?_⟩
      change (st.1.writeEntry _ j 0).mem _ j = 0
      rw [Mm.mem_writeEntry, if_pos ⟨(Mm.entry_div hlt (by decide)).symm, rfl⟩]

/-- The tables the call reaches are there. -/
def Present (s : Sys) (d addr len : ℕ) : Prop := ∀ k < Mm.pagesRequired len,
  visitedTable addr k < 1024 → s.mm.mem (d / 4096) (visitedTable addr k) ≠ 0

/-- When the tables are there, the isolation breaks at the first entry that is not a mapped one of
the user half. -/
lemma Inv.hazard_broken (h : Inv s) (hd : d ∈ s.dirs) (hpresent : s.Present d addr len) :
    Hazard s d addr (Mm.pagesRequired len) (s.Good d addr) (Broken s) where
  mapped := fun _ hg => hg
  strays := by
    intro i j st hsweep hlt hti hji hi hg
    have hbad : ¬ (i < 768 ∧ s.own (.page (.task d) i j) ≠ none) := by
      rw [Good, visited, hti, hji] at hg
      exact hg
    have hj : j < 1024 := hji ▸ visitedIndex_lt addr st.2
    exact hsweep.broken h hd hi hj hbad (hti ▸ hpresent st.2 hlt (by omega))
  tmp := fun hb => hb
  clear := fun t j hb => hb.clearEntry t j

/-- **What `sys_munmap` does when the tables it reaches are there**: the entries were all mapped
ones of the user half, or the isolation is broken. -/
lemma sysMunmap_cases (h : Inv s) (hd : d ∈ s.dirs) (hpresent : s.Present d addr len) :
    s.Clears d addr len ∨ Broken s (s.mm.sysMunmap d addr len) :=
  sysMunmap_course h hd (h.hazard_broken hd hpresent)

/-- **When the memory calls are isolated.** In every reachable state and for every task, `sys_mmap`
is isolated when there are enough frames and user pages for it, and `sys_munmap` when it reaches
mapped entries of the user half only; and when the tables `sys_munmap` reaches are there, it is
isolated in no other case.

**Proof sketch.** `sys_mmap` fills holes of its own task with free frames. `sys_munmap` frees what
the entries it visits name: mapped entries of the user half name pages of the task. Any other entry
is zero, and frame 0 is freed, or it is one of the kernel's half and is lost. -/
theorem calls_isolated (h : Transition.Reach Boot Step (fun _ _ => True) s) (hd : d ∈ s.dirs) :
    (∀ len, 0 < len → s.Enough d (Mm.totalPages len) →
      Isolated d s (s.exec (.sysMmap d len))) ∧
    (∀ addr len, s.Clears d addr len → Isolated d s (s.exec (.sysMunmap d addr len))) ∧
    ∀ addr len, s.Present d addr len → Isolated d s (s.exec (.sysMunmap d addr len)) →
      s.Clears d addr len := by
  have hinv := inv_of_reach h
  refine ⟨fun len hlen henough => ?_, fun addr len hclears => ?_, fun addr len hpresent hiso => ?_⟩
  · obtain ⟨p, -, -, hfilled, -⟩ := hinv.sysMmap_of_enough hd hlen henough
    exact hfilled.confined.isolated hinv
  · exact (sysMunmap_spec hinv hd hclears).confined.isolated hinv
  · exact (sysMunmap_cases hinv hd hpresent).resolve_right fun hb => hb.not_isolated hinv hiso

/-- The first task can unmap its code page, and leaves everybody else alone. -/
theorem calls_isolated_code_page : taskState.Clears firstTask 0x1000 4096 ∧
    Isolated firstTask taskState (taskState.exec (.sysMunmap firstTask 0x1000 4096)) := by
  have hclears : taskState.Clears firstTask 0x1000 4096 := by
    intro k hk
    obtain rfl : k = 0 := by
      have : Mm.pagesRequired 4096 = 1 := by decide
      omega
    have htable : visitedTable 0x1000 0 = 0 := by decide
    have hplace : visited firstTask 0x1000 0 = .page (.task firstTask) 0 1 := by
      rw [visited, htable, show visitedIndex 0x1000 0 = 1 by decide]
    rw [htable, hplace]
    exact ⟨by omega, created_taskState.pages.mpr ⟨rfl, .inl rfl⟩⟩
  exact ⟨hclears,
    (calls_isolated (reach_taskState trivial trivial) firstTask_mem).2.1 _ _ hclears⟩

/-- **A call that is not isolated**: the first task calls `sys_munmap(0xC0400000, 4096)`, which
clears the entry of the first page of the kernel heap. -/
theorem munmap_not_isolated : Transition.Reach Boot Step (fun _ _ => True) taskState ∧
    firstTask ∈ taskState.dirs ∧
    ¬ Isolated firstTask taskState (taskState.exec (.sysMunmap firstTask 0xC0400000 4096)) := by
  have hinv := created_taskState.inv
  have hpages : Mm.pagesRequired 4096 = 1 := by decide
  have htable : visitedTable 0xC0400000 0 = 769 := by decide
  have hpresent : taskState.Present firstTask 0xC0400000 4096 := by
    intro k hk _
    obtain rfl : k = 0 := by omega
    rw [htable, created_taskState.upper (by omega) (by omega)]
    exact heapGrown_boot.1.tables (v := 0) (Nat.le_refl 0) (by omega)
  have hclears : ¬ taskState.Clears firstTask 0xC0400000 4096 := by
    intro hc
    have := (hc 0 (by omega)).1
    rw [htable] at this
    omega
  refine ⟨reach_taskState trivial trivial, firstTask_mem, ?_⟩
  exact ((sysMunmap_cases hinv firstTask_mem hpresent).resolve_left hclears).not_isolated hinv

end Sys

end AlphaOS
