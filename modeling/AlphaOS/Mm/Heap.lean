import AlphaOS.Mm.Operations

set_option relaxedAutoImplicit false
set_option autoImplicit false

/-!
# Mapping and unmapping pages of the kernel heap

The functions `mmap` and `unmmap` of `kernel/memory.c` keep the invariant, leave every task alone
and never replace an entry of the kernel's directory that is there. What `mmap` adds to that
directory are tables for the heap pages it maps.

## Main definitions

* `AlphaOS.Sys.HeapStep` — what a change of the kernel heap leaves alone.
* `AlphaOS.Sys.heapPage` — the place of a heap page.

## Main results

* `AlphaOS.Sys.Inv.mmap`, `AlphaOS.Sys.Inv.unmmap` — the two functions.
-/

namespace AlphaOS

/-! ## Addresses of heap pages -/

/-- The index of a directory entry, as a quotient. -/
lemma pdeIndex_eq (addr : ℕ) : pdeIndex addr = addr / 4194304 % 1024 := by
  rw [pdeIndex, Nat.shiftRight_eq_div_pow, show 0x3FF = 2 ^ 10 - 1 from rfl,
    Nat.and_two_pow_sub_one_eq_mod]

/-- The index of a table entry, as a quotient. -/
lemma pteIndex_eq (addr : ℕ) : pteIndex addr = addr / 4096 % 1024 := by
  rw [pteIndex, Nat.shiftRight_eq_div_pow, show 0x3FF = 2 ^ 10 - 1 from rfl,
    Nat.and_two_pow_sub_one_eq_mod]

/-- The address of a heap page does not wrap around. -/
lemma heapAddr_eq {v : ℕ} (hv : v < kheapPagesNum) : Mm.heapAddr v = 0xC0400000 + v * 4096 := by
  have hv' : v < 130048 := hv
  rw [Mm.heapAddr, kheapStart, Nat.mod_eq_of_lt (by omega)]

/-- The directory index of a heap page. -/
lemma pdeIndex_heapAddr {v : ℕ} (hv : v < kheapPagesNum) :
    pdeIndex (Mm.heapAddr v) = 769 + v / 1024 := by
  have hv' : v < 130048 := hv
  rw [heapAddr_eq hv, pdeIndex_eq]
  omega

/-- The table index of a heap page. -/
lemma pteIndex_heapAddr {v : ℕ} (hv : v < kheapPagesNum) :
    pteIndex (Mm.heapAddr v) = v % 1024 := by
  have hv' : v < 130048 := hv
  rw [heapAddr_eq hv, pteIndex_eq]
  omega

/-- The heap page of an address. -/
lemma heapIndex_heapAddr {v : ℕ} (hv : v < kheapPagesNum) :
    sub32 (Mm.heapAddr v) kheapStart / 4096 = v := by
  have hv' : v < 130048 := hv
  rw [heapAddr_eq hv, sub32, kheapStart]
  omega

namespace Sys

variable {s s' s'' : Sys} {d i j f g t v n : ℕ} {p : Place}

/-- The place of heap page `v`. -/
def heapPage (v : ℕ) : Place := .page .kernel (769 + v / 1024) (v % 1024)

/-- A change of the kernel heap: the tasks keep their directories and pages, and the kernel's
directory keeps the entries it has. -/
structure HeapStep (s s' : Sys) : Prop where
  dirs : s'.dirs = s.dirs
  tasks : ∀ {d}, d ∈ s.dirs → s'.mm.mem (d / 4096) = s.mm.mem (d / 4096)
  own : ∀ {d p}, Place.OfTask d p → s'.own p = s.own p
  kept : ∀ {i}, s.mm.kernelPageDirectory i ≠ 0 →
    s'.mm.kernelPageDirectory i = s.mm.kernelPageDirectory i
  outside : ∀ {i}, ¬ (769 ≤ i ∧ i < 896) →
    s'.mm.kernelPageDirectory i = s.mm.kernelPageDirectory i

/-- Nothing has been done. -/
lemma HeapStep.refl (s : Sys) : HeapStep s s :=
  ⟨rfl, fun _ => rfl, fun _ => rfl, fun _ => rfl, fun _ => rfl⟩

/-- One step after another. -/
lemma HeapStep.trans (h₁ : HeapStep s s') (h₂ : HeapStep s' s'') : HeapStep s s'' where
  dirs := h₂.dirs.trans h₁.dirs
  tasks := fun hd => (h₂.tasks (h₁.dirs ▸ hd)).trans (h₁.tasks hd)
  own := fun hp => (h₂.own hp).trans (h₁.own hp)
  kept := fun hi => (h₂.kept (by rwa [h₁.kept hi])).trans (h₁.kept hi)
  outside := fun hi => (h₂.outside hi).trans (h₁.outside hi)

/-! ## Mapping a page -/

/-- Taking a frame is a change of the heap. -/
lemma Inv.heapStep_take (h : Inv s) (hlt : f < s.mm.bitmapSize) (hfree : ¬ s.mm.used f)
    (page : ℕ → ℕ) : HeapStep s (s.withMm ((s.mm.take f).put f page)) := by
  obtain ⟨-, -, hown, -⟩ := h.take hlt hfree page
  refine ⟨rfl, fun {d} hd => ?_, fun _ => by rw [hown], fun _ => rfl, fun _ => rfl⟩
  have hne : d / 4096 ≠ f := fun he => hfree (h.sound.used_of_own (he ▸ own_dir hd))
  exact Function.update_of_ne hne _ _

/-- A table of the kernel's directory is where the directory says. -/
lemma own_kernelTable (hi : 769 ≤ i ∧ i < 896) (hne : s.mm.kernelPageDirectory i ≠ 0) :
    s.own (.table .kernel i) = some (s.mm.kernelPageDirectory i / 4096) := by
  have hentry : s.tableEntry .kernel i = s.mm.kernelPageDirectory i :=
    if_pos (show s.Covers .kernel i from hi)
  rw [own_table (by rwa [hentry]), hentry]

/-- What has to hold after the table of a heap page has been made sure of. -/
structure Ensured (i f : ℕ) (s s' : Sys) : Prop where
  inv : Inv s'
  step : HeapStep s s'
  table : s'.mm.kernelPageDirectory i ≠ 0
  avail : s'.Avail f
  pages : ∀ {j k}, s'.own (.page .kernel j k) = s.own (.page .kernel j k)
  only : ∀ {k}, k ≠ i → s'.mm.kernelPageDirectory k = s.mm.kernelPageDirectory k
  record : s'.mm.kheapPages = s.mm.kheapPages

/-- **The table of a heap page is made sure of.** -/
lemma Inv.ensureTable (h : Inv s) (hf : s.Avail f) (hi : 769 ≤ i ∧ i < 896)
    (hok : (s.mm.ensureTable i kernelFlags).overrun = false) :
    Ensured i f s (s.withMm (s.mm.ensureTable i kernelFlags)) := by
  unfold Mm.ensureTable at hok ⊢
  split_ifs at hok ⊢ with hz
  · rw [Mm.allocZeroed] at hok ⊢
    dsimp only at hok
    obtain ⟨t, heq, hlt, hfree⟩ := h.allocFilled hok
    obtain ⟨hinv, havail, hown, hothers⟩ := h.take hlt hfree fun _ => 0
    obtain ⟨hf₁, hft⟩ := hothers f hf
    have hstep := h.heapStep_take hlt hfree fun _ => 0
    have hzero : ∀ j < 1024, (s.withMm ((s.mm.take t).put t fun _ => 0)).mm.mem t j = 0 := by
      intro j _
      change Function.update s.mm.mem t _ t j = 0
      rw [Function.update_self]
    obtain ⟨hinv₂, hown₂⟩ := hinv.putKernelTable hi hz havail hzero
    rw [heq, entry_kernelFlags (hinv.avail_lt havail)]
    have hkpd (k : ℕ) (hk : k ≠ i) : Function.update s.mm.kernelPageDirectory i
        (entryOf .kernel t) k = s.mm.kernelPageDirectory k := Function.update_of_ne hk _ _
    refine ⟨hinv₂, ⟨rfl, hstep.tasks, ?_, ?_, ?_⟩, ?_, ⟨⟨hf₁.loose.1, ?_⟩, hf.lt, ?_⟩, ?_,
      fun {k} => hkpd k, rfl⟩
    · intro d p hp
      refine (congrFun hown₂ p).trans ?_
      rw [hown, Function.update_of_ne]
      rintro rfl
      exact absurd hp (by simp [Place.OfTask])
    · intro k hk
      exact hkpd k fun he => hk (he ▸ hz)
    · intro k hk
      exact hkpd k fun he => hk (he ▸ hi)
    · change Function.update s.mm.kernelPageDirectory i _ i ≠ 0
      rw [Function.update_self]
      exact entryOf_ne_zero _ _
    · intro p hp
      replace hp := (congrFun hown₂ p).symm.trans hp
      rw [Function.update_apply] at hp
      split_ifs at hp
      · exact hft (Option.some.inj hp).symm
      · exact hf₁.loose.2 p hp
    · exact fun hr => hf.fresh ((reserved_congr fun k hk => hkpd k fun he => hk (he ▸ hi)).mp hr)
    · intro j k
      refine (congrFun hown₂ _).trans ?_
      rw [hown, Function.update_of_ne (by simp)]
  · exact ⟨h, .refl s, hz, hf, rfl, fun _ => rfl, rfl⟩

/-- What an iteration of `mmap` for heap page `v` has done. -/
structure HeapMapped (v : ℕ) (s s' : Sys) : Prop where
  inv : Inv s'
  step : HeapStep s s'
  table : s'.mm.kernelPageDirectory (769 + v / 1024) ≠ 0
  page : s'.own (heapPage v) ≠ none
  pages : ∀ {u}, u ≠ v → s'.own (heapPage u) = s.own (heapPage u)
  only : ∀ {k}, k ≠ 769 + v / 1024 →
    s'.mm.kernelPageDirectory k = s.mm.kernelPageDirectory k
  record : ∀ {u}, u ≠ v → s'.mm.kheapPages u = s.mm.kheapPages u

/-- Different heap pages have different places. -/
lemma heapPage_ne {u : ℕ} (h : u ≠ v) : heapPage u ≠ heapPage v := by
  intro he
  obtain ⟨h₁, h₂⟩ : u / 1024 = v / 1024 ∧ u % 1024 = v % 1024 := by simpa [heapPage] using he
  omega

/-- The end of an iteration of `mmap`, on a state in which the table is there. -/
lemma Ensured.mapHeapPage (h : Ensured (769 + v / 1024) f s s') (hv : v < kheapPagesNum) :
    HeapMapped v s (s'.withMm (s'.mm.mapHeapPage v (f * 4096) kernelFlags)) := by
  have hv' : v < 130048 := hv
  have hi : 769 ≤ 769 + v / 1024 ∧ 769 + v / 1024 < 896 := by omega
  have ht := own_kernelTable hi h.table
  have hlt : s'.mm.kernelPageDirectory (769 + v / 1024) < 2 ^ 32 := by
    have := h.inv.frame_lt ht
    omega
  have hmm : s'.mm.mapHeapPage v (f * 4096) kernelFlags =
      (s'.mm.put (s'.mm.kernelPageDirectory (769 + v / 1024) / 4096) (Function.update
        (s'.mm.mem (s'.mm.kernelPageDirectory (769 + v / 1024) / 4096)) (v % 1024)
        (entryOf .kernel f))).record ((769 + v / 1024 - 769) * 1024 + v % 1024) 1 := by
    rw [Mm.mapHeapPage, pdeIndex_heapAddr hv, pteIndex_heapAddr hv,
      entry_kernelFlags (h.inv.avail_lt h.avail), Mm.writeEntry_eq hlt,
        show (769 + v / 1024 - 769) * 1024 + v % 1024 = v by omega]
    rfl
  obtain ⟨hinv, hown⟩ := h.inv.putHeapPage ht (Nat.mod_lt v (by omega)) h.avail hmm
  rw [hmm] at hinv hown ⊢
  refine ⟨hinv, h.step.trans ⟨rfl, ?_, ?_, fun _ => rfl, fun _ => rfl⟩, h.table, ?_, ?_, h.only, ?_⟩
  · intro d hd
    exact h.inv.halves_put_entry ht hd _
  · intro d p hp
    rw [hown, Function.update_of_ne]
    rintro rfl
    exact absurd hp (by simp [Place.OfTask])
  · rw [hown, ← heapPage, Function.update_self]
    simp
  · intro u hu
    rw [hown, ← heapPage, Function.update_of_ne (heapPage_ne hu)]
    exact h.pages
  · intro u hu
    rw [← h.record]
    exact Function.update_of_ne (by omega) _ _

/-- Mapping a heap page overruns no array. -/
lemma overrun_mapHeapPage (mm : Mm) (v phys flags : ℕ) :
    (mm.mapHeapPage v phys flags).overrun = mm.overrun := rfl

/-- A failed search is not forgotten when a table is made sure of. -/
lemma overrun_ensureTable_of {mm : Mm} (h : mm.overrun = true) (i flags : ℕ) :
    (mm.ensureTable i flags).overrun = true := by
  rw [Mm.ensureTable]
  split_ifs
  · dsimp only
    rw [Mm.allocZeroed]
    exact overrun_allocFilled_of h
  · exact h

/-- **An iteration of `mmap`** maps the heap page. -/
lemma Inv.mmapPage (h : Inv s) (hv : v < kheapPagesNum)
    (hok : (Mm.mmapPage kernelFlags v s.mm).overrun = false) :
    HeapMapped v s (s.withMm (Mm.mmapPage kernelFlags v s.mm)) := by
  have hv' : v < 130048 := hv
  have hi : 769 ≤ 769 + v / 1024 ∧ 769 + v / 1024 < 896 := by omega
  have hok₂ : (s.mm.allocZeroed.2.ensureTable (769 + v / 1024) kernelFlags).overrun = false := by
    rw [Mm.mmapPage, overrun_mapHeapPage, pdeIndex_heapAddr hv] at hok
    exact hok
  have hok₁ : (s.mm.allocFilled fun _ => 0).2.overrun = false := by
    by_contra hne
    have := overrun_ensureTable_of (by simpa using hne) (769 + v / 1024) kernelFlags
    rw [Mm.allocZeroed, this] at hok₂
    exact absurd hok₂ (by simp)
  obtain ⟨f, heq, hlt, hfree⟩ := h.allocFilled hok₁
  obtain ⟨hinv, havail, hown, -⟩ := h.take hlt hfree fun _ => 0
  have hstep := h.heapStep_take hlt hfree fun _ => 0
  rw [Mm.mmapPage, pdeIndex_heapAddr hv]
  rw [Mm.allocZeroed, heq] at hok₂ ⊢
  have hens := hinv.ensureTable havail hi hok₂
  have hmapped := hens.mapHeapPage hv
  refine ⟨hmapped.inv, hstep.trans hmapped.step, hmapped.table, hmapped.page, ?_, hmapped.only,
    hmapped.record⟩
  intro u hu
  rw [← hown]
  exact hmapped.pages hu

/-! ## `mmap` -/

/-- A search for a free run of heap pages that succeeds. -/
lemma freeVirtAreaIdx_spec {mm : Mm} (hn : 0 < n) (hlast : mm.virtLast n ≠ kheapPagesNum) :
    mm.freeVirtAreaIdx n + n ≤ kheapPagesNum ∧
      ∀ v, mm.freeVirtAreaIdx n ≤ v → v < mm.freeVirtAreaIdx n + n → mm.kheapPages v = 0 := by
  have hle : mm.virtLast n ≤ 130048 :=
    Nat.zero_add 130048 ▸ Bits.search_le (fun i => mm.kheapPages i != 0) n kheapPagesNum 0 0
  have hne : mm.virtLast n ≠ 130048 := hlast
  have hnum : kheapPagesNum = 130048 := by decide
  have hfound := Bits.search_found (u := fun i => mm.kheapPages i != 0) (n := n)
    (k := kheapPagesNum) (i := 0) (.inl (by rw [hnum]; omega)) (Nat.le_refl 0)
    (fun v _ h => absurd h (Nat.not_lt_zero v)) (by rw [← Mm.virtLast, hnum]; omega)
  rw [← Mm.virtLast] at hfound
  have hidx : mm.freeVirtAreaIdx n = mm.virtLast n + 1 - n := by
    rw [Mm.freeVirtAreaIdx, sub32, sub32]
    omega
  refine ⟨by omega, fun v h₁ h₂ => ?_⟩
  have := hfound.2 v (by omega) (by omega)
  simpa using this

/-- What `mmap` has done when the heap pages from `lo` to before `k` have been mapped. -/
structure HeapGrown (lo k : ℕ) (s s' : Sys) : Prop where
  inv : Inv s'
  step : HeapStep s s'
  tables : ∀ {v}, lo ≤ v → v < k → s'.mm.kernelPageDirectory (769 + v / 1024) ≠ 0
  mapped : ∀ {v}, lo ≤ v → v < k → s'.own (heapPage v) ≠ none
  pages : ∀ {v}, v < lo ∨ k ≤ v → s'.own (heapPage v) = s.own (heapPage v)
  only : ∀ {i}, s'.mm.kernelPageDirectory i ≠ s.mm.kernelPageDirectory i →
    ∃ v, lo ≤ v ∧ v < k ∧ i = 769 + v / 1024
  record : ∀ {v}, v < lo ∨ k ≤ v → s'.mm.kheapPages v = s.mm.kheapPages v

/-- Nothing has been mapped at the start. -/
lemma HeapGrown.start (h : Inv s) (lo : ℕ) : HeapGrown lo lo s s :=
  ⟨h, .refl s, fun h₁ h₂ => by omega, fun h₁ h₂ => by omega, fun _ => rfl,
    fun h => absurd rfl h, fun _ => rfl⟩

/-- **One more heap page is mapped.** -/
lemma HeapGrown.next {lo : ℕ} (h : HeapGrown lo v s s') (hlo : lo ≤ v)
    (hmap : HeapMapped v s' s'') : HeapGrown lo (v + 1) s s'' := by
  refine ⟨hmap.inv, h.step.trans hmap.step, ?_, ?_, ?_, ?_, ?_⟩
  · intro u h₁ h₂
    by_cases hu : u = v
    · exact hu ▸ hmap.table
    · have ht := h.tables h₁ (by omega)
      rwa [hmap.step.kept ht]
  · intro u h₁ h₂
    by_cases hu : u = v
    · exact hu ▸ hmap.page
    · rw [hmap.pages hu]
      exact h.mapped h₁ (by omega)
  · intro u hu
    rw [hmap.pages (by omega)]
    exact h.pages (by omega)
  · intro i hi
    by_cases hiv : i = 769 + v / 1024
    · exact ⟨v, hlo, by omega, hiv⟩
    · rw [hmap.only hiv] at hi
      obtain ⟨u, h₁, h₂, h₃⟩ := h.only hi
      exact ⟨u, h₁, by omega, h₃⟩
  · intro u hu
    rw [hmap.record (by omega)]
    exact h.record (by omega)

/-- A failed search is not forgotten by an iteration of `mmap`. -/
lemma overrun_mmapPage_of {mm : Mm} (h : mm.overrun = true) :
    (Mm.mmapPage kernelFlags v mm).overrun = true := by
  rw [Mm.mmapPage, overrun_mapHeapPage]
  exact overrun_ensureTable_of (overrun_allocFilled_of h) _ _

/-- **`mmap`** of a positive number of pages maps a free run of heap pages. -/
lemma Inv.mmap (h : Inv s) (hn : 0 < n) (hok : (s.mm.mmap n kernelFlags).2.overrun = false) :
    HeapGrown (s.mm.freeVirtAreaIdx n) (s.mm.freeVirtAreaIdx n + n) s
        (s.withMm (s.mm.mmap n kernelFlags).2) ∧
      s.mm.freeVirtAreaIdx n + n ≤ kheapPagesNum ∧
      ∀ v, s.mm.freeVirtAreaIdx n ≤ v → v < s.mm.freeVirtAreaIdx n + n → s.mm.kheapPages v = 0 := by
  -- the loop goes on after a failed search, so the invariant holds only as long as none has failed
  have hloop : (s.mm.mmap n kernelFlags).2.overrun = true ∨ (s.mm.virtLast n ≠ kheapPagesNum ∧
      HeapGrown (s.mm.freeVirtAreaIdx n) (s.mm.freeVirtAreaIdx n + n) s
        (s.withMm (s.mm.mmap n kernelFlags).2)) := by
    rw [Mm.mmap]
    refine Loop.forEach_rule (I := fun v mm => mm.overrun = true ∨
      (s.mm.virtLast n ≠ kheapPagesNum ∧
        HeapGrown (s.mm.freeVirtAreaIdx n) v s (s.withMm mm))) ?_ ?_
    · rintro v mm hlo hhi (hover | ⟨hlast, hgrown⟩)
      · exact .inl (overrun_mmapPage_of hover)
      · have hbound : s.mm.freeVirtAreaIdx n + n ≤ 130048 := (freeVirtAreaIdx_spec hn hlast).1
        rw [Nat.mod_eq_of_lt (show v < 2 ^ 32 by omega)]
        by_cases hok : (Mm.mmapPage kernelFlags v mm).overrun = false
        · have hmap := hgrown.inv.mmapPage (s := s.withMm mm) (show v < 130048 by omega) hok
          exact .inr ⟨hlast, hgrown.next hlo hmap⟩
        · exact .inl (by simpa using hok)
    · by_cases hlast : s.mm.virtLast n = kheapPagesNum
      · exact .inl (by simp [hlast])
      · have hsame : ({ s.mm with
            overrun := s.mm.overrun || decide (s.mm.virtLast n = kheapPagesNum) } : Mm) = s.mm := by
          simp [hlast]
        rw [hsame]
        exact .inr ⟨hlast, .start h _⟩
  rw [hok] at hloop
  obtain ⟨hlast, hgrown⟩ := hloop.resolve_left (by simp)
  exact ⟨hgrown, freeVirtAreaIdx_spec hn hlast⟩

/-- An iteration of `mmap`, counted: two free frames are enough for a page and its table. -/
lemma mmapPage_quiet {mm : Mm} (hsize : mm.bitmapSize ≤ 2 ^ 20) (hquiet : mm.overrun = false)
    (hc : 2 ≤ mm.freeCount) :
    (Mm.mmapPage kernelFlags v mm).overrun = false ∧
      (Mm.mmapPage kernelFlags v mm).bitmapSize ≤ 2 ^ 20 ∧
      mm.freeCount ≤ (Mm.mmapPage kernelFlags v mm).freeCount + 2 := by
  obtain ⟨q₁, z₁, c₁⟩ := Mm.allocFilled_quiet hsize hquiet (by omega) fun _ => 0
  have hens :
      (mm.allocZeroed.2.ensureTable (pdeIndex (Mm.heapAddr v)) kernelFlags).overrun = false ∧
      (mm.allocZeroed.2.ensureTable (pdeIndex (Mm.heapAddr v)) kernelFlags).bitmapSize ≤ 2 ^ 20 ∧
      mm.freeCount ≤
        (mm.allocZeroed.2.ensureTable (pdeIndex (Mm.heapAddr v)) kernelFlags).freeCount + 2 := by
    rw [Mm.allocZeroed]
    generalize (mm.allocFilled fun _ => 0).2 = m at *
    rw [Mm.ensureTable]
    split_ifs
    · obtain ⟨q₂, z₂, c₂⟩ := Mm.allocFilled_quiet z₁ q₁ (by omega) fun _ => 0
      rw [Mm.allocZeroed]
      generalize (m.allocFilled fun _ => 0) = r at *
      refine ⟨q₂, z₂, ?_⟩
      change mm.freeCount ≤ r.2.freeCount + 2
      omega
    · exact ⟨q₁, z₁, by omega⟩
  exact hens

/-- **`mmap`, counted**: a free run of heap pages, and two free frames for each page, are enough. -/
lemma Inv.mmap_quiet (h : Inv s) (hn : 0 < n) (hc : 2 * n ≤ s.mm.freeCount)
    (hv : v + n ≤ kheapPagesNum)
    (hrun : ∀ w, v ≤ w → w < v + n → s.mm.kheapPages w = 0) :
    (s.mm.mmap n kernelFlags).2.overrun = false ∧
      s.mm.freeCount ≤ (s.mm.mmap n kernelFlags).2.freeCount + 2 * n := by
  have hnum : kheapPagesNum = 130048 := by decide
  have hlast : s.mm.virtLast n ≠ kheapPagesNum := by
    have := Bits.search_lt (u := fun i => s.mm.kheapPages i != 0) (n := n) (v := v) (by omega)
      (fun w h₁ h₂ => by simp [hrun w h₁ h₂]) (k := kheapPagesNum) (i := 0) hn (Nat.zero_le _)
      (by omega) (by omega)
    rw [← Mm.virtLast] at this
    omega
  have hloop : (s.mm.mmap n kernelFlags).2.overrun = false ∧
      (s.mm.mmap n kernelFlags).2.bitmapSize ≤ 2 ^ 20 ∧ s.mm.freeCount ≤
        (s.mm.mmap n kernelFlags).2.freeCount +
          2 * (s.mm.freeVirtAreaIdx n + n - s.mm.freeVirtAreaIdx n) := by
    rw [Mm.mmap]
    refine Loop.forEach_rule (I := fun k (mm : Mm) => mm.overrun = false ∧
      mm.bitmapSize ≤ 2 ^ 20 ∧
      s.mm.freeCount ≤ mm.freeCount + 2 * (k - s.mm.freeVirtAreaIdx n)) ?_ ?_
    · rintro k mm h₁ h₂ ⟨hq, hz, hcount⟩
      obtain ⟨q, z, c⟩ := mmapPage_quiet (v := k % 2 ^ 32) hz hq (by omega)
      exact ⟨q, z, by omega⟩
    · refine ⟨by simp [h.quiet, hlast], h.size, ?_⟩
      exact Nat.le_add_right _ _
  exact ⟨hloop.1, by omega⟩

/-! ## `unmmap` -/

/-- The address of a later page of a range. -/
lemma heapAddr_add {k : ℕ} (hv : v + k < kheapPagesNum) :
    (Mm.heapAddr v + k * 4096) % 2 ^ 32 = Mm.heapAddr (v + k) := by
  have hv' : v + k < 130048 := hv
  rw [heapAddr_eq hv, heapAddr_eq (by omega)]
  omega

/-- What `unmmap` has done when the heap pages from `lo` to before `k` have been unmapped. -/
structure HeapShrunk (lo k : ℕ) (s s' : Sys) : Prop where
  inv : Inv s'
  step : HeapStep s s'
  kernel : s'.mm.kernelPageDirectory = s.mm.kernelPageDirectory
  pages : ∀ {v}, v < lo ∨ k ≤ v → s'.own (heapPage v) = s.own (heapPage v)

/-- **An iteration of `unmmap`** unmaps a mapped heap page. -/
lemma HeapShrunk.next {lo : ℕ} (h : HeapShrunk lo v s s') (hlo : lo ≤ v) (hv : v < kheapPagesNum)
    (hmapped : s.own (heapPage v) ≠ none) :
    HeapShrunk lo (v + 1) s (s'.withMm (Mm.unmmapPage (Mm.heapAddr v) s'.mm)) := by
  have hv' : v < 130048 := hv
  have hi : 769 ≤ 769 + v / 1024 ∧ 769 + v / 1024 < 896 := by omega
  rw [← h.pages (.inr (Nat.le_refl v))] at hmapped
  obtain ⟨f, hf⟩ := Option.ne_none_iff_exists'.mp hmapped
  obtain ⟨hne, hdiv⟩ := frameOf_eq_some.mp hf
  obtain ⟨htable, hj⟩ := tableEntry_of_pageEntry hne
  have hentry : s'.tableEntry .kernel (769 + v / 1024) =
      s'.mm.kernelPageDirectory (769 + v / 1024) := if_pos (show s'.Covers .kernel _ from hi)
  have ht := own_table htable
  have hword : s'.pageEntry .kernel (769 + v / 1024) (v % 1024) < 2 ^ 32 := by
    have := h.inv.frame_lt hf
    omega
  have hmask : (s'.pageEntry .kernel (769 + v / 1024) (v % 1024) &&& pageMask) / 4096 = f := by
    rw [pageMask, Bits.and_mask hword, hdiv, Nat.mul_div_cancel f (by omega)]
  have hmm : Mm.unmmapPage (Mm.heapAddr v) s'.mm =
      ((s'.mm.put (s'.tableEntry .kernel (769 + v / 1024) / 4096) (Function.update
        (s'.mm.mem (s'.tableEntry .kernel (769 + v / 1024) / 4096)) (v % 1024) 0)).release
        f).record ((769 + v / 1024 - 769) * 1024 + v % 1024) 0 := by
    rw [Mm.unmmapPage, pdeIndex_heapAddr hv, pteIndex_heapAddr hv, heapIndex_heapAddr hv, ← hentry,
      h.inv.readEntry_table htable hj, Mm.pmmFree_one, hmask,
      Mm.writeEntry_eq (h.inv.tableEntry_lt _ _),
      show (769 + v / 1024 - 769) * 1024 + v % 1024 = v by omega]
    rfl
  obtain ⟨hinv, hown⟩ := h.inv.clearHeapPage ht hj hf hmm
  rw [hmm] at hinv hown ⊢
  refine ⟨hinv, h.step.trans ⟨rfl, ?_, ?_, fun _ => rfl, fun _ => rfl⟩, h.kernel, ?_⟩
  · intro d hd
    exact h.inv.halves_put_entry ht hd _
  · intro d p hp
    rw [hown, Function.update_of_ne]
    rintro rfl
    exact absurd hp (by simp [Place.OfTask])
  · intro u hu
    rw [hown, ← heapPage, Function.update_of_ne (heapPage_ne (by omega))]
    exact h.pages (by omega)

/-- **`unmmap`** of a mapped range of heap pages. -/
lemma Inv.unmmap (h : Inv s) (hv : v + n ≤ kheapPagesNum)
    (hmapped : ∀ k < n, s.own (heapPage (v + k)) ≠ none) :
    HeapShrunk v (v + n) s (s.withMm (s.mm.unmmap (Mm.heapAddr v) n)) := by
  have hloop : HeapShrunk v (v + (0 + n)) s (s.withMm (s.mm.unmmap (Mm.heapAddr v) n)) := by
    refine Loop.forEach_rule (I := fun k mm => HeapShrunk v (v + k) s (s.withMm mm)) ?_
      ⟨h, .refl s, rfl, fun _ => rfl⟩
    intro k mm _ hk hshrunk
    rw [heapAddr_add (by omega)]
    exact hshrunk.next (by omega) (by omega) (hmapped k (by omega))
  rw [Nat.zero_add] at hloop
  exact hloop

end Sys

end AlphaOS
