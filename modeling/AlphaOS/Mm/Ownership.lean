import AlphaOS.Mm.Spaces

set_option relaxedAutoImplicit false
set_option autoImplicit false

/-!
# The invariant of the memory manager

Every frame at a place is recorded as used and is at no other place, entries carry the flags of
their space, and the record of heap pages covers the mapped ones. This file states the invariant
and proves that the elementary changes keep it: taking a frame, putting a taken frame in a table or
a directory, clearing an entry and giving its frame back.

## Main definitions

* `AlphaOS.Sys.Inv` — the invariant.
* `AlphaOS.Sys.Avail` — a frame that has been taken and is not at any place yet.

## Main results

* `AlphaOS.Sys.Inv.take`, `Inv.putPage`, `Inv.putTable`, `Inv.putKernelTable`, `Inv.clearPage`,
  `Inv.clearTable` — the elementary changes.
-/

namespace AlphaOS

namespace Sys

variable {s s' : Sys} {sp : Space} {d i j e f g t : ℕ} {p : Place}

/-- The frames set aside at boot that the model follows: frame 0, and the page tables of the
kernel's half outside of the heap, which are the boot page table and the tables of the
framebuffer. -/
def Reserved (s : Sys) (f : ℕ) : Prop :=
  f = 0 ∨ ∃ i, 768 ≤ i ∧ i < 1024 ∧ ¬ (769 ≤ i ∧ i < 896) ∧ s.mm.kernelPageDirectory i ≠ 0 ∧
    s.mm.kernelPageDirectory i / 4096 = f

/-- Writing entries of the heap's range reserves nothing. -/
lemma reserved_congr (h : ∀ i, ¬ (769 ≤ i ∧ i < 896) →
    s'.mm.kernelPageDirectory i = s.mm.kernelPageDirectory i) : s'.Reserved f ↔ s.Reserved f := by
  refine or_congr Iff.rfl (exists_congr fun i => ?_)
  refine and_congr_right fun _ => and_congr_right fun _ => and_congr_right fun hi => ?_
  rw [h i hi]

/-- The invariant between two operations. -/
structure Inv (s : Sys) : Prop where
  size : s.mm.bitmapSize ≤ 2 ^ 20
  quiet : s.mm.overrun = false
  sound : Ledger.Sound s.own s.mm.used
  bound : ∀ {p f}, s.own p = some f → f < s.mm.bitmapSize
  tables : ∀ {sp i}, s.tableEntry sp i ≠ 0 → s.tableEntry sp i % 4096 = sp.flags
  pages : ∀ {sp i j}, s.pageEntry sp i j ≠ 0 → s.pageEntry sp i j % 4096 = sp.flags
  nodup : s.dirs.Nodup
  aligned : ∀ d ∈ s.dirs, d % 4096 = 0
  reserved : ∀ {f}, s.Reserved f → Ledger.Loose s.own s.mm.used f
  low : ∀ {f}, s.Reserved f → f < 2 ^ 20
  heap : ∀ {i j}, s.pageEntry .kernel i j ≠ 0 → s.mm.kheapPages ((i - 769) * 1024 + j) ≠ 0
  null : ∀ d, s.own (.page (.task d) 0 0) = none
  halves : ∀ d ∈ s.dirs, ∀ i, 768 ≤ i → i < 1024 → s.mm.mem (d / 4096) i = 0 ∨
    s.mm.mem (d / 4096) i = s.mm.kernelPageDirectory i

/-- A frame that has been taken and put nowhere. -/
structure Avail (s : Sys) (f : ℕ) : Prop where
  loose : Ledger.Loose s.own s.mm.used f
  lt : f < s.mm.bitmapSize
  fresh : ¬ s.Reserved f

/-- The entry a frame gets in a space. -/
def entryOf (sp : Space) (f : ℕ) : ℕ := f * 4096 + sp.flags

/-- The flags of an entry are not zero, and below the address bits. -/
lemma flags_pos (sp : Space) : 0 < sp.flags ∧ sp.flags < 4096 := by
  cases sp with
  | kernel => decide
  | task d => exact (by decide : 0 < userFlags ∧ userFlags < 4096)

/-- An entry is not zero. -/
lemma entryOf_ne_zero (sp : Space) (f : ℕ) : entryOf sp f ≠ 0 := by
  have := flags_pos sp
  unfold entryOf
  omega

/-- The frame of an entry. -/
lemma entryOf_div (sp : Space) (f : ℕ) : entryOf sp f / 4096 = f := by
  have := flags_pos sp
  unfold entryOf
  omega

/-- The flags of an entry. -/
lemma entryOf_mod (sp : Space) (f : ℕ) : entryOf sp f % 4096 = sp.flags := by
  have := flags_pos sp
  unfold entryOf
  omega

/-- The frame an entry points to. -/
lemma frameOf_entryOf (sp : Space) (f : ℕ) : frameOf (entryOf sp f) = some f :=
  frameOf_eq_some.mpr ⟨entryOf_ne_zero sp f, entryOf_div sp f⟩

/-- Frames at places are frames of a 32-bit address space. -/
lemma Inv.frame_lt (h : Inv s) (hp : s.own p = some f) : f < 2 ^ 20 :=
  lt_of_lt_of_le (h.bound hp) h.size

/-- Available frames are, too. -/
lemma Inv.avail_lt (h : Inv s) (hf : s.Avail f) : f < 2 ^ 20 := lt_of_lt_of_le hf.lt h.size

/-- Directory entries are words. -/
lemma Inv.tableEntry_lt (h : Inv s) (sp : Space) (i : ℕ) : s.tableEntry sp i < 2 ^ 32 := by
  by_cases hz : s.tableEntry sp i = 0
  · omega
  · have hb := h.frame_lt (own_table hz)
    omega

/-- Live directories are at word addresses. -/
lemma Inv.dir_lt (h : Inv s) (hd : d ∈ s.dirs) : d < 2 ^ 32 := by
  have hb := h.frame_lt (own_dir hd)
  omega

/-! ## Changes that keep the ledger -/

/-- A change of the bitmap, the contents of frames that are not nodes, and the temporary mapping
keeps the invariant, if no used frame becomes free. -/
lemma Inv.of_own (h : Inv s) (hdirs : s'.dirs = s.dirs) (hown : s'.own = s.own)
    (htable : ∀ sp i, s'.tableEntry sp i = s.tableEntry sp i)
    (hpage : ∀ sp i j, s'.pageEntry sp i j = s.pageEntry sp i j)
    (hkpd : s'.mm.kernelPageDirectory = s.mm.kernelPageDirectory)
    (hkheap : s'.mm.kheapPages = s.mm.kheapPages) (hsize : s'.mm.bitmapSize = s.mm.bitmapSize)
    (hquiet : s'.mm.overrun = false) (hused : ∀ g, s.mm.used g → s'.mm.used g)
    (hdir : ∀ d ∈ s.dirs, s'.mm.mem (d / 4096) = s.mm.mem (d / 4096)) : Inv s' where
  size := hsize ▸ h.size
  quiet := hquiet
  sound := by rw [hown]; exact h.sound.mono hused
  bound := by rw [hown, hsize]; exact h.bound
  tables := by intro sp i; rw [htable]; exact h.tables
  pages := by intro sp i j; rw [hpage]; exact h.pages
  nodup := hdirs ▸ h.nodup
  aligned := hdirs ▸ h.aligned
  reserved := by
    intro f hf
    have hr : s.Reserved f := (reserved_congr fun i _ => by rw [hkpd]).mp hf
    rw [hown]
    exact ⟨hused _ (h.reserved hr).1, (h.reserved hr).2⟩
  low := fun hf => h.low ((reserved_congr fun i _ => by rw [hkpd]).mp hf)
  heap := by intro i j; rw [hpage, hkheap]; exact h.heap
  null := by rw [hown]; exact h.null
  halves := by
    intro d hd i h₁ h₂
    rw [hdirs] at hd
    rw [hdir d hd, hkpd]
    exact h.halves d hd i h₁ h₂

/-- Page entries do not change when a frame that is no node is written. -/
lemma pageEntry_put {page : ℕ → ℕ} (hf : ¬ s.IsNode f) (sp : Space) (i j : ℕ) :
    (s.withMm (s.mm.put f page)).pageEntry sp i j = s.pageEntry sp i j := by
  rw [IsNode, not_or] at hf
  unfold pageEntry
  rw [tableEntry_put hf.1]
  split_ifs with hz
  · rfl
  · have hne : s.tableEntry sp i / 4096 ≠ f :=
      fun he => hf.2 ⟨sp, i, he ▸ own_table (not_or.mp hz).1⟩
    change Function.update s.mm.mem f page _ j = _
    rw [Function.update_of_ne hne]

/-- Writing a frame that is no directory and no table keeps the invariant. -/
lemma Inv.put (h : Inv s) (hf : ¬ s.IsNode f) (page : ℕ → ℕ) :
    Inv (s.withMm (s.mm.put f page)) := by
  have hf' := hf
  rw [IsNode, not_or] at hf'
  refine h.of_own rfl (own_put_of_free hf) (fun sp i => tableEntry_put hf'.1) (pageEntry_put hf)
    rfl rfl rfl h.quiet (fun _ hg => hg) ?_
  intro d hd
  have hne : d / 4096 ≠ f := fun he => hf'.1 ⟨d, he ▸ own_dir hd⟩
  exact Function.update_of_ne hne _ _

/-- **Taking a free frame** and filling it: the frame is available, and so is every frame that was.
-/
lemma Inv.take (h : Inv s) (hlt : f < s.mm.bitmapSize) (hfree : ¬ s.mm.used f) (page : ℕ → ℕ) :
    Inv (s.withMm ((s.mm.take f).put f page)) ∧ (s.withMm ((s.mm.take f).put f page)).Avail f ∧
      (s.withMm ((s.mm.take f).put f page)).own = s.own ∧
      ∀ g, s.Avail g → (s.withMm ((s.mm.take f).put f page)).Avail g ∧ g ≠ f := by
  have hnode : ¬ s.IsNode f := by
    rintro (⟨d, hd⟩ | ⟨sp, i, hi⟩)
    · exact hfree (h.sound.used_of_own hd)
    · exact hfree (h.sound.used_of_own hi)
  set s₁ := s.withMm (s.mm.take f) with hs₁
  have hinv₁ : Inv s₁ := by
    refine h.of_own rfl (own_congr rfl rfl rfl) (fun _ _ => rfl) (fun _ _ _ => rfl) rfl rfl rfl
      h.quiet (fun g hg => Mm.used_take.mpr (.inr hg)) (fun _ _ => rfl)
  have hown₁ : s₁.own = s.own := own_congr rfl rfl rfl
  have hnode₁ : ¬ s₁.IsNode f := by
    unfold IsNode at hnode ⊢
    rwa [hown₁]
  have hown : (s.withMm ((s.mm.take f).put f page)).own = s.own :=
    (own_put_of_free (s := s₁) hnode₁).trans hown₁
  have hused (g : ℕ) : (s.withMm ((s.mm.take f).put f page)).mm.used g ↔ g = f ∨ s.mm.used g :=
    Mm.used_take
  refine ⟨hinv₁.put hnode₁ page, ⟨?_, ?_, ?_⟩, hown, fun g hg => ⟨⟨?_, hg.lt, hg.fresh⟩, ?_⟩⟩
  · rw [hown]
    exact ⟨(hused f).mpr (.inl rfl), fun p hp => hfree (h.sound.used_of_own hp)⟩
  · exact hlt
  · exact fun hr => hfree (h.reserved hr).1
  · rw [hown]
    exact ⟨(hused g).mpr (.inr hg.loose.1), hg.loose.2⟩
  · exact fun he => hfree (he ▸ hg.loose.1)

/-! ## Putting a frame in a table or a directory -/

/-- What a change of the ledger at one place has to respect for the invariant: the frame that comes
is available, and the frame that goes is the only one that may become free. -/
lemma Loose.update (h : Ledger.Loose s.own s.mm.used g) (hu : s.mm.used g → s'.mm.used g)
    (hown : s'.own = Function.update s.own p (frameOf e)) (hg : frameOf e ≠ some g) :
    Ledger.Loose s'.own s'.mm.used g := by
  refine ⟨hu h.1, fun q hq => ?_⟩
  rw [hown, Function.update_apply] at hq
  split_ifs at hq
  · exact hg hq
  · exact h.2 q hq

/-- The invariant after a write that changes the ledger at one place. -/
lemma Inv.of_update (h : Inv s) (hdirs : s'.dirs = s.dirs)
    (hown : s'.own = Function.update s.own p (frameOf e))
    (hsound : Ledger.Sound s'.own s'.mm.used) (he : ∀ f, frameOf e = some f → f < s.mm.bitmapSize)
    (hfresh : ∀ {f}, s.Reserved f → frameOf e ≠ some f)
    (hres : ∀ {f}, s.Reserved f → s'.mm.used f)
    (htable : ∀ sp i, s'.tableEntry sp i ≠ 0 → s'.tableEntry sp i % 4096 = sp.flags)
    (hpage : ∀ sp i j, s'.pageEntry sp i j ≠ 0 → s'.pageEntry sp i j % 4096 = sp.flags)
    (hkpd : ∀ i, ¬ (769 ≤ i ∧ i < 896) →
      s'.mm.kernelPageDirectory i = s.mm.kernelPageDirectory i)
    (hkheap : ∀ i j, s'.pageEntry .kernel i j ≠ 0 → s'.mm.kheapPages ((i - 769) * 1024 + j) ≠ 0)
    (hsize : s'.mm.bitmapSize = s.mm.bitmapSize) (hquiet : s'.mm.overrun = s.mm.overrun)
    (hnull : e = 0 ∨ ∀ d, p ≠ .page (.task d) 0 0)
    (hhalf : ∀ d ∈ s.dirs, ∀ i, 768 ≤ i → i < 1024 → s'.mm.mem (d / 4096) i = 0 ∨
      s'.mm.mem (d / 4096) i = s'.mm.kernelPageDirectory i) : Inv s' where
  size := hsize ▸ h.size
  quiet := hquiet ▸ h.quiet
  sound := hsound
  bound := by
    intro q f hq
    rw [hown, Function.update_apply] at hq
    rw [hsize]
    split_ifs at hq
    · exact he f hq
    · exact h.bound hq
  tables := fun {sp i} => htable sp i
  pages := fun {sp i j} => hpage sp i j
  nodup := hdirs ▸ h.nodup
  aligned := hdirs ▸ h.aligned
  reserved := by
    intro f hf
    have hr : s.Reserved f := (reserved_congr hkpd).mp hf
    exact Loose.update (h.reserved hr) (fun _ => hres hr) hown (hfresh hr)
  low := fun hf => h.low ((reserved_congr hkpd).mp hf)
  heap := fun {i j} => hkheap i j
  null := by
    intro d
    rw [hown, Function.update_apply]
    split_ifs with hp
    · rcases hnull with rfl | hne
      · rfl
      · exact absurd hp.symm (hne d)
    · exact h.null d
  halves := by rw [hdirs]; exact hhalf

/-- The words of the directories' upper halves, when a page table is written. -/
lemma Inv.halves_put_entry (h : Inv s) (ht : s.own (.table sp i) = some t) (hd : d ∈ s.dirs)
    (page : ℕ → ℕ) : (s.mm.put t page).mem (d / 4096) = s.mm.mem (d / 4096) := by
  have hne : d / 4096 ≠ t := h.sound.ne (own_dir hd) ht (by simp)
  exact Function.update_of_ne hne _ _

/-- An entry that may stand in a table of the space: none, or an available frame's. -/
def Fits (s : Sys) (sp : Space) (e : ℕ) : Prop := e = 0 ∨ ∃ f, s.Avail f ∧ e = entryOf sp f

/-- An entry points below the end of the bitmap. -/
lemma Fits.lt (h : s.Fits sp e) : ∀ f, frameOf e = some f → f < s.mm.bitmapSize := by
  intro g hg
  rcases h with rfl | ⟨f, hf, rfl⟩
  · simp at hg
  · rw [frameOf_entryOf, Option.some.injEq] at hg
    exact hg ▸ hf.lt

/-- No entry points to a reserved frame. -/
lemma Fits.fresh (h : s.Fits sp e) (hr : s.Reserved g) : frameOf e ≠ some g := by
  intro hg
  rcases h with rfl | ⟨f, hf, rfl⟩
  · simp at hg
  · rw [frameOf_entryOf, Option.some.injEq] at hg
    exact hf.fresh (hg ▸ hr)

/-- The flags of an entry that is there. -/
lemma Fits.mod (h : s.Fits sp e) (he : e ≠ 0) : e % 4096 = sp.flags := by
  rcases h with rfl | ⟨f, -, rfl⟩
  · exact absurd rfl he
  · exact entryOf_mod sp f

/-- **Writing an entry of a page table**, together with the bitmap and the record of heap pages. -/
lemma Inv.setPage (h : Inv s) (ht : s.own (.table sp i) = some t) (hj : j < 1024)
    (he : s.Fits sp e) (hdirs : s'.dirs = s.dirs)
    (hmem : s'.mm.mem = (s.mm.put t (Function.update (s.mm.mem t) j e)).mem)
    (hkpd : s'.mm.kernelPageDirectory = s.mm.kernelPageDirectory)
    (hsound : Ledger.Sound (Function.update s.own (.page sp i j) (frameOf e)) s'.mm.used)
    (hres : ∀ {f}, s.Reserved f → s'.mm.used f)
    {k : ℕ → ℕ} (hk : s'.mm.kheapPages = k)
    (hkheap : ∀ i' j', (if Place.page .kernel i' j' = Place.page sp i j then e
      else s.pageEntry .kernel i' j') ≠ 0 → k ((i' - 769) * 1024 + j') ≠ 0)
    (hsize : s'.mm.bitmapSize = s.mm.bitmapSize) (hquiet : s'.mm.overrun = s.mm.overrun)
    (hnull : e = 0 ∨ ∀ d, Place.page sp i j ≠ .page (.task d) 0 0) :
    Inv s' ∧ s'.own = Function.update s.own (.page sp i j) (frameOf e) := by
  set s₁ := s.withMm (s.mm.put t (Function.update (s.mm.mem t) j e)) with hs₁
  have hentry (sp' : Space) (i' j' : ℕ) : s'.pageEntry sp' i' j' =
      if Place.page sp' i' j' = Place.page sp i j then e else s.pageEntry sp' i' j' := by
    rw [pageEntry_congr (s := s₁) hmem hkpd hdirs, hs₁, pageEntry_put_entry h.sound ht hj]
  have hown : s'.own = Function.update s.own (.page sp i j) (frameOf e) := by
    rw [own_congr (s := s₁) hmem hkpd hdirs, hs₁, own_put_entry h.sound ht hj]
  have hdir : ¬ ∃ d, s.own (.dir d) = some t := by
    rintro ⟨d, hd⟩
    exact absurd (h.sound.inj hd ht) (by simp)
  refine ⟨h.of_update hdirs hown (hown ▸ hsound) he.lt he.fresh hres ?_ ?_ (fun _ _ => by rw [hkpd])
    ?_ hsize hquiet hnull ?_, hown⟩
  · intro sp' i'
    rw [tableEntry_congr (s := s₁) hmem hkpd hdirs, hs₁, tableEntry_put hdir]
    exact h.tables
  · intro sp' i' j'
    rw [hentry]
    split_ifs with hp
    · obtain ⟨rfl, -, -⟩ : sp' = sp ∧ i' = i ∧ j' = j := by simpa using hp
      exact he.mod
    · exact h.pages
  · intro i' j'
    rw [hentry, hk]
    exact hkheap i' j'
  · intro d' hd' n h₁ h₂
    rw [hmem, h.halves_put_entry ht hd', hkpd]
    exact h.halves d' hd' n h₁ h₂

/-- **Putting a frame in a page table** of a task. -/
lemma Inv.putPage (h : Inv s) (ht : s.own (.table (.task d) i) = some t) (hj : j < 1024)
    (hij : i ≠ 0 ∨ j ≠ 0) (hf : s.Avail f) :
    Inv (s.withMm (s.mm.put t (Function.update (s.mm.mem t) j (entryOf (.task d) f)))) ∧
      (s.withMm (s.mm.put t (Function.update (s.mm.mem t) j (entryOf (.task d) f)))).own =
        Function.update s.own (.page (.task d) i j) (some f) := by
  rw [← frameOf_entryOf (.task d) f]
  refine h.setPage ht hj (.inr ⟨f, hf, rfl⟩) rfl rfl rfl ?_ (fun hi => (h.reserved hi).1)
    rfl ?_ rfl rfl (.inr ?_)
  · rw [frameOf_entryOf]
    exact h.sound.put hf.loose
  · intro i' j'
    rw [if_neg (by simp)]
    exact h.heap
  · intro d' he
    obtain ⟨-, hi, hj⟩ : d = d' ∧ i = 0 ∧ j = 0 := by simpa using he
    exact hij.elim (fun h => h hi) fun h => h hj

/-- **Clearing an entry of a task's page table** and giving its frame back. -/
lemma Inv.clearPage (h : Inv s) (ht : s.own (.table (.task d) i) = some t) (hj : j < 1024)
    (hf : s.own (.page (.task d) i j) = some f) :
    Inv (s.withMm ((s.mm.put t (Function.update (s.mm.mem t) j 0)).release f)) ∧
      (s.withMm ((s.mm.put t (Function.update (s.mm.mem t) j 0)).release f)).own =
        Function.update s.own (.page (.task d) i j) none := by
  refine h.setPage ht hj (.inl rfl) rfl rfl rfl ?_ ?_ rfl ?_ rfl rfl (.inl rfl)
  · exact h.sound.drop hf fun g hg hu => Mm.used_release.mpr ⟨hg, hu⟩
  · intro k hk
    exact Mm.used_release.mpr ⟨(h.reserved hk).ne hf, (h.reserved hk).1⟩
  · intro i' j'
    rw [if_neg (by simp)]
    exact h.heap

/-- **Putting a frame in a page table of the heap** and recording the page. -/
lemma Inv.putHeapPage (h : Inv s) (ht : s.own (.table .kernel i) = some t) (hj : j < 1024)
    (hf : s.Avail f) {mm : Mm}
    (hmm : mm = (s.mm.put t (Function.update (s.mm.mem t) j (entryOf .kernel f))).record
      ((i - 769) * 1024 + j) 1) :
    Inv (s.withMm mm) ∧
      (s.withMm mm).own = Function.update s.own (.page .kernel i j) (some f) := by
  subst hmm
  rw [← frameOf_entryOf .kernel f]
  refine h.setPage (k := Function.update s.mm.kheapPages ((i - 769) * 1024 + j) 1) ht hj
    (.inr ⟨f, hf, rfl⟩) rfl rfl rfl ?_ (fun hi => (h.reserved hi).1) rfl ?_ rfl rfl
    (.inr (by simp))
  · rw [frameOf_entryOf]
    exact h.sound.put hf.loose
  · intro i' j' he
    by_cases hv : (i' - 769) * 1024 + j' = (i - 769) * 1024 + j
    · rw [hv, Function.update_self]
      exact Nat.one_ne_zero
    · have hne : ¬ (Place.page .kernel i' j' = Place.page .kernel i j) := by
        rintro ⟨⟩
        exact hv rfl
      rw [if_neg hne] at he
      rw [Function.update_of_ne hv]
      exact h.heap he

/-- **Clearing an entry of a page table of the heap**, giving its frame back and recording the page
as free. -/
lemma Inv.clearHeapPage (h : Inv s) (ht : s.own (.table .kernel i) = some t) (hj : j < 1024)
    (hf : s.own (.page .kernel i j) = some f) {mm : Mm}
    (hmm : mm = ((s.mm.put t (Function.update (s.mm.mem t) j 0)).release f).record
      ((i - 769) * 1024 + j) 0) :
    Inv (s.withMm mm) ∧ (s.withMm mm).own = Function.update s.own (.page .kernel i j) none := by
  subst hmm
  refine h.setPage (k := Function.update s.mm.kheapPages ((i - 769) * 1024 + j) 0) ht hj (.inl rfl)
    rfl rfl rfl ?_ ?_ rfl ?_ rfl rfl (.inl rfl)
  · exact h.sound.drop hf fun g hg hu => Mm.used_release.mpr ⟨hg, hu⟩
  · intro k hk
    exact Mm.used_release.mpr ⟨(h.reserved hk).ne hf, (h.reserved hk).1⟩
  · intro i' j' he
    split_ifs at he with h₁
    · exact absurd rfl he
    · have hc := covers_of_tableEntry (tableEntry_of_pageEntry he).1
      have hi := covers_of_tableEntry (frameOf_eq_some.mp ht).1
      have hj' := (tableEntry_of_pageEntry he).2
      have hne : (i' - 769) * 1024 + j' ≠ (i - 769) * 1024 + j := by
        intro heq
        refine h₁ ?_
        have h₁ := hc.1
        have h₂ := hi.1
        have hii : i' = i := by omega
        have hjj : j' = j := by omega
        rw [hii, hjj]
      rw [Function.update_of_ne hne]
      exact h.heap he

/-! ## Putting a table in a directory -/

/-- **Writing an entry of a task's directory** when no page comes or goes, together with the
bitmap. -/
lemma Inv.setTable (h : Inv s) (hd : d ∈ s.dirs) (hi : i < 768) (he : s.Fits (.task d) e)
    (hold : ∀ j, s.own (.page (.task d) i j) = none)
    (hnew : e = 0 ∨ ∀ j < 1024, s.mm.mem (e / 4096) j = 0) (hdirs : s'.dirs = s.dirs)
    (hmem : s'.mm.mem = (s.mm.put (d / 4096) (Function.update (s.mm.mem (d / 4096)) i e)).mem)
    (hkpd : s'.mm.kernelPageDirectory = s.mm.kernelPageDirectory)
    (hkheap : s'.mm.kheapPages = s.mm.kheapPages)
    (hsound : Ledger.Sound (Function.update s.own (.table (.task d) i) (frameOf e)) s'.mm.used)
    (hres : ∀ {f}, s.Reserved f → s'.mm.used f)
    (hsize : s'.mm.bitmapSize = s.mm.bitmapSize) (hquiet : s'.mm.overrun = s.mm.overrun) :
    Inv s' ∧ s'.own = Function.update s.own (.table (.task d) i) (frameOf e) := by
  have hnew' : e = 0 ∨ e / 4096 ≠ d / 4096 ∧ ∀ j < 1024, s.mm.mem (e / 4096) j = 0 := by
    rcases he with rfl | ⟨f, hf, rfl⟩
    · exact .inl rfl
    · refine hnew.imp_right fun hz => ⟨?_, hz⟩
      rw [entryOf_div]
      exact hf.loose.ne (own_dir hd)
  have hold' (j : ℕ) : s.pageEntry (.task d) i j = 0 := frameOf_eq_none.mp (hold j)
  set s₁ := s.withMm (s.mm.put (d / 4096) (Function.update (s.mm.mem (d / 4096)) i e)) with hs₁
  have htable (sp' : Space) (i' : ℕ) : s'.tableEntry sp' i' =
      if Place.table sp' i' = Place.table (.task d) i then e else s.tableEntry sp' i' := by
    rw [tableEntry_congr (s := s₁) hmem hkpd hdirs, hs₁, tableEntry_put_directory h.sound hd hi]
  have hpage (sp' : Space) (i' j' : ℕ) : s'.pageEntry sp' i' j' = s.pageEntry sp' i' j' := by
    rw [pageEntry_congr (s := s₁) hmem hkpd hdirs, hs₁,
      pageEntry_put_directory h.sound hd hi hold' hnew']
  have hown := own_set_table hdirs htable hpage
  refine ⟨h.of_update hdirs hown (hown ▸ hsound) he.lt he.fresh hres ?_ ?_ (fun _ _ => by rw [hkpd])
    ?_ hsize hquiet (.inr (by simp)) ?_, hown⟩
  · intro sp' i'
    rw [htable]
    split_ifs with hp
    · obtain ⟨rfl, -⟩ : sp' = .task d ∧ i' = i := by simpa using hp
      exact he.mod
    · exact h.tables
  · intro sp' i' j'
    rw [hpage]
    exact h.pages
  · intro i' j'
    rw [hpage, hkheap]
    exact h.heap
  · intro d' hd' n h₁ h₂
    have hword : s'.mm.mem (d' / 4096) n = s.mm.mem (d' / 4096) n := by
      rw [hmem]
      change Function.update s.mm.mem (d / 4096) _ (d' / 4096) n = _
      by_cases hdd : d' / 4096 = d / 4096
      · rw [hdd, Function.update_self, Function.update_of_ne (by omega)]
      · rw [Function.update_of_ne hdd]
    rw [hword, hkpd]
    exact h.halves d' hd' n h₁ h₂

/-- **Putting an empty page table** in a task's directory. -/
lemma Inv.putTable (h : Inv s) (hd : d ∈ s.dirs) (hi : i < 768)
    (hold : s.own (.table (.task d) i) = none) (ht : s.Avail t)
    (hzero : ∀ j < 1024, s.mm.mem t j = 0) :
    Inv (s.withMm (s.mm.put (d / 4096)
        (Function.update (s.mm.mem (d / 4096)) i (entryOf (.task d) t)))) ∧
      (s.withMm (s.mm.put (d / 4096)
        (Function.update (s.mm.mem (d / 4096)) i (entryOf (.task d) t)))).own =
        Function.update s.own (.table (.task d) i) (some t) := by
  rw [← frameOf_entryOf (.task d) t]
  refine h.setTable hd hi (.inr ⟨t, ht, rfl⟩) ?_ (.inr ?_) rfl rfl rfl rfl ?_
    (fun hi => (h.reserved hi).1) rfl rfl
  · intro j
    exact if_pos (if_pos (.inl (frameOf_eq_none.mp hold)))
  · rwa [entryOf_div]
  · rw [frameOf_entryOf]
    exact h.sound.put ht.loose

/-- **Clearing a directory entry** whose table has no pages, and giving the table's frame back. -/
lemma Inv.clearTable (h : Inv s) (hd : d ∈ s.dirs) (hi : i < 768)
    (hold : ∀ j, s.own (.page (.task d) i j) = none) (ht : s.own (.table (.task d) i) = some t) :
    Inv (s.withMm ((s.mm.put (d / 4096)
        (Function.update (s.mm.mem (d / 4096)) i 0)).release t)) ∧
      (s.withMm ((s.mm.put (d / 4096)
        (Function.update (s.mm.mem (d / 4096)) i 0)).release t)).own =
        Function.update s.own (.table (.task d) i) none := by
  refine h.setTable hd hi (.inl rfl) hold (.inl rfl) rfl rfl rfl rfl ?_ ?_ rfl rfl
  · exact h.sound.drop ht fun g hg hu => Mm.used_release.mpr ⟨hg, hu⟩
  · intro k hk
    exact Mm.used_release.mpr ⟨(h.reserved hk).ne ht, (h.reserved hk).1⟩

/-- **Putting an empty page table** in the kernel's directory, in the heap's range. -/
lemma Inv.putKernelTable (h : Inv s) (hi : 769 ≤ i ∧ i < 896)
    (hold : s.mm.kernelPageDirectory i = 0) (ht : s.Avail t)
    (hzero : ∀ j < 1024, s.mm.mem t j = 0) :
    Inv (s.withMm (s.mm.putKernel i (entryOf .kernel t))) ∧
      (s.withMm (s.mm.putKernel i (entryOf .kernel t))).own =
        Function.update s.own (.table .kernel i) (some t) := by
  have hz : s.tableEntry .kernel i = 0 := by
    unfold tableEntry
    split_ifs
    · exact hold
    · rfl
  have htable := tableEntry_putKernel (s := s) (e := entryOf .kernel t) hi
  have hpage := pageEntry_putKernel (s := s) (e := entryOf .kernel t) hi
    (fun j => if_pos (.inl hz)) (by rwa [entryOf_div])
  have hown : (s.withMm (s.mm.putKernel i (entryOf .kernel t))).own =
      Function.update s.own (.table .kernel i) (frameOf (entryOf .kernel t)) :=
    own_set_table rfl htable hpage
  have hfits : s.Fits .kernel (entryOf .kernel t) := .inr ⟨t, ht, rfl⟩
  have hkpd (k : ℕ) (hk : k ≠ i) :
      (s.mm.putKernel i (entryOf .kernel t)).kernelPageDirectory k = s.mm.kernelPageDirectory k :=
    Function.update_of_ne hk _ _
  rw [← frameOf_entryOf .kernel t]
  refine ⟨h.of_update rfl hown ?_ hfits.lt hfits.fresh (fun hi => (h.reserved hi).1) ?_ ?_ ?_ ?_ rfl
    rfl (.inr (by simp)) ?_, hown⟩
  · rw [hown, frameOf_entryOf]
    exact h.sound.put ht.loose
  · intro sp' i'
    rw [htable]
    split_ifs with hp
    · obtain ⟨rfl, -⟩ : sp' = .kernel ∧ i' = i := by simpa using hp
      exact hfits.mod
    · exact h.tables
  · intro sp' i' j'
    rw [hpage]
    exact h.pages
  · intro k hk
    exact hkpd k fun he => hk (he ▸ hi)
  · intro i' j'
    rw [hpage]
    exact h.heap
  · intro d' hd' n h₁ h₂
    have hhalf := h.halves d' hd' n h₁ h₂
    by_cases hn : n = i
    · subst hn
      rw [hold, or_self] at hhalf
      exact .inl hhalf
    · exact hhalf.imp_right fun he => he.trans (hkpd n hn).symm

end Sys

end AlphaOS
