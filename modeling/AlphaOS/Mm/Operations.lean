import AlphaOS.Mm.Ownership

set_option relaxedAutoImplicit false
set_option autoImplicit false

/-!
# Installing and clearing entries of a task

The steps from which the functions that work on a task's tables are built: an allocated frame is put
in the directory or in a page table of the task, or an entry is cleared and its frame given back.
Each keeps the invariant, changes the ledger at one place of the task, and leaves everything alone
that is not the task's.

## Main definitions

* `AlphaOS.Sys.Alien` — the frames in use that a task does not hold.
* `AlphaOS.Sys.Confined` — a change that touches nothing outside of a task's user half.
* `AlphaOS.Sys.Installs` — a frame has been taken and put at a place of a task.

## Main results

* `AlphaOS.Sys.Inv.installTable`, `AlphaOS.Sys.Inv.installPage` — allocation and entry.
* `AlphaOS.Sys.Inv.clear` — an entry is cleared and its frame given back.
-/

namespace AlphaOS

/-- The places of the task with page directory `d`. -/
def Place.OfTask (d : ℕ) : Place → Prop
  | .dir d' => d' = d
  | .table sp _ => sp = .task d
  | .page sp _ _ => sp = .task d

namespace Sys

variable {s s' s'' : Sys} {d i j f g t : ℕ} {p : Place}

/-! ## Changes confined to a task -/

/-- The frames in use that are at no place of the task: those of the kernel, of other tasks, and the
ones no function of this model gives away. -/
def Alien (s : Sys) (d f : ℕ) : Prop := s.mm.used f ∧ ∀ p : Place, p.OfTask d → s.own p ≠ some f

/-- Nothing outside of the user half of the task with directory `d` is touched. -/
structure Confined (d : ℕ) (s s' : Sys) : Prop where
  dirs : s'.dirs = s.dirs
  kernel : s'.mm.kernelPageDirectory = s.mm.kernelPageDirectory
  record : s'.mm.kheapPages = s.mm.kheapPages
  size : s'.mm.bitmapSize = s.mm.bitmapSize
  alien : ∀ {f}, s.Alien d f → s'.Alien d f ∧ s'.mm.mem f = s.mm.mem f
  upper : ∀ {i}, 768 ≤ i → s'.mm.mem (d / 4096) i = s.mm.mem (d / 4096) i

/-- Nothing has been done. -/
lemma Confined.refl (d : ℕ) (s : Sys) : Confined d s s :=
  ⟨rfl, rfl, rfl, rfl, fun h => ⟨h, rfl⟩, fun _ => rfl⟩

/-- One step after another. -/
lemma Confined.trans (h₁ : Confined d s s') (h₂ : Confined d s' s'') : Confined d s s'' where
  dirs := h₂.dirs.trans h₁.dirs
  kernel := h₂.kernel.trans h₁.kernel
  record := h₂.record.trans h₁.record
  size := h₂.size.trans h₁.size
  alien := fun hf =>
    ⟨(h₂.alien (h₁.alien hf).1).1, (h₂.alien (h₁.alien hf).1).2.trans (h₁.alien hf).2⟩
  upper := fun hi => (h₂.upper hi).trans (h₁.upper hi)

/-- The temporary mapping is nobody's. -/
lemma Confined.tmp (d : ℕ) (s : Sys) (e : ℕ) :
    Confined d s (s.withMm { s.mm with tmpPte := e }) := by
  refine ⟨rfl, rfl, rfl, rfl, fun hf => ⟨⟨hf.1, ?_⟩, rfl⟩, fun _ => rfl⟩
  rw [show (s.withMm { s.mm with tmpPte := e }).own = s.own from own_congr rfl rfl rfl]
  exact hf.2

/-- A change of the ledger at one place of the task is confined to it, if no alien frame is given
away, freed or written. -/
lemma Confined.of_update {x : Option ℕ} (hdirs : s'.dirs = s.dirs)
    (hkernel : s'.mm.kernelPageDirectory = s.mm.kernelPageDirectory)
    (hrecord : s'.mm.kheapPages = s.mm.kheapPages) (hsize : s'.mm.bitmapSize = s.mm.bitmapSize)
    (hown : s'.own = Function.update s.own p x) (hx : ∀ f, x = some f → ¬ s.mm.used f)
    (hused : ∀ f, s.Alien d f → s'.mm.used f)
    (hmem : ∀ f, s.Alien d f → s'.mm.mem f = s.mm.mem f)
    (hupper : ∀ {i}, 768 ≤ i → s'.mm.mem (d / 4096) i = s.mm.mem (d / 4096) i) :
    Confined d s s' := by
  refine ⟨hdirs, hkernel, hrecord, hsize, fun {f} hf => ⟨⟨hused f hf, ?_⟩, hmem f hf⟩, hupper⟩
  intro q hq he
  rw [hown, Function.update_apply] at he
  split_ifs at he
  · exact hx f he hf.1
  · exact hf.2 q hq he

/-- A frame at a place that is not the task's is alien to it. -/
lemma Inv.alien (h : Inv s) (hp : ¬ p.OfTask d) (hf : s.own p = some f) : s.Alien d f :=
  ⟨h.sound.used_of_own hf, fun _ hq he => hp (h.sound.inj he hf ▸ hq)⟩

/-- Directory entries of other spaces do not change. -/
lemma Confined.tableEntry_eq (hc : Confined d s s') (h : Inv s) {sp : Space} (hsp : sp ≠ .task d)
    (i : ℕ) : s'.tableEntry sp i = s.tableEntry sp i := by
  have hcov : s'.Covers sp i ↔ s.Covers sp i := by cases sp <;> simp [Covers, hc.dirs]
  unfold tableEntry
  simp only [hcov]
  split_ifs with hcover
  · cases sp with
    | kernel => exact congrFun hc.kernel i
    | task d' =>
      have hne : ¬ (Place.dir d').OfTask d := fun he => hsp (congrArg Space.task he)
      exact congrFun (hc.alien (h.alien hne (own_dir hcover.1))).2 i
  · rfl

/-- Page entries of other spaces do not change. -/
lemma Confined.pageEntry_eq (hc : Confined d s s') (h : Inv s) {sp : Space} (hsp : sp ≠ .task d)
    (i j : ℕ) : s'.pageEntry sp i j = s.pageEntry sp i j := by
  unfold pageEntry
  rw [hc.tableEntry_eq h hsp]
  split_ifs with hz
  · rfl
  · have hne : ¬ (Place.table sp i).OfTask d := hsp
    exact congrFun (hc.alien (h.alien hne (own_table (not_or.mp hz).1))).2 j

/-- The places that are not the task's keep their frames. -/
lemma Confined.own_eq (hc : Confined d s s') (h : Inv s) (hp : ¬ p.OfTask d) :
    s'.own p = s.own p := by
  cases p with
  | dir d' => simp [own, hc.dirs]
  | table sp i => exact congrArg frameOf (hc.tableEntry_eq h hp i)
  | page sp i j => exact congrArg frameOf (hc.pageEntry_eq h hp i j)

/-! ## Allocation -/

/-- The temporary mapping does not matter. -/
lemma Inv.tmp (h : Inv s) (e : ℕ) : Inv (s.withMm { s.mm with tmpPte := e }) :=
  h.of_own rfl (own_congr rfl rfl rfl) (fun _ _ => rfl) (fun _ _ _ => rfl) rfl rfl rfl h.quiet
    (fun _ hg => hg) (fun _ _ => rfl)

/-- **An allocation** takes a free frame. -/
lemma Inv.allocFilled (h : Inv s) {page : ℕ → ℕ}
    (hok : (s.mm.allocFilled page).2.overrun = false) :
    ∃ f, s.mm.allocFilled page = (f * 4096, (s.mm.take f).put f page) ∧
      f < s.mm.bitmapSize ∧ ¬ s.mm.used f := by
  obtain ⟨hlt, hfree, heq⟩ := Mm.allocFilled_eq h.size hok
  exact ⟨_, heq, hlt, hfree⟩

/-- A failed search is not forgotten by an allocation. -/
lemma overrun_allocFilled_of {mm : Mm} {page : ℕ → ℕ} (h : mm.overrun = true) :
    (mm.allocFilled page).2.overrun = true := by
  rw [Mm.allocFilled, Mm.overrun_fillPage, Mm.pmmAlloc]
  simp [h]

/-- Writing an entry overruns no array. -/
@[simp] lemma overrun_writeEntry (mm : Mm) (p k e : ℕ) :
    (mm.writeEntry p k e).overrun = mm.overrun := rfl

/-- Installing an entry overruns the bitmap if its allocation does. -/
@[simp] lemma overrun_installEntry (mm : Mm) (p k flags : ℕ) :
    (mm.installEntry p k flags).overrun = (mm.allocFilled fun _ => 0).2.overrun := by
  rw [Mm.installEntry, overrun_writeEntry, Mm.allocZeroed]

/-- The entry of an allocated frame in a task's table or directory. -/
lemma entry_userFlags (d : ℕ) (hf : f < 2 ^ 20) :
    entry (f * 4096) userFlags = entryOf (.task d) f :=
  Mm.entry_frame hf (by decide)

/-- The entry of an allocated frame in the kernel's tables. -/
lemma entry_kernelFlags (hf : f < 2 ^ 20) : entry (f * 4096) kernelFlags = entryOf .kernel f :=
  Mm.entry_frame hf (by decide)

/-- The free frames after one of them has been taken. -/
lemma freeCount_put (hlt : f < s.mm.bitmapSize) (hfree : ¬ s.mm.used f) (page : ℕ → ℕ) (t : ℕ)
    (page' : ℕ → ℕ) : (((s.mm.take f).put f page).put t page').freeCount + 1 = s.mm.freeCount :=
  Mm.freeCount_take hlt hfree

/-! ## Reading entries -/

/-- The word read from a live directory in the user half. -/
lemma Inv.readEntry_dir (h : Inv s) (hd : d ∈ s.dirs) (hi : i < 768) :
    s.mm.readEntry d i = s.tableEntry (.task d) i := by
  rw [Mm.readEntry_eq (h.dir_lt hd), tableEntry, if_pos (show s.Covers (.task d) i from ⟨hd, hi⟩)]
  rfl

/-- The word read from a page table. -/
lemma Inv.readEntry_table (h : Inv s) {sp : Space} (ht : s.tableEntry sp i ≠ 0) (hj : j < 1024) :
    s.mm.readEntry (s.tableEntry sp i) j = s.pageEntry sp i j := by
  rw [Mm.readEntry_eq (h.tableEntry_lt sp i), pageEntry, if_neg (not_or.mpr ⟨ht, by omega⟩)]

/-- The entry of a page is determined by its frame. -/
lemma Inv.pageEntry_eq (h : Inv s) {sp : Space} (hf : s.own (.page sp i j) = some f) :
    s.pageEntry sp i j = entryOf sp f := by
  obtain ⟨hne, hdiv⟩ := frameOf_eq_some.mp hf
  have hmod := h.pages hne
  rw [entryOf, ← hdiv, ← hmod]
  omega

/-- The entry of a table is determined by its frame. -/
lemma Inv.tableEntry_eq (h : Inv s) {sp : Space} (hf : s.own (.table sp i) = some f) :
    s.tableEntry sp i = entryOf sp f := by
  obtain ⟨hne, hdiv⟩ := frameOf_eq_some.mp hf
  have hmod := h.tables hne
  rw [entryOf, ← hdiv, ← hmod]
  omega

/-! ## Installing an entry -/

/-- The free frame `f` has been taken and put at the place `p` of the task with directory `d`. -/
structure Installs (d : ℕ) (p : Place) (f : ℕ) (s s' : Sys) : Prop where
  free : ¬ s.mm.used f
  lt : f < s.mm.bitmapSize
  inv : Inv s'
  own : s'.own = Function.update s.own p (some f)
  used : ∀ g, s'.mm.used g ↔ g = f ∨ s.mm.used g
  count : s'.mm.freeCount + 1 = s.mm.freeCount
  confined : Confined d s s'
  zero : ∀ x, s'.mm.mem f x = 0
  kept : ∀ {sp i j g}, s.own (.page sp i j) = some g → s'.mm.mem g = s.mm.mem g

/-- Taking `f` and writing an entry into the frame `t` of the task, when that puts `f` at `p`. -/
lemma Installs.of_put (h : Inv s) (hlt : f < s.mm.bitmapSize) (hfree : ¬ s.mm.used f)
    (hd : d ∈ s.dirs) {q : Place} (hq : q.OfTask d) (hqt : s.own q = some t)
    (hqp : ∀ sp i j, Place.page sp i j ≠ q) {e : ℕ} {mm : Mm}
    (hmm : mm = ((s.mm.take f).put f fun _ => 0).put t
      (Function.update (((s.mm.take f).put f fun _ => 0).mem t) j e))
    (hupper : t = d / 4096 → j < 768) (hinv : Inv (s.withMm mm))
    (hown : (s.withMm mm).own = Function.update s.own p (some f)) :
    Installs d p f s (s.withMm mm) := by
  subst hmm
  have hdf : d / 4096 ≠ f := fun he => hfree (h.sound.used_of_own (he ▸ own_dir hd))
  have htf : f ≠ t := fun he => hfree (h.sound.used_of_own (he ▸ hqt))
  refine ⟨hfree, hlt, hinv, hown, fun g => Mm.used_take, freeCount_put hlt hfree _ _ _, ?_, ?_, ?_⟩
  rotate_left
  · intro x
    change Function.update (Function.update s.mm.mem f _) t _ f x = 0
    rw [Function.update_of_ne htf, Function.update_self]
  · intro sp i' j' g hg
    have hgf : g ≠ f := fun he => hfree (h.sound.used_of_own (he ▸ hg))
    have hgt : g ≠ t := h.sound.ne hg hqt (hqp sp i' j')
    change Function.update (Function.update s.mm.mem f _) t _ g = _
    rw [Function.update_of_ne hgt, Function.update_of_ne hgf]
  refine .of_update rfl rfl rfl rfl hown ?_ ?_ ?_ ?_
  · rintro g ⟨⟩
    exact hfree
  · exact fun g hg => Mm.used_take.mpr (.inr hg.1)
  · intro g hg
    have hgf : g ≠ f := fun he => hfree (he ▸ hg.1)
    have hgt : g ≠ t := fun he => hg.2 q hq (he ▸ hqt)
    change Function.update (Function.update s.mm.mem f _) t _ g = _
    rw [Function.update_of_ne hgt, Function.update_of_ne hgf]
  · intro k hk
    change Function.update (Function.update s.mm.mem f _) t _ (d / 4096) k = _
    by_cases htd : d / 4096 = t
    · have hjk : k ≠ j := by have := hupper htd.symm; omega
      rw [htd, Function.update_self, Function.update_of_ne hjk]
      change Function.update s.mm.mem f _ t k = _
      rw [Function.update_of_ne (htd ▸ hdf)]
    · rw [Function.update_of_ne htd, Function.update_of_ne hdf]

/-- What `installEntry` does when it finds a frame. -/
lemma Inv.installEntry_eq (h : Inv s) (d : ℕ) (ht : t < 2 ^ 32)
    (hok : (s.mm.installEntry t j userFlags).overrun = false) :
    ∃ f, f < s.mm.bitmapSize ∧ ¬ s.mm.used f ∧ s.mm.allocZeroed.1 = f * 4096 ∧
      s.mm.installEntry t j userFlags = ((s.mm.take f).put f fun _ => 0).put (t / 4096)
        (Function.update (((s.mm.take f).put f fun _ => 0).mem (t / 4096)) j
          (entryOf (.task d) f)) := by
  rw [overrun_installEntry] at hok
  obtain ⟨f, heq, hlt, hfree⟩ := h.allocFilled hok
  have hf : f < 2 ^ 20 := lt_of_lt_of_le hlt h.size
  refine ⟨f, hlt, hfree, by rw [Mm.allocZeroed, heq], ?_⟩
  rw [Mm.installEntry, Mm.allocZeroed, Mm.writeEntry_eq ht, heq, entry_userFlags d hf]

/-- **Installing a page table** in a task's directory. -/
lemma Inv.installTable (h : Inv s) (hd : d ∈ s.dirs) (hi : i < 768)
    (hold : s.tableEntry (.task d) i = 0)
    (hok : (s.mm.installEntry d i userFlags).overrun = false) :
    ∃ f, s.mm.allocZeroed.1 = f * 4096 ∧
      Installs d (.table (.task d) i) f s (s.withMm (s.mm.installEntry d i userFlags)) := by
  obtain ⟨f, hlt, hfree, haddr, heq⟩ := h.installEntry_eq d (h.dir_lt hd) hok
  obtain ⟨hinv, havail, hown, -⟩ := h.take hlt hfree fun _ => 0
  have hnone : (s.withMm ((s.mm.take f).put f fun _ => 0)).own (.table (.task d) i) = none := by
    rw [hown]
    exact frameOf_eq_none.mpr hold
  have hzero : ∀ k < 1024, (s.withMm ((s.mm.take f).put f fun _ => 0)).mm.mem f k = 0 := by
    intro k _
    change Function.update s.mm.mem f _ f k = 0
    rw [Function.update_self]
  obtain ⟨hinv', hown'⟩ := hinv.putTable hd hi hnone havail hzero
  rw [hown] at hown'
  refine ⟨f, haddr, .of_put h hlt hfree hd (q := .dir d) rfl (own_dir hd) (by simp) heq
    (fun _ => hi) ?_ ?_⟩
  · rw [heq]
    exact hinv'
  · rw [heq]
    exact hown'

/-- **Installing a page** in a task's page table. -/
lemma Inv.installPage (h : Inv s) (ht : s.own (.table (.task d) i) = some t) (hj : j < 1024)
    (hij : i ≠ 0 ∨ j ≠ 0)
    (hok : (s.mm.installEntry (s.tableEntry (.task d) i) j userFlags).overrun = false) :
    ∃ f, Installs d (.page (.task d) i j) f s
      (s.withMm (s.mm.installEntry (s.tableEntry (.task d) i) j userFlags)) := by
  obtain ⟨f, hlt, hfree, -, heq⟩ := h.installEntry_eq d (h.tableEntry_lt _ _) hok
  obtain ⟨hinv, havail, hown, -⟩ := h.take hlt hfree fun _ => 0
  have hdiv : s.tableEntry (.task d) i / 4096 = t := (frameOf_eq_some.mp ht).2
  have hd : d ∈ s.dirs := (covers_of_tableEntry (frameOf_eq_some.mp ht).1).1
  have htd : t ≠ d / 4096 := h.sound.ne ht (own_dir hd) (by simp)
  rw [hdiv] at heq
  have ht' : (s.withMm ((s.mm.take f).put f fun _ => 0)).own (.table (.task d) i) = some t := by
    rw [hown]
    exact ht
  obtain ⟨hinv', hown'⟩ := hinv.putPage ht' hj hij havail
  rw [hown] at hown'
  refine ⟨f, .of_put h hlt hfree hd (q := .table (.task d) i) rfl ht (by simp) heq
    (fun he => absurd he htd) ?_ ?_⟩
  · rw [heq]
    exact hinv'
  · rw [heq]
    exact hown'

/-! ## Clearing an entry -/

/-- **Clearing a page entry** of a task and giving its frame back. -/
lemma Inv.clear (h : Inv s) (ht : s.own (.table (.task d) i) = some t) (hj : j < 1024)
    (hf : s.own (.page (.task d) i j) = some f) {mm : Mm}
    (hmm : mm = (s.mm.put t (Function.update (s.mm.mem t) j 0)).release f) :
    Inv (s.withMm mm) ∧
      (s.withMm mm).own = Function.update s.own (.page (.task d) i j) none ∧
      Confined d s (s.withMm mm) := by
  subst hmm
  obtain ⟨hinv, hown⟩ := h.clearPage ht hj hf
  have hd : d ∈ s.dirs := (covers_of_tableEntry (frameOf_eq_some.mp ht).1).1
  have htd : d / 4096 ≠ t := h.sound.ne (own_dir hd) ht (by simp)
  refine ⟨hinv, hown, .of_update rfl rfl rfl rfl hown (by simp) ?_ ?_ ?_⟩
  · intro g hg
    exact Mm.used_release.mpr ⟨fun he => hg.2 (.page (.task d) i j) rfl (he ▸ hf), hg.1⟩
  · intro g hg
    have hgt : g ≠ t := fun he => hg.2 (.table (.task d) i) rfl (he ▸ ht)
    exact Function.update_of_ne hgt _ _
  · intro k _
    change Function.update s.mm.mem t _ (d / 4096) k = _
    rw [Function.update_of_ne htd]

end Sys

end AlphaOS
