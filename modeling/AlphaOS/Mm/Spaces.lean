import AlphaOS.Lib.Ledger
import AlphaOS.Mm.Frames

set_option relaxedAutoImplicit false
set_option autoImplicit false

/-!
# Address spaces and the frames they hold

All address spaces are seen as one ledger: a place is a page directory, a page table or a page of
some space, and the ledger says which frame is at each place. The lemmas of this file say how a
write to a table, to a directory or to any other frame changes the ledger.

## Main definitions

* `AlphaOS.Sys` — the memory manager with the page directories of the live ring-3 tasks.
* `AlphaOS.Space`, `AlphaOS.Place` — the kernel heap and the tasks' user halves, and the places
  where they use a frame.
* `AlphaOS.Sys.own` — the frame at each place.

## Main results

* `AlphaOS.Sys.own_put_of_free` — writing a frame that is no table and no directory.
* `AlphaOS.Sys.own_put_entry` — writing an entry of a page table.
* `AlphaOS.Sys.own_set_table`, with `pageEntry_put_directory` and `pageEntry_putKernel` — writing an
  entry of a directory when no page is lost or gained by it.
-/

namespace AlphaOS

/-- The memory manager, with the page directories `mmap_ring3` returned and `unmmap_ring3` has not
been given. -/
structure Sys where
  mm : Mm
  dirs : List ℕ

/-- An address space: the kernel heap, or the user half of the task with page directory `d`. -/
inductive Space
  | kernel
  | task (d : ℕ)
deriving DecidableEq, Repr

/-- Where a frame is used. -/
inductive Place
  /-- As the page directory at `d`. -/
  | dir (d : ℕ)
  /-- As the page table of directory entry `i`. -/
  | table (sp : Space) (i : ℕ)
  /-- As the page of entry `j` of that table. -/
  | page (sp : Space) (i j : ℕ)
deriving DecidableEq, Repr

/-- The flags of the entries of a space. -/
def Space.flags : Space → ℕ
  | .kernel => kernelFlags
  | .task _ => userFlags

/-- The frame a table entry names; a zero entry names none. -/
def frameOf (e : ℕ) : Option ℕ := if e = 0 then none else some (e / 4096)

/-- Nothing is behind the entry zero. -/
@[simp] lemma frameOf_zero : frameOf 0 = none := rfl

/-- The frame behind an entry. -/
lemma frameOf_eq_some {e f : ℕ} : frameOf e = some f ↔ e ≠ 0 ∧ e / 4096 = f := by
  unfold frameOf
  split_ifs with h <;> simp [h]

/-- Only the entry zero has nothing behind it. -/
lemma frameOf_eq_none {e : ℕ} : frameOf e = none ↔ e = 0 := by
  unfold frameOf
  split_ifs with h <;> simp [h]

namespace Sys

variable {s : Sys} {sp sp' : Space} {d d' i i' j j' e f t : ℕ}

/-- The directory entries that belong to a space. -/
def Covers (s : Sys) : Space → ℕ → Prop
  | .kernel, i => 769 ≤ i ∧ i < 896
  | .task d, i => d ∈ s.dirs ∧ i < 768

instance (s : Sys) (sp : Space) (i : ℕ) : Decidable (s.Covers sp i) := by
  cases sp
  · exact inferInstanceAs (Decidable (_ ∧ _))
  · exact inferInstanceAs (Decidable (_ ∧ _))

/-- The word of the space's directory at index `i`. -/
def rootWord (s : Sys) : Space → ℕ → ℕ
  | .kernel, i => s.mm.kernelPageDirectory i
  | .task d, i => s.mm.mem (d / 4096) i

/-- The directory entry `i` of a space, zero outside of the space. -/
def tableEntry (s : Sys) (sp : Space) (i : ℕ) : ℕ := if s.Covers sp i then s.rootWord sp i else 0

/-- The entry `j` of the page table of directory entry `i`, zero when there is no such table. -/
def pageEntry (s : Sys) (sp : Space) (i j : ℕ) : ℕ :=
  if s.tableEntry sp i = 0 ∨ 1024 ≤ j then 0 else s.mm.mem (s.tableEntry sp i / 4096) j

/-- The frame at a place. -/
def own (s : Sys) : Place → Option ℕ
  | .dir d => if d ∈ s.dirs then some (d / 4096) else none
  | .table sp i => frameOf (s.tableEntry sp i)
  | .page sp i j => frameOf (s.pageEntry sp i j)

/-- The system with another memory manager. -/
def withMm (s : Sys) (mm : Mm) : Sys := { s with mm := mm }

/-- The memory manager that has been put in. -/
@[simp] lemma withMm_mm (s : Sys) (mm : Mm) : (s.withMm mm).mm = mm := rfl

/-- Only the last memory manager that has been put in counts. -/
@[simp] lemma withMm_withMm (s : Sys) (mm mm' : Mm) : (s.withMm mm).withMm mm' = s.withMm mm' := rfl

/-! ## What the ledger depends on -/

/-- Directory entries are read off the directories. -/
lemma tableEntry_congr {s' : Sys} (hmem : s'.mm.mem = s.mm.mem)
    (hkpd : s'.mm.kernelPageDirectory = s.mm.kernelPageDirectory) (hdirs : s'.dirs = s.dirs)
    (sp : Space) (i : ℕ) : s'.tableEntry sp i = s.tableEntry sp i := by
  have hcov : s'.Covers sp i ↔ s.Covers sp i := by cases sp <;> simp [Covers, hdirs]
  unfold tableEntry
  simp only [hcov]
  cases sp <;> simp [rootWord, hmem, hkpd]

/-- Page entries are read off the directories and tables. -/
lemma pageEntry_congr {s' : Sys} (hmem : s'.mm.mem = s.mm.mem)
    (hkpd : s'.mm.kernelPageDirectory = s.mm.kernelPageDirectory) (hdirs : s'.dirs = s.dirs)
    (sp : Space) (i j : ℕ) : s'.pageEntry sp i j = s.pageEntry sp i j := by
  unfold pageEntry
  rw [tableEntry_congr hmem hkpd hdirs, hmem]

/-- The ledger is read off the directories and tables. -/
lemma own_congr {s' : Sys} (hmem : s'.mm.mem = s.mm.mem)
    (hkpd : s'.mm.kernelPageDirectory = s.mm.kernelPageDirectory) (hdirs : s'.dirs = s.dirs) :
    s'.own = s.own := by
  funext p
  cases p with
  | dir d => simp [own, hdirs]
  | table sp i => exact congrArg frameOf (tableEntry_congr hmem hkpd hdirs sp i)
  | page sp i j => exact congrArg frameOf (pageEntry_congr hmem hkpd hdirs sp i j)

/-- A live directory is at its own frame. -/
lemma own_dir (hd : d ∈ s.dirs) : s.own (.dir d) = some (d / 4096) := if_pos hd

/-- The table an entry names is at the frame of the entry. -/
lemma own_table (h : s.tableEntry sp i ≠ 0) :
    s.own (.table sp i) = some (s.tableEntry sp i / 4096) := if_neg h

/-- A nonzero directory entry is inside its space. -/
lemma covers_of_tableEntry (h : s.tableEntry sp i ≠ 0) : s.Covers sp i := by
  by_contra hc
  exact h (if_neg hc)

/-- A page needs a table. -/
lemma tableEntry_of_pageEntry (h : s.pageEntry sp i j ≠ 0) : s.tableEntry sp i ≠ 0 ∧ j < 1024 := by
  have hc : ¬ (s.tableEntry sp i = 0 ∨ 1024 ≤ j) := fun hc => h (if_pos hc)
  rw [not_or, not_le] at hc
  exact hc

/-- The frames of directories and tables: the frames whose content the ledger reads. -/
def IsNode (s : Sys) (f : ℕ) : Prop :=
  (∃ d, s.own (.dir d) = some f) ∨ ∃ sp i, s.own (.table sp i) = some f

/-! ## Writing a frame that is no directory and no table -/

/-- Directory entries do not change when another frame is written. -/
lemma tableEntry_put {page : ℕ → ℕ} (hf : ¬ ∃ d, s.own (.dir d) = some f) :
    (s.withMm (s.mm.put f page)).tableEntry sp i = s.tableEntry sp i := by
  have hcov : (s.withMm (s.mm.put f page)).Covers sp i ↔ s.Covers sp i := by cases sp <;> rfl
  unfold tableEntry
  simp only [hcov]
  split_ifs with hc
  · cases sp with
    | kernel => rfl
    | task d =>
      have hne : d / 4096 ≠ f := fun he => hf ⟨d, he ▸ own_dir hc.1⟩
      change Function.update s.mm.mem f page (d / 4096) i = _
      rw [Function.update_of_ne hne]
      rfl
  · rfl

/-- **Writing a frame that is neither a directory nor a table leaves the ledger alone.** -/
lemma own_put_of_free {page : ℕ → ℕ} (hf : ¬ s.IsNode f) :
    (s.withMm (s.mm.put f page)).own = s.own := by
  rw [IsNode, not_or] at hf
  funext p
  cases p with
  | dir d => rfl
  | table sp i =>
    change frameOf _ = frameOf _
    rw [tableEntry_put hf.1]
  | page sp i j =>
    change frameOf _ = frameOf _
    unfold pageEntry
    rw [tableEntry_put hf.1]
    split_ifs with hc
    · rfl
    · rw [not_or] at hc
      have hne : s.tableEntry sp i / 4096 ≠ f := fun he => hf.2 ⟨sp, i, he ▸ own_table hc.1⟩
      change frameOf (Function.update s.mm.mem f page _ j) = _
      rw [Function.update_of_ne hne]

/-! ## Writing an entry of a page table -/

/-- The page entries after an entry of a page table is written.

**Proof sketch.** The table is at one place, so every other table and every directory is at another
frame and reads the same words. -/
lemma pageEntry_put_entry (hs : Ledger.Sound s.own s.mm.used) (ht : s.own (.table sp i) = some t)
    (hj : j < 1024) (sp' : Space) (i' j' : ℕ) :
    (s.withMm (s.mm.put t (Function.update (s.mm.mem t) j e))).pageEntry sp' i' j' =
      if Place.page sp' i' j' = Place.page sp i j then e else s.pageEntry sp' i' j' := by
  have hdir : ¬ ∃ d, s.own (.dir d) = some t := by
    rintro ⟨d, hd⟩
    exact absurd (hs.inj hd ht) (by simp)
  obtain ⟨htz, htf⟩ := frameOf_eq_some.mp ht
  unfold pageEntry
  rw [tableEntry_put hdir]
  by_cases hz : s.tableEntry sp' i' = 0 ∨ 1024 ≤ j'
  · have hne : ¬ (Place.page sp' i' j' = Place.page sp i j) := by
      rintro ⟨⟩
      rcases hz with hz | hz
      · exact htz hz
      · omega
    rw [if_pos hz, if_neg hne, if_pos hz]
  · rw [if_neg hz, if_neg hz]
    change Function.update s.mm.mem t _ _ j' = _
    by_cases hti : Place.table sp' i' = Place.table sp i
    · obtain ⟨rfl, rfl⟩ : sp' = sp ∧ i' = i := by simpa using hti
      rw [htf, Function.update_self, Function.update_apply]
      simp
    · have hne : s.tableEntry sp' i' / 4096 ≠ t :=
        fun he => hti (hs.inj (he ▸ own_table (not_or.mp hz).1) ht)
      have hpp : ¬ (Place.page sp' i' j' = Place.page sp i j) := by
        rintro ⟨⟩
        exact hti rfl
      rw [Function.update_of_ne hne, if_neg hpp]

/-- **Writing an entry of a page table** changes the ledger at that entry's page only. -/
lemma own_put_entry (hs : Ledger.Sound s.own s.mm.used) (ht : s.own (.table sp i) = some t)
    (hj : j < 1024) : (s.withMm (s.mm.put t (Function.update (s.mm.mem t) j e))).own =
      Function.update s.own (.page sp i j) (frameOf e) := by
  have hdir : ¬ ∃ d, s.own (.dir d) = some t := by
    rintro ⟨d, hd⟩
    exact absurd (hs.inj hd ht) (by simp)
  funext p
  cases p with
  | dir d => rw [Function.update_of_ne (by simp)]; rfl
  | table sp' i' =>
    rw [Function.update_of_ne (by simp)]
    exact congrArg frameOf (tableEntry_put hdir)
  | page sp' i' j' =>
    rw [Function.update_apply]
    change frameOf (Sys.pageEntry _ sp' i' j') = _
    rw [pageEntry_put_entry hs ht hj]
    split_ifs
    · rfl
    · rfl

/-! ## Writing an entry of a directory -/

/-- A directory entry changes, and no page comes or goes with it: what is the same afterwards. -/
lemma pageEntry_set_table {s' : Sys}
    (hother : ∀ sp' i', Place.table sp' i' ≠ Place.table sp i →
      s'.tableEntry sp' i' = s.tableEntry sp' i')
    (hmem : ∀ sp' i', Place.table sp' i' ≠ Place.table sp i → s.tableEntry sp' i' ≠ 0 →
      s'.mm.mem (s.tableEntry sp' i' / 4096) = s.mm.mem (s.tableEntry sp' i' / 4096))
    (hold : ∀ j, s.pageEntry sp i j = 0) (hnew : ∀ j, s'.pageEntry sp i j = 0) (sp' : Space)
    (i' j : ℕ) : s'.pageEntry sp' i' j = s.pageEntry sp' i' j := by
  by_cases h : Place.table sp' i' = Place.table sp i
  · obtain ⟨rfl, rfl⟩ : sp' = sp ∧ i' = i := by simpa using h
    rw [hnew j, hold j]
  · unfold pageEntry
    rw [hother sp' i' h]
    split_ifs with hz
    · rfl
    · rw [hmem sp' i' h (not_or.mp hz).1]

/-- The ledger when a directory entry is the only entry that changes. -/
lemma own_set_table {s' : Sys} (hdirs : s'.dirs = s.dirs)
    (htable : ∀ sp' i', s'.tableEntry sp' i' =
      if Place.table sp' i' = Place.table sp i then e else s.tableEntry sp' i')
    (hpage : ∀ sp' i' j, s'.pageEntry sp' i' j = s.pageEntry sp' i' j) :
    s'.own = Function.update s.own (.table sp i) (frameOf e) := by
  funext p
  cases p with
  | dir d =>
    rw [Function.update_of_ne (by simp)]
    simp [own, hdirs]
  | table sp' i' =>
    rw [Function.update_apply]
    change frameOf (s'.tableEntry sp' i') = _
    rw [htable]
    split_ifs
    · rfl
    · rfl
  | page sp' i' j =>
    rw [Function.update_of_ne (by simp)]
    exact congrArg frameOf (hpage sp' i' j)

/-- The directory entries after an entry of a task's directory is written. -/
lemma tableEntry_put_directory (hs : Ledger.Sound s.own s.mm.used) (hd : d ∈ s.dirs) (hi : i < 768)
    (sp' : Space) (i' : ℕ) : (s.withMm (s.mm.put (d / 4096)
        (Function.update (s.mm.mem (d / 4096)) i e))).tableEntry sp' i' =
      if Place.table sp' i' = Place.table (.task d) i then e else s.tableEntry sp' i' := by
  have hcov : (s.withMm (s.mm.put (d / 4096)
      (Function.update (s.mm.mem (d / 4096)) i e))).Covers sp' i' ↔ s.Covers sp' i' := by
    cases sp' <;> rfl
  unfold tableEntry
  simp only [hcov]
  cases sp' with
  | kernel => simp [rootWord, withMm, Mm.put]
  | task d' =>
    by_cases hdd : d' = d
    · subst hdd
      by_cases hii : i' = i
      · subst hii
        simp [rootWord, withMm, Mm.put, Covers, hd, hi]
      · simp [rootWord, withMm, Mm.put, hii]
    · have hne : ¬ (Place.table (.task d') i' = Place.table (.task d) i) := by
        simp [hdd]
      rw [if_neg hne]
      split_ifs with hc
      · have hframe : d' / 4096 ≠ d / 4096 := by
          refine hs.ne (own_dir hc.1) (own_dir hd) ?_
          simpa using hdd
        simp [rootWord, withMm, Mm.put, hframe]
      · rfl

/-- **The page entries after an entry of a task's directory is written**, when the table that leaves
and the table that comes have no pages. -/
lemma pageEntry_put_directory (hs : Ledger.Sound s.own s.mm.used) (hd : d ∈ s.dirs) (hi : i < 768)
    (hold : ∀ j, s.pageEntry (.task d) i j = 0)
    (hnew : e = 0 ∨ e / 4096 ≠ d / 4096 ∧ ∀ j < 1024, s.mm.mem (e / 4096) j = 0) (sp' : Space)
    (i' j' : ℕ) : (s.withMm (s.mm.put (d / 4096)
        (Function.update (s.mm.mem (d / 4096)) i e))).pageEntry sp' i' j' =
      s.pageEntry sp' i' j' := by
  have hentry := tableEntry_put_directory (e := e) hs hd hi
  have hself := hentry (.task d) i
  rw [if_pos rfl] at hself
  refine pageEntry_set_table ?_ ?_ hold ?_ sp' i' j'
  · intro sp' i' h
    rw [hentry, if_neg h]
  · intro sp' i' _ hz
    have hne : s.tableEntry sp' i' / 4096 ≠ d / 4096 := hs.ne (own_table hz) (own_dir hd) (by simp)
    exact Function.update_of_ne hne _ _
  · intro j
    unfold pageEntry
    rw [hself]
    split_ifs with hz
    · rfl
    · rw [not_or, not_le] at hz
      obtain ⟨hne, hzero⟩ := hnew.resolve_left hz.1
      change Function.update s.mm.mem (d / 4096) _ (e / 4096) j = 0
      rw [Function.update_of_ne hne]
      exact hzero j hz.2

/-- The directory entries after an entry of the kernel's directory is written in the heap's range.
-/
lemma tableEntry_putKernel (hi : 769 ≤ i ∧ i < 896) (sp' : Space) (i' : ℕ) :
    (s.withMm (s.mm.putKernel i e)).tableEntry sp' i' =
      if Place.table sp' i' = Place.table .kernel i then e else s.tableEntry sp' i' := by
  have hcov : (s.withMm (s.mm.putKernel i e)).Covers sp' i' ↔ s.Covers sp' i' := by
    cases sp' <;> rfl
  unfold tableEntry
  simp only [hcov]
  cases sp' with
  | kernel =>
    by_cases hii : i' = i
    · subst hii
      have hc : s.Covers .kernel i' := hi
      simp [rootWord, withMm, Mm.putKernel, hc]
    · simp [rootWord, withMm, Mm.putKernel, hii]
  | task d =>
    have hne : ¬ (Place.table (.task d) i' = Place.table .kernel i) := by simp
    rw [if_neg hne]
    rfl

/-- The page entries after an entry of the kernel's directory is written, when neither table has
pages. -/
lemma pageEntry_putKernel (hi : 769 ≤ i ∧ i < 896) (hold : ∀ j, s.pageEntry .kernel i j = 0)
    (hnew : ∀ j < 1024, s.mm.mem (e / 4096) j = 0) (sp' : Space) (i' j' : ℕ) :
    (s.withMm (s.mm.putKernel i e)).pageEntry sp' i' j' = s.pageEntry sp' i' j' := by
  have hentry := tableEntry_putKernel (s := s) (e := e) hi
  have hself := hentry .kernel i
  rw [if_pos rfl] at hself
  refine pageEntry_set_table ?_ ?_ hold ?_ sp' i' j'
  · intro sp' i' h
    rw [hentry, if_neg h]
  · exact fun _ _ _ _ => rfl
  · intro j
    unfold pageEntry
    rw [hself]
    split_ifs with hz
    · rfl
    · rw [not_or, not_le] at hz
      exact hnew j hz.2

end Sys

end AlphaOS
