import AlphaOS.Mm.System

set_option relaxedAutoImplicit false
set_option autoImplicit false

/-!
# The kernel's half of the tasks' directories

`mmap_ring3` copies the kernel's half of the page directory once. Page tables that `mmap` installs
for the kernel heap afterwards are not copied, so a heap page behind such a table has no translation
while the task's directory is loaded. The directories agree in every run in which no page table of
the heap is installed while there is a task.

## Main definitions

* `AlphaOS.Sys.Agrees` — every task's directory has the kernel's entries in the kernel's half.
* `AlphaOS.Sys.TablesPresent` — a call of `mmap` finds the tables for its pages, or there is no
  task.

## Main results

* `AlphaOS.Sys.directories_agree` — runs whose calls of `mmap` all find their tables.
* `AlphaOS.Sys.kmalloc_breaks_agreement` — a run in which the kernel asks for 4 MiB.

## Design

`kmalloc` and `kfree` change the page tables through `mmap` and `unmmap` only; what else they do are
stores into pages of the heap. A task switch loads another directory and changes none.
-/

namespace AlphaOS

namespace Sys

variable {s s' : Sys} {d i : ℕ}

/-- The directory of every task agrees with `kernel_page_directory` on the entries 768 to 1023. -/
def Agrees (s : Sys) : Prop := ∀ d ∈ s.dirs, ∀ i, 768 ≤ i → i < 1024 →
  s.mm.mem (d / 4096) i = s.mm.kernelPageDirectory i

/-- A call of `mmap` finds the page tables for the heap pages it is going to map, or there is no
task; other calls are not restricted. -/
def TablesPresent (s : Sys) : Event → Prop
  | .mmap n => s.dirs = [] ∨ ∀ v, s.mm.freeVirtAreaIdx n ≤ v → v < s.mm.freeVirtAreaIdx n + n →
      s.mm.kernelPageDirectory (769 + v / 1024) ≠ 0
  | _ => True

/-- A change that leaves the directories' kernel halves alone keeps the agreement. -/
lemma Agrees.of_eq (h : Agrees s) (hdirs : ∀ d ∈ s'.dirs, d ∈ s.dirs)
    (hmem : ∀ d ∈ s'.dirs, ∀ i, 768 ≤ i → s'.mm.mem (d / 4096) i = s.mm.mem (d / 4096) i)
    (hkernel : ∀ d ∈ s'.dirs, s'.mm.kernelPageDirectory = s.mm.kernelPageDirectory) :
      Agrees s' := by
  intro d hd i hi hi'
  rw [hmem d hd i hi, hkernel d hd]
  exact h d (hdirs d hd) i hi hi'

/-- A confined change keeps the agreement. -/
lemma Agrees.confined (h : Agrees s) (hinv : Inv s) (hc : Confined d s s') : Agrees s' := by
  refine h.of_eq (fun _ => hc.dirs ▸ id) (fun d' hd' i hi => ?_) fun _ _ => hc.kernel
  rw [hc.dirs] at hd'
  by_cases hdd : d' = d
  · rw [hdd]
    exact hc.upper hi
  · have hne : ¬ (Place.dir d').OfTask d := hdd
    exact congrFun (hc.alien (hinv.alien hne (own_dir hd'))).2 i

/-- **Every call that finds its tables keeps the agreement.** -/
lemma Agrees.step {e : Event} (h : Agrees s) (hinv : Inv s) (hok : s.TablesPresent e)
    (hs : Step s e s') : Agrees s' := by
  obtain ⟨hen, rfl, hquiet⟩ := hs
  cases e with
  | mmap n =>
    rcases Nat.eq_zero_or_pos n with rfl | hn
    · rw [exec, mmap_zero hquiet]
      exact h
    · have hgrown := (hinv.mmap hn hquiet).1
      refine h.of_eq (fun _ hd => hd) (fun d hd i _ => congrFun (hgrown.step.tasks hd) i) ?_
      intro d hd
      have hpresent := hok.resolve_left fun he => absurd (he ▸ hd : d ∈ []) List.not_mem_nil
      funext i
      by_contra hne
      obtain ⟨v, h₁, h₂, rfl⟩ := hgrown.only hne
      exact hne (hgrown.step.kept (hpresent v h₁ h₂))
  | unmmap v n =>
    have hshrunk := hinv.unmmap hen.1 hen.2
    exact h.of_eq (fun _ hd => hd) (fun d hd i _ => congrFun (hshrunk.step.tasks hd) i)
      fun _ _ => hshrunk.kernel
  | create code =>
    have hnew := hinv.mmapRing3 hquiet
    rw [exec]
    generalize (s.mm.mmapRing3 code).1 = d₀ at hnew ⊢
    generalize (s.mm.mmapRing3 code).2 = mm at hnew ⊢
    intro d hd i hi hi'
    rw [hnew.kernel]
    rcases List.mem_cons.mp hd with rfl | hd
    · exact hnew.upper hi hi'
    · rw [hnew.tasks hd]
      exact h d hd i hi hi'
  | sysMmap d len =>
    obtain ⟨p, -, -, hfilled, -⟩ := hinv.sysMmap hen hquiet
    exact h.confined hinv hfilled.confined
  | sysMunmap d addr len => exact h.confined hinv (sysMunmap_spec hinv hen.1 hen.2).confined
  | destroy d =>
    have hgone := hinv.unmmapRing3 hen
    refine h.of_eq (fun d' hd' => List.mem_of_mem_erase hd') (fun d' hd' i _ => ?_)
      fun _ _ => hgone.kernel
    obtain ⟨hne, hd'⟩ := hinv.nodup.mem_erase_iff.mp hd'
    exact congrFun (hgone.tasks hd' hne) i
  | store f page =>
    obtain ⟨sp, i, j, hf⟩ := hen
    refine h.of_eq (fun _ hd => hd) (fun d hd i _ => ?_) fun _ _ => rfl
    have hne : d / 4096 ≠ f := hinv.sound.ne (own_dir hd) hf (by simp)
    exact congrFun (Function.update_of_ne hne _ _) i

/-- **The directories agree** in every state of every run in which `mmap` finds the page tables for
its heap pages whenever there is a task; so a heap page has the same translation under every task's
directory as under the kernel's.

**Proof sketch.** Induction on the run: a new task gets a copy of the upper quarter of the kernel's
directory, and only `mmap` writes to this quarter of the kernel's directory later, when a table is
missing. -/
theorem directories_agree (h : Transition.Reach Boot Step TablesPresent s) :
    Agrees s ∧ ∀ d ∈ s.dirs, ∀ i j, s.pageEntry .kernel i j ≠ 0 →
      s.mm.mem (s.mm.mem (d / 4096) i / 4096) j = s.pageEntry .kernel i j := by
  have hagrees : Agrees s ∧ Inv s := by
    refine h.invariant (I := fun s => Agrees s ∧ Inv s) (fun s hb => ⟨?_, hb.inv⟩)
      fun s e s' hI hok hs => ⟨hI.1.step hI.2 hok hs, hI.2.step hs⟩
    rw [Agrees, hb.dirs]
    exact fun d hd => absurd hd List.not_mem_nil
  refine ⟨hagrees.1, fun d hd i j hne => ?_⟩
  obtain ⟨ht, hj⟩ := tableEntry_of_pageEntry hne
  have hcover : 769 ≤ i ∧ i < 896 := covers_of_tableEntry ht
  have hentry : s.tableEntry .kernel i = s.mm.kernelPageDirectory i :=
    if_pos (show s.Covers .kernel i from hcover)
  rw [hagrees.1 d hd i (by omega) (by omega), pageEntry, if_neg (not_or.mpr ⟨ht, by omega⟩), hentry]

/-- The first task is made after the kernel has mapped its first heap page, and then its directory
agrees. -/
theorem directories_agree_taskState : firstTask ∈ taskState.dirs ∧ Agrees taskState :=
  ⟨firstTask_mem, (directories_agree (reach_taskState (.inl rfl) trivial)).1⟩

/-- A task whose directory had no table for a heap page that has been mapped does not agree any
more. -/
lemma HeapGrown.not_agrees {lo k v : ℕ} (h : HeapGrown lo k s s') (hd : d ∈ s.dirs) (hlo : lo ≤ v)
    (hk : v < k) (hv : v < kheapPagesNum) (hzero : s.mm.mem (d / 4096) (769 + v / 1024) = 0) :
    ¬ Agrees s' := by
  intro hagrees
  have hv' : v < 130048 := hv
  have hword := hagrees d (h.step.dirs ▸ hd) (769 + v / 1024) (by omega) (by omega)
  rw [h.step.tasks hd, hzero] at hword
  exact h.tables hlo hk hword.symm

/-- **The agreement breaks** when the kernel allocates 4 MiB, which are 1025 pages with the header,
after the first task has been made: the heap then needs a second page table, which the task's
directory does not have. -/
theorem kmalloc_breaks_agreement :
    Transition.Reach Boot Step (fun _ _ => True) (taskState.exec (.mmap 1025)) ∧
      ¬ Agrees (taskState.exec (.mmap 1025)) := by
  obtain ⟨hheap, -, hcount⟩ := heapGrown_boot
  have hnew := created_taskState
  have hfree := hnew.count
  have hrun (w : ℕ) (hw : 1 ≤ w) : taskState.mm.kheapPages w = 0 := by
    rw [hnew.record, hheap.record (.inr hw)]
    rfl
  obtain ⟨hok, -⟩ := hnew.inv.mmap_quiet (n := 1025) (v := 1) (by omega) (by omega) (by decide)
    fun w hw _ => hrun w hw
  obtain ⟨hgrown, hbound, -⟩ := hnew.inv.mmap (n := 1025) (by omega) hok
  have hnum : kheapPagesNum = 130048 := by decide
  refine ⟨.next (a := .mmap 1025) (reach_taskState trivial trivial) trivial ⟨trivial, rfl, hok⟩, ?_⟩
  generalize taskState.mm.freeVirtAreaIdx 1025 = lo at hgrown hbound
  -- the last page of the run is behind a table that was missing
  refine hgrown.not_agrees (v := lo + 1024) firstTask_mem (by omega) (by omega) (by omega) ?_
  rw [hnew.upper (by omega) (by omega)]
  by_contra hne
  have hboot : bootState.mm.kernelPageDirectory (769 + (lo + 1024) / 1024) = 0 :=
    boot_bootState.heap _ (by omega) (by omega)
  obtain ⟨u, -, hu, he⟩ := hheap.only fun he => hne (he.trans hboot)
  omega

end Sys

end AlphaOS
