import AlphaOS.Lib.Reach
import AlphaOS.Mm.Heap
import AlphaOS.Mm.MapLoop
import AlphaOS.Mm.Tasks
import AlphaOS.Mm.UnmapLoop
import Mathlib.Order.Interval.Finset.Nat

set_option relaxedAutoImplicit false
set_option autoImplicit false

/-!
# The memory system as a transition system

The kernel heap, the tasks' address spaces and the bitmap change by the calls of seven kinds, in any
order and by any task. Every reachable state meets the invariant, so no frame is ever used twice.

## Main definitions

* `AlphaOS.Sys.Event`, `AlphaOS.Sys.Step` — the calls, and what they do.
* `AlphaOS.Sys.Boot` — the state `init_memory` leaves.

## Main results

* `AlphaOS.Sys.inv_of_reach` — every reachable state meets the invariant.
* `AlphaOS.Sys.frames_exclusive` — every frame at a place is recorded as used, and is at that place
  only.
-/

namespace AlphaOS

namespace Sys

variable {s s' : Sys} {d v n : ℕ}

/-- The calls that change the memory system. -/
inductive Event
  /-- `mmap(n, PAGE_PRESENT | PAGE_WRITABLE)` of the kernel heap. -/
  | mmap (n : ℕ)
  /-- `unmmap` of `n` heap pages from page `v` on. -/
  | unmmap (v n : ℕ)
  /-- `mmap_ring3`, with the content of the code page. -/
  | create (code : ℕ → ℕ)
  /-- `sys_mmap(_, len)` by the task with page directory `d`. -/
  | sysMmap (d len : ℕ)
  /-- `sys_munmap(addr, len)` by the task with page directory `d`. -/
  | sysMunmap (d addr len : ℕ)
  /-- `unmmap_ring3(d)`. -/
  | destroy (d : ℕ)
  /-- Stores of the kernel or of a task into a mapped page. -/
  | store (f : ℕ) (page : ℕ → ℕ)

/-- The state after a call. -/
def exec (s : Sys) : Event → Sys
  | .mmap n => s.withMm (s.mm.mmap n kernelFlags).2
  | .unmmap v n => s.withMm (s.mm.unmmap (Mm.heapAddr v) n)
  | .create code => ⟨(s.mm.mmapRing3 code).2, (s.mm.mmapRing3 code).1 :: s.dirs⟩
  | .sysMmap d len => s.withMm (s.mm.sysMmap d len).2
  | .sysMunmap d addr len => s.withMm (s.mm.sysMunmap d addr len)
  | .destroy d => ⟨s.mm.unmmapRing3 d, s.dirs.erase d⟩
  | .store f page => s.withMm (s.mm.put f page)

/-- When a call is made: `unmmap` on mapped heap pages, the calls of tasks by live tasks, `sys_mmap`
for a length that is not zero and fits in the user half, `sys_munmap` when it reaches mapped entries
of the user half only. -/
def Enabled (s : Sys) : Event → Prop
  | .mmap _ => True
  | .unmmap v n => v + n ≤ kheapPagesNum ∧ ∀ k < n, s.own (heapPage (v + k)) ≠ none
  | .create _ => True
  | .sysMmap d len => d ∈ s.dirs ∧ 0 < len ∧ Mm.totalPages len ≤ s.holes d (768 * 1024)
  | .sysMunmap d addr len => d ∈ s.dirs ∧ s.Clears d addr len
  | .destroy d => d ∈ s.dirs
  | .store f _ => ∃ sp i j, s.own (.page sp i j) = some f

/-- A call whose searches for frames and heap pages all succeed. -/
def Step (s : Sys) (e : Event) (s' : Sys) : Prop :=
  s.Enabled e ∧ s' = s.exec e ∧ s'.mm.overrun = false

/-- The state after `init_memory`: no task, no heap page, and the frames of the kernel's own tables
recorded as used. -/
structure Boot (s : Sys) : Prop where
  dirs : s.dirs = []
  size : s.mm.bitmapSize ≤ 2 ^ 20
  quiet : s.mm.overrun = false
  heap : ∀ i, 769 ≤ i → i < 896 → s.mm.kernelPageDirectory i = 0
  pages : ∀ v, s.mm.kheapPages v = 0
  reserved : ∀ f, s.Reserved f → s.mm.used f ∧ f < 2 ^ 20

/-- No place holds a frame at boot. -/
lemma Boot.own (h : Boot s) (p : Place) : s.own p = none := by
  have htable (sp : Space) (i : ℕ) : s.tableEntry sp i = 0 := by
    unfold tableEntry
    split_ifs with hc
    · cases sp with
      | kernel => exact h.heap i hc.1 hc.2
      | task d =>
        have hd : d ∈ s.dirs := hc.1
        rw [h.dirs] at hd
        exact absurd hd (List.not_mem_nil)
    · rfl
  cases p with
  | dir d => simp [Sys.own, h.dirs]
  | table sp i => exact frameOf_eq_none.mpr (htable sp i)
  | page sp i j => exact frameOf_eq_none.mpr (if_pos (.inl (htable sp i)))

/-- The invariant holds at boot. -/
lemma Boot.inv (h : Boot s) : Inv s := by
  have hpage (sp : Space) (i j : ℕ) : s.pageEntry sp i j = 0 :=
    frameOf_eq_none.mp (h.own (.page sp i j))
  refine ⟨h.size, h.quiet, ⟨?_, ?_⟩, ?_, ?_, ?_, ?_, ?_, ?_, fun hf => (h.reserved _ hf).2, ?_,
    fun d => h.own _, ?_⟩
  · intro p f hp
    rw [h.own] at hp
    exact absurd hp (by simp)
  · intro p q f hp
    rw [h.own] at hp
    exact absurd hp (by simp)
  · intro p f hp
    rw [h.own] at hp
    exact absurd hp (by simp)
  · intro sp i hne
    exact absurd (frameOf_eq_none.mp (h.own (.table sp i))) hne
  · intro sp i j hne
    exact absurd (hpage sp i j) hne
  · rw [h.dirs]
    exact List.nodup_nil
  · rw [h.dirs]
    exact fun d hd => absurd hd List.not_mem_nil
  · exact fun hf => ⟨(h.reserved _ hf).1, fun p => by rw [h.own]; simp⟩
  · intro i j hne
    exact absurd (hpage .kernel i j) hne
  · rw [h.dirs]
    exact fun d hd => absurd hd List.not_mem_nil

/-- The number of pages is the length in pages, rounded up. -/
lemma totalPages_eq (len : ℕ) : Mm.totalPages len = (len + 4095) / 4096 := by
  unfold Mm.totalPages
  split_ifs <;> omega

/-- A call of `sys_mmap` that is made and whose searches succeed does what it is for. -/
lemma Inv.sysMmap {len : ℕ} (h : Inv s) (hen : s.Enabled (.sysMmap d len))
    (hok : (s.exec (.sysMmap d len)).mm.overrun = false) :
    Done s d (Mm.totalPages len) (s.mm.sysMmap d len) := by
  obtain ⟨hd, hlen, hroom⟩ := hen
  refine (sysMmap_spec h hd ?_ hroom).resolve_left fun hfail => ?_
  · rw [totalPages_eq]
    omega
  · rw [exec, withMm_mm, hfail.1] at hok
    exact absurd hok (by simp)

/-- A call of `sys_mmap` for which there are enough frames and user pages. -/
lemma Inv.sysMmap_of_enough {len : ℕ} (h : Inv s) (hd : d ∈ s.dirs) (hlen : 0 < len)
    (henough : s.Enough d (Mm.totalPages len)) :
    Done s d (Mm.totalPages len) (s.mm.sysMmap d len) := by
  have hroom : Mm.totalPages len ≤ s.holes d (768 * 1024) := by
    obtain ⟨p, hp, hcount, -⟩ := henough
    rw [← hcount]
    exact Nat.count_monotone _ hp
  refine (sysMmap_spec h hd ?_ hroom).resolve_left fun hfail => hfail.2 henough
  rw [totalPages_eq]
  omega

/-- `mmap` of no pages does nothing. -/
lemma mmap_zero (hok : (s.mm.mmap 0 kernelFlags).2.overrun = false) :
    (s.mm.mmap 0 kernelFlags).2 = s.mm := by
  have hflag : (s.mm.overrun || decide (s.mm.virtLast 0 = kheapPagesNum)) = s.mm.overrun := by
    have : (s.mm.overrun || decide (s.mm.virtLast 0 = kheapPagesNum)) = false := hok
    rw [Bool.or_eq_false_iff] at this
    rw [this.1, this.2]
    rfl
  rw [Mm.mmap, hflag]
  rfl

/-- **Every call keeps the invariant.** -/
theorem Inv.step {e : Event} (h : Inv s) (hs : Step s e s') : Inv s' := by
  obtain ⟨hen, rfl, hok⟩ := hs
  cases e with
  | mmap n =>
    rcases Nat.eq_zero_or_pos n with rfl | hn
    · rw [exec, mmap_zero hok]
      exact h
    · exact (h.mmap hn hok).1.inv
  | unmmap v n => exact (h.unmmap hen.1 hen.2).inv
  | create code => exact (h.mmapRing3 hok).inv
  | sysMmap d len => 
    obtain ⟨p, -, -, hfilled, -⟩ := h.sysMmap hen hok
    exact hfilled.inv
  | sysMunmap d addr len => exact (sysMunmap_spec h hen.1 hen.2).inv
  | destroy d => exact (h.unmmapRing3 hen).inv
  | store f page =>
    obtain ⟨sp, i, j, hf⟩ := hen
    refine h.put ?_ page
    rintro (⟨d, hd⟩ | ⟨sp', i', hi⟩)
    · exact absurd (h.sound.inj hd hf) (by simp)
    · exact absurd (h.sound.inj hi hf) (by simp)

/-- **Every reachable state meets the invariant**, whatever further guard the runs obey. -/
theorem inv_of_reach {ok : Sys → Event → Prop} (h : Transition.Reach Boot Step ok s) : Inv s :=
  h.invariant (fun _ => Boot.inv) fun _ _ _ hinv _ hs => hinv.step hs

/-! ## Exclusive ownership -/

/-- **No frame is used twice.** In every state reached by any interleaving of the calls, a frame
that is a page or a page table of the kernel heap, or a page, a page table or the page directory of
a task, is recorded as used and is used at that one place only.

**Proof sketch.** Induction on the run, with the owner of every place as the invariant: a call gives
a place a frame that was free, and frees a frame when it empties the only place that has it. -/
theorem frames_exclusive (h : Transition.Reach Boot Step (fun _ _ => True) s) :
    (∀ p f, s.own p = some f → s.mm.used f) ∧
      ∀ p q f, s.own p = some f → s.own q = some f → p = q :=
  ⟨fun _ _ hp => (inv_of_reach h).sound.used_of_own hp,
    fun _ _ _ hp hq => (inv_of_reach h).sound.inj hp hq⟩

/-- A state after boot: 16 MiB of memory with the kernel in the first 2 MiB, and the boot page table
in frame `0x111`. -/
def bootState : Sys where
  mm := {
    bitmap := fun k => if k < 64 then 0xFF else 0
    bitmapSize := 4096
    mem := fun f j => if f = 0x111 then entry (j * 4096) kernelFlags else 0
    kernelPageDirectory := fun i => if i = 0 ∨ i = 768 then entry 0x111000 kernelFlags else 0
    kheapPages := fun _ => 0
    tmpPte := 0
    overrun := false }
  dirs := []

/-- The frames in use after boot are those below 2 MiB. -/
lemma bootState_used (f : ℕ) : bootState.mm.used f ↔ f < 512 := by
  have hones : ∀ k : Fin 8, (0xFF#8).getLsbD k.val = true := by decide
  rw [Mm.used, Bits.get_eq_getLsbD]
  change (if f / 8 < 64 then 0xFF#8 else 0#8).getLsbD (f % 8) = true ↔ f < 512
  split_ifs with hk
  · have := hones ⟨f % 8, Nat.mod_lt f (by omega)⟩
    simp only [this, true_iff]
    omega
  · simp only [BitVec.getLsbD_zero, Bool.false_eq_true, false_iff]
    omega

/-- The entries of the directory after boot are those of the boot page table. -/
lemma bootState_directory {i : ℕ} (hne : bootState.mm.kernelPageDirectory i ≠ 0) :
    bootState.mm.kernelPageDirectory i = 0x111003 := by
  have hi : i = 0 ∨ i = 768 := by
    by_contra hn
    exact hne (if_neg hn)
  change (if i = 0 ∨ i = 768 then entry 0x111000 kernelFlags else 0) = _
  rw [if_pos hi]
  decide

/-- The state is one after boot. -/
lemma boot_bootState : Boot bootState := by
  refine ⟨rfl, by decide, rfl, ?_, fun _ => rfl, ?_⟩
  · intro i h₁ h₂
    exact if_neg (by omega)
  · rintro f (rfl | ⟨i, -, -, -, hne, hf⟩)
    · exact ⟨(bootState_used 0).mpr (by omega), by omega⟩
    · rw [bootState_directory hne] at hf
      exact ⟨(bootState_used f).mpr (by omega), by omega⟩

/-- There are many free frames after boot. -/
lemma bootState_freeCount : 3584 ≤ bootState.mm.freeCount := by
  have hsub : Finset.Ico 512 4096 ⊆ bootState.mm.freeFrames := by
    intro f hf
    rw [Finset.mem_Ico] at hf
    rw [Mm.mem_freeFrames, bootState_used]
    exact ⟨hf.2, by omega⟩
  have := Finset.card_le_card hsub
  rw [Nat.card_Ico] at this
  exact this

/-- The state after boot, a heap page for the kernel and the first task. -/
def taskState : Sys := (bootState.exec (.mmap 1)).exec (.create fun _ => 0)

/-- The page directory of the first task. -/
def firstTask : ℕ := ((bootState.exec (.mmap 1)).mm.mmapRing3 fun _ => 0).1

/-- The heap page is mapped after boot. -/
lemma heapGrown_boot : HeapGrown 0 1 bootState (bootState.exec (.mmap 1)) ∧
    (bootState.exec (.mmap 1)).mm.overrun = false ∧
    3582 ≤ (bootState.exec (.mmap 1)).mm.freeCount := by
  have hcount := bootState_freeCount
  have hinv := boot_bootState.inv
  obtain ⟨hok, hfree⟩ := hinv.mmap_quiet (n := 1) (v := 0) (by omega) (by omega) (by decide)
    fun w _ _ => boot_bootState.pages w
  have hidx : bootState.mm.freeVirtAreaIdx 1 = 0 := by decide
  have hgrown := (hinv.mmap (n := 1) (by omega) hok).1
  rw [hidx] at hgrown
  exact ⟨hgrown, hok, by rw [exec, withMm_mm]; omega⟩

/-- The first task is made. -/
lemma created_taskState : Created (bootState.exec (.mmap 1)) firstTask taskState := by
  obtain ⟨hgrown, -, hcount⟩ := heapGrown_boot
  exact hgrown.inv.mmapRing3 (hgrown.inv.mmapRing3_quiet (by omega) _)

/-- The first task is alive. -/
lemma firstTask_mem : firstTask ∈ taskState.dirs := by
  rw [created_taskState.dirs]
  exact List.mem_cons_self ..

/-- The run to the first task, under any guard that lets its two calls pass. -/
lemma reach_taskState {ok : Sys → Event → Prop} (h₁ : ok bootState (.mmap 1))
    (h₂ : ok (bootState.exec (.mmap 1)) (.create fun _ => 0)) :
    Transition.Reach Boot Step ok taskState :=
  .next (.next (.start boot_bootState) h₁ ⟨trivial, rfl, heapGrown_boot.2.1⟩) h₂
    ⟨trivial, rfl, created_taskState.inv.quiet⟩

/-- After the first task has been made, its directory is recorded as used and is nothing else. -/
theorem frames_exclusive_taskState :
    taskState.own (.dir firstTask) = some (firstTask / 4096) ∧
    taskState.mm.used (firstTask / 4096) ∧
    ∀ q, taskState.own q = some (firstTask / 4096) → .dir firstTask = q := by
  have hown := own_dir firstTask_mem
  have hreach : Transition.Reach Boot Step (fun _ _ => True) taskState :=
    reach_taskState trivial trivial
  exact ⟨hown, (frames_exclusive hreach).1 _ _ hown,
    fun q hq => (frames_exclusive hreach).2 _ q _ hown hq⟩

end Sys

end AlphaOS
