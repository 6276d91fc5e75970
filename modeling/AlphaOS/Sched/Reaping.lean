import AlphaOS.Sched.RoundRobin

set_option relaxedAutoImplicit false
set_option autoImplicit false

/-!
# Exiting and reaping

An exiting task unlinks itself while it still runs on its own stack and in its own address space;
the reaper frees these later. This file follows a task from `create_task` to `kfree` over any run:
the reaper frees each exited task once, in the order of the exits, and gives back exactly what
`create_task` obtained for it; after that nothing refers to it.

## Main definitions

* `AlphaOS.Journal` — the scheduler with a record of its run: what each creation obtained, the
  exits, the tasks reaped, and what has been freed and not obtained again.
* `AlphaOS.Sched.Held` — each block and each page directory of a task is allocated once.
* `AlphaOS.Sched.Loaded` — `tss.esp0` and `cr3` are those of the current task.
* `AlphaOS.Journal.Inv` — the invariant of the journal.

## Main results

* `AlphaOS.Journal.Inv.step` — every event keeps the invariant.
* `AlphaOS.Journal.exists_journal` — every run of the scheduler has a journal.
* `AlphaOS.Journal.reaped_in_order` — exits and reaps in every run.
-/

namespace AlphaOS

/-- The fields of a task block that only `create_task` writes, of those the reaper and
`load_context` read. -/
def Task.fixed (k : Task) : Word × (ℕ → Word) × ℕ × Word × TaskType :=
  (k.cr3, k.fds, k.totalFds, k.ring0StackBase, k.type)

namespace Sched

open Linked

variable {s s' s'' : Sched} {l d q : List Word} {t : Word} {n : ℕ} {e : Event}

/-! ## What an event leaves alone -/

/-- The fixed fields of the task blocks and the allocations are the same in `s'` as in `s`. -/
structure Keeps (s s' : Sched) : Prop where
  fixed : ∀ t, (s'.task t).fixed = (s.task t).fixed
  layout : s'.layout = s.layout
  heap : s'.heap = s.heap
  spaces : s'.spaces = s.spaces

/-- In addition the current task and the registers `load_context` sets are the same. -/
structure Still (s s' : Sched) : Prop extends Keeps s s' where
  currentTask : s'.currentTask = s.currentTask
  esp0 : s'.esp0 = s.esp0
  cr3 : s'.cr3 = s.cr3

/-- Nothing has changed. -/
lemma Still.refl (s : Sched) : Still s s := ⟨⟨fun _ => rfl, rfl, rfl, rfl⟩, rfl, rfl, rfl⟩

/-- One change after another. -/
lemma Keeps.trans (h : Keeps s s') (h' : Keeps s' s'') : Keeps s s'' where
  fixed t := (h'.fixed t).trans (h.fixed t)
  layout := h'.layout.trans h.layout
  heap := h'.heap.trans h.heap
  spaces := h'.spaces.trans h.spaces

/-- One change after another. -/
lemma Still.trans (h : Still s s') (h' : Still s' s'') : Still s s'' where
  toKeeps := h.toKeeps.trans h'.toKeeps
  currentTask := h'.currentTask.trans h.currentTask
  esp0 := h'.esp0.trans h.esp0
  cr3 := h'.cr3.trans h.cr3

/-- Rewriting other fields of a task block. -/
lemma still_modify (s : Sched) (t : Word) {f : Task → Task} (h : ∀ k, (f k).fixed = k.fixed) :
    Still s (s.modify t f) :=
  ⟨⟨s.task_modify_proj t Task.fixed h, rfl, rfl, rfl⟩, rfl, rfl, rfl⟩

/-- Writing a status changes no fixed field. -/
lemma still_setStatus (s : Sched) (t : Word) (st : TaskStatus) : Still s (s.setStatus t st) :=
  s.still_modify t fun _ => rfl

/-- Writing a link changes no fixed field. -/
lemma still_setNext (s : Sched) (t v : Word) : Still s (s.setNext t v) :=
  s.still_modify t fun _ => rfl

/-- Writing a context changes no fixed field. -/
lemma still_setContext (s : Sched) (t : Word) (c : CpuTaskState) : Still s (s.setContext t c) :=
  s.still_modify t fun _ => rfl

/-- Saving the context changes no fixed field. -/
lemma still_saveContext (s : Sched) (f : Option StateFrame) : Still s (s.saveContext f) := by
  cases f with
  | none => exact Still.refl s
  | some f => exact s.still_setContext _ _

/-- Waking the idle task changes no fixed field. -/
lemma still_wakeIdleIfAlone (s : Sched) : Still s s.wakeIdleIfAlone := by
  unfold wakeIdleIfAlone
  split_ifs
  · exact s.still_setStatus _ _
  · exact Still.refl s

/-- The tick changes no fixed field before it switches. -/
lemma still_tickSuspend (s : Sched) : Still s s.tickSuspend := by
  unfold tickSuspend
  split_ifs
  · exact s.still_setStatus _ _
  · exact Still.refl s

/-- Waiting for input changes no fixed field before it switches. -/
lemma still_awaitPrepare (s : Sched) : Still s s.awaitPrepare := by
  unfold awaitPrepare
  split_ifs
  · have h :=
      (s.still_setStatus s.currentTask .sleep).trans (still_setStatus _ s.idleTask .schedulerIdle)
    exact ⟨⟨h.fixed, rfl, rfl, rfl⟩, rfl, rfl, rfl⟩
  · exact ⟨⟨(s.still_setStatus s.currentTask .sleep).fixed, rfl, rfl, rfl⟩, rfl, rfl, rfl⟩

/-- Waking the reader changes no fixed field. -/
lemma still_wakeStdinTask (s : Sched) : Still s s.wakeStdinTask := by
  unfold wakeStdinTask
  split_ifs
  · exact ⟨⟨(s.still_setStatus s.awaitingStdin .ready).fixed, rfl, rfl, rfl⟩, rfl, rfl, rfl⟩
  · exact Still.refl s

/-- Taking a task off the ring changes no fixed field. -/
lemma still_exitPrepare (hs : s.exitPrepare n = some s') : Still s s' := by
  obtain ⟨p, -, rfl⟩ := Option.map_eq_some_iff.mp hs
  have h : Still s s.countOut := ⟨⟨fun _ => rfl, rfl, rfl, rfl⟩, rfl, rfl, rfl⟩
  exact (h.trans (still_wakeIdleIfAlone _)).trans (still_setNext _ _ _)

/-- `push_dead_queue` changes no fixed field. -/
lemma still_pushDeadQueue (hs : s.pushDeadQueue n t = some s') : Still s s' := by
  unfold pushDeadQueue at hs
  split_ifs at hs
  · rw [← Option.some.inj hs]
    exact ⟨⟨(s.still_setNext t 0).fixed, rfl, rfl, rfl⟩, rfl, rfl, rfl⟩
  · obtain ⟨last, -, rfl⟩ := Option.map_eq_some_iff.mp hs
    exact (s.still_setNext t 0).trans (still_setNext _ _ _)

/-- Linking a task in changes no fixed field. -/
lemma still_linkNew (s : Sched) (p new : Word) : Still s (s.linkNew p new) := by
  have h : Still s { (s.setNext p new).setNext new s.currentTask with
      taskTotal := (s.taskTotal + 1) % 2 ^ 64 } :=
    ⟨⟨((s.still_setNext p new).trans (still_setNext _ new s.currentTask)).fixed, rfl, rfl, rfl⟩,
      rfl, rfl, rfl⟩
  exact h.trans (still_setStatus _ _ _)

/-- `tss.esp0` and `cr3` are those of the current task. -/
structure Loaded (s : Sched) : Prop where
  esp0 : s.esp0 = (s.task s.currentTask).ring0StackBase + BitVec.ofNat 32 pageSize
  cr3 : s.cr3 = (s.task s.currentTask).cr3

/-- The registers of the current task stay loaded while it stays the current one. -/
lemma Loaded.of_still (h : Loaded s) (hst : Still s s') : Loaded s' := by
  have hfix := hst.fixed s.currentTask
  simp only [Task.fixed, Prod.mk.injEq] at hfix
  constructor
  · rw [hst.esp0, hst.currentTask, hfix.2.2.2.1]
    exact h.esp0
  · rw [hst.cr3, hst.currentTask, hfix.1]
    exact h.cr3

/-- A dispatch keeps the fixed fields and the allocations, and loads the registers. -/
lemma keeps_dispatch (s : Sched) (t : Word) : Keeps s (s.dispatch t) ∧ Loaded (s.dispatch t) := by
  have hrun : Still s (s.markRunning t) := by
    unfold markRunning
    split_ifs
    · exact s.still_setStatus _ _
    · exact Still.refl s
  have hfix := hrun.fixed t
  simp only [Task.fixed, Prod.mk.injEq] at hfix
  refine ⟨⟨hrun.fixed, hrun.layout, hrun.heap, hrun.spaces⟩, ⟨?_, ?_⟩⟩
  · change (s.task t).ring0StackBase + _ = ((s.markRunning t).task t).ring0StackBase + _
    rw [hfix.2.2.2.1]
  · exact hfix.1.symm

/-- A completed `load_context` keeps the fixed fields and the allocations, and loads the
registers. -/
lemma keeps_loadContext {f : Option StateFrame} (hs : s.loadContext n f = some s') :
    Keeps s s' ∧ Loaded s' := by
  obtain ⟨u, -, rfl⟩ := Option.map_eq_some_iff.mp hs
  obtain ⟨hk, hl⟩ := (s.saveContext f).keeps_dispatch u
  exact ⟨(s.still_saveContext f).toKeeps.trans hk, hl⟩

/-- A tick leaves everything as it is, or loads the registers of the next task. -/
lemma still_schedulerTick {f : StateFrame} (hs : s.schedulerTick n f = some s') :
    Still s s' ∨ Keeps s s' ∧ Loaded s' := by
  simp only [schedulerTick, Option.bind_eq_bind, Option.bind_eq_some_iff] at hs
  obtain ⟨u, -, hs⟩ := hs
  split_ifs at hs
  · obtain rfl : s.wakeIdleIfAlone = s' := by simpa using hs
    exact .inl s.still_wakeIdleIfAlone
  · obtain ⟨hk, hl⟩ := keeps_loadContext hs
    exact .inr ⟨(s.still_wakeIdleIfAlone.trans (still_tickSuspend _)).toKeeps.trans hk, hl⟩

/-- `task_exit` keeps the fixed fields and the allocations, and loads the registers of the next
task. -/
lemma keeps_taskExit (hs : s.taskExit n = some s') : Keeps s s' ∧ Loaded s' := by
  simp only [taskExit, Option.bind_eq_bind, Option.bind_eq_some_iff] at hs
  obtain ⟨s₁, h₁, s₂, h₂, s₃, h₃, hs⟩ := hs
  obtain rfl : s₃.wakeReaperTask = s' := by simpa using hs
  obtain ⟨hk, hl⟩ := keeps_loadContext h₂
  have hend : Still s₂ s₃.wakeReaperTask :=
    (still_pushDeadQueue h₃).trans (s₃.still_setStatus _ _)
  exact ⟨((still_exitPrepare h₁).toKeeps.trans hk).trans hend.toKeeps, hl.of_still hend⟩

/-- The blocks of the tasks depend on the fixed fields only. -/
lemma Keeps.blocks (h : Keeps s s') : s'.blocks = s.blocks := by
  funext u
  have hfix := h.fixed u
  simp only [Task.fixed, Prod.mk.injEq] at hfix
  simp only [Sched.blocks, hfix]

/-- So do the page directories. -/
lemma Keeps.directory (h : Keeps s s') : s'.directory = s.directory := by
  funext u
  have hfix := h.fixed u
  simp only [Task.fixed, Prod.mk.injEq] at hfix
  simp only [Sched.directory, hfix]

/-! ## What the tasks hold -/

/-- Each block and each page directory of the tasks `q` is allocated once, no two of these tasks
share a page directory, and ring-0 tasks use the kernel's. -/
structure Held (s : Sched) (q : List Word) : Prop where
  once : ∀ b ∈ q.flatMap s.blocks, s.heap.count b = 1
  dirs_nodup : (q.flatMap s.directory).Nodup
  dirs_once : ∀ pd ∈ q.flatMap s.directory, s.spaces.count pd = 1
  notKernel : s.layout.kernelPageDirectory ∉ q.flatMap s.directory
  kernel : ∀ t ∈ q, (s.task t).type = .ring0 → (s.task t).cr3 = s.layout.kernelPageDirectory

/-- The order of the tasks does not matter. -/
lemma Held.perm {q' : List Word} (h : Held s q) (hp : q.Perm q') : Held s q' where
  once b hb := h.once b ((hp.flatMap_right s.blocks).mem_iff.mpr hb)
  dirs_nodup := (hp.flatMap_right s.directory).nodup_iff.mp h.dirs_nodup
  dirs_once pd hpd := h.dirs_once pd ((hp.flatMap_right s.directory).mem_iff.mpr hpd)
  notKernel hk := h.notKernel ((hp.flatMap_right s.directory).mem_iff.mpr hk)
  kernel t ht := h.kernel t (hp.mem_iff.mpr ht)

/-- What the tasks hold depends on the fixed fields and the allocations only. -/
lemma Held.of_keeps (h : Held s q) (hk : Keeps s s') : Held s' q where
  once := by rw [hk.blocks, hk.heap]; exact h.once
  dirs_nodup := by rw [hk.directory]; exact h.dirs_nodup
  dirs_once := by rw [hk.directory, hk.spaces]; exact h.dirs_once
  notKernel := by rw [hk.directory, hk.layout]; exact h.notKernel
  kernel := by
    intro t ht
    have hfix := hk.fixed t
    simp only [Task.fixed, Prod.mk.injEq] at hfix
    rw [hfix.1, hfix.2.2.2.2, hk.layout]
    exact h.kernel t ht

/-- The page directory of a task of the list is its `cr3`, the kernel's or one that is allocated. -/
lemma Held.cr3_mem (h : Held s q) (ht : t ∈ q) :
    (s.task t).cr3 = s.layout.kernelPageDirectory ∨ (s.task t).cr3 ∈ s.spaces := by
  cases htype : (s.task t).type with
  | ring0 => exact .inl (h.kernel t ht htype)
  | ring3 =>
    have hmem : (s.task t).cr3 ∈ q.flatMap s.directory :=
      List.mem_flatMap.mpr ⟨t, ht, by simp [Sched.directory, htype]⟩
    exact .inr (List.count_pos_iff.mp (by rw [h.dirs_once _ hmem]; exact Nat.one_pos))

/-- What was allocated once and is not among the blocks given back is still allocated once. -/
lemma count_diff_of_notMem {L F : List Word} {b : Word} (hb : b ∉ F) :
    (L.diff F).count b = L.count b := by
  rw [List.count_diff, List.count_eq_zero_of_not_mem hb, Nat.sub_zero]

/-- What was allocated once and is given back is not allocated any more. -/
lemma notMem_diff {L F : List Word} {b : Word} (hb : b ∈ F) (hL : L.count b = 1) :
    b ∉ L.diff F := by
  intro hmem
  have hpos := List.count_pos_iff.mpr hmem
  have hF := List.count_pos_iff.mpr hb
  rw [List.count_diff, hL] at hpos
  omega

/-- Nothing of a list allocated once is lost when it is given back: what was allocated is the list
and the rest. -/
lemma perm_append_diff {L F : List Word} (hF : F.Nodup) (hL : ∀ b ∈ F, L.count b = 1) :
    L.Perm (F ++ L.diff F) := by
  refine (List.subperm_append_diff_self_of_count_le fun b hb => ?_).symm
  rw [hL b hb]
  exact List.nodup_iff_count_le_one.mp hF b

/-- Reaping the tasks `d` leaves the others what they hold. -/
lemma Held.reap (h : Held s (q ++ d)) (hnd : ((q ++ d).flatMap s.blocks).Nodup)
    (hs : s' = { s with
      deadQueue := 0
      heap := s.heap.diff (d.flatMap s.kfreed)
      spaces := s.spaces.diff (d.flatMap s.directory) }) : Held s' q := by
  subst hs
  have hdirs := h.dirs_nodup
  rw [List.flatMap_append] at hnd hdirs
  have hblocks : ∀ b ∈ q.flatMap s.blocks, b ∉ d.flatMap s.kfreed := by
    intro b hb hbd
    obtain ⟨t, ht, hbt⟩ := List.mem_flatMap.mp hbd
    have hbd' : b ∈ d.flatMap s.blocks :=
      List.mem_flatMap.mpr ⟨t, ht, (kfreed_perm_blocks s t).mem_iff.mp hbt⟩
    exact (List.nodup_append.mp hnd).2.2 b hb b hbd' rfl
  constructor
  · intro b hb
    exact (count_diff_of_notMem (hblocks b hb)).trans
      (h.once b (by rw [List.flatMap_append]; exact List.mem_append_left _ hb))
  · exact (List.nodup_append.mp hdirs).1
  · intro pd hpd
    refine (count_diff_of_notMem fun hpd' => ?_).trans
      (h.dirs_once pd (by rw [List.flatMap_append]; exact List.mem_append_left _ hpd))
    exact (List.nodup_append.mp hdirs).2.2 pd hpd pd hpd' rfl
  · intro hk
    exact h.notKernel (by rw [List.flatMap_append]; exact List.mem_append_left _ hk)
  · exact fun t ht => h.kernel t (List.mem_append_left _ ht)

end Sched

/-! ## Creating -/

/-- What one call of `create_task` obtains: blocks from `kmalloc` and, for a ring-3 task, a page
directory from `mmap_ring3`. -/
structure Obtained where
  blocks : List Word
  spaces : List Word
deriving DecidableEq, Repr, Inhabited

/-- What a grant is used for when a task of the given type is created. -/
def Grant.obtained (g : Grant) : TaskType → Obtained
  | .ring0 => ⟨g.blocks, []⟩
  | .ring3 => ⟨g.blocks, [g.pd]⟩

/-- The blocks that are obtained are those of the grant. -/
lemma Grant.blocks_obtained (g : Grant) (type : TaskType) :
    (g.obtained type).blocks = g.blocks := by
  cases type <;> rfl

namespace Sched

variable {s s' : Sched} {l d q : List Word} {t : Word} {n : ℕ} {e : Event} {g : Grant}
  {entry : Word} {type : TaskType}

/-- The new task's page directory is the one obtained for it. -/
lemma directory_createTask (s : Sched) (g : Grant) (entry : Word) (type : TaskType) :
    (s.createTask g entry type).directory =
      Function.update s.directory g.task (g.obtained type).spaces := by
  funext u
  by_cases hu : u = g.task
  · subst hu
    cases type <;> simp [Sched.directory, createTask, newTask, Grant.obtained]
  · simp [Sched.directory, createTask, hu]

/-- `create_task` allocates the blocks of the grant. -/
lemma heap_createTask_perm (s : Sched) (g : Grant) (entry : Word) (type : TaskType) :
    (s.createTask g entry type).heap.Perm (g.blocks ++ s.heap) := by
  have h : (s.createTask g entry type).heap = g.blocks.reverse ++ s.heap := rfl
  rw [h]
  exact (List.reverse_perm _).append_right _

/-- `create_task` obtains the page directory of the grant for a ring-3 task. -/
lemma spaces_createTask (s : Sched) (g : Grant) (entry : Word) (type : TaskType) :
    (s.createTask g entry type).spaces = (g.obtained type).spaces ++ s.spaces := by
  cases type <;> rfl

/-- The page directory of a fresh grant is not in use. -/
lemma Fresh.obtained (h : s.Fresh g) : ∀ pd ∈ (g.obtained type).spaces,
    pd ∉ s.spaces ∧ pd ≠ s.layout.kernelPageDirectory := by
  cases type with
  | ring0 => simp [Grant.obtained]
  | ring3 => simpa [Grant.obtained] using ⟨h.notSpace, h.notKernel⟩

/-- Creating a task: the new task holds what was obtained for it, the others what they held. -/
lemma Held.createTask (h : Held s q) (hf : s.Fresh g) (hq : g.task ∉ q) :
    Held (s.createTask g entry type) (g.task :: q) := by
  have hblocks : (g.task :: q).flatMap (s.createTask g entry type).blocks =
      g.blocks ++ q.flatMap s.blocks := by
    rw [List.flatMap_cons, flatMap_blocks_createTask hq, blocks_createTask, Function.update_self]
  have hdirs : (g.task :: q).flatMap (s.createTask g entry type).directory =
      (g.obtained type).spaces ++ q.flatMap s.directory := by
    rw [List.flatMap_cons, directory_createTask, Function.update_self]
    congr 1
    refine List.flatMap_congr fun u hu => ?_
    rw [Function.update_of_ne (fun he : u = g.task => hq (he ▸ hu))]
  have hspace : ∀ pd ∈ q.flatMap s.directory, pd ∈ s.spaces := fun pd hpd =>
    List.count_pos_iff.mp (by rw [h.dirs_once pd hpd]; exact Nat.one_pos)
  have hheap : ∀ b ∈ q.flatMap s.blocks, b ∈ s.heap := fun b hb =>
    List.count_pos_iff.mp (by rw [h.once b hb]; exact Nat.one_pos)
  have hnd : (g.obtained type).spaces.Nodup := by cases type <;> simp [Grant.obtained]
  constructor
  · intro b hb
    rw [hblocks] at hb
    rw [(heap_createTask_perm s g entry type).count_eq, List.count_append]
    rcases List.mem_append.mp hb with hb | hb
    · rw [List.count_eq_one_of_mem hf.nodup hb, List.count_eq_zero_of_not_mem (hf.notHeap b hb)]
    · rw [h.once b hb, List.count_eq_zero_of_not_mem fun hg => hf.notHeap b hg (hheap b hb)]
  · rw [hdirs]
    refine List.nodup_append.mpr ⟨hnd, h.dirs_nodup, ?_⟩
    rintro pd hpd pd' hpd' rfl
    exact (hf.obtained pd hpd).1 (hspace pd hpd')
  · intro pd hpd
    rw [hdirs] at hpd
    rw [spaces_createTask, List.count_append]
    rcases List.mem_append.mp hpd with hpd | hpd
    · rw [List.count_eq_one_of_mem hnd hpd, List.count_eq_zero_of_not_mem (hf.obtained pd hpd).1]
    · rw [h.dirs_once pd hpd,
        List.count_eq_zero_of_not_mem fun hg => (hf.obtained pd hg).1 (hspace pd hpd)]
  · rw [hdirs]
    intro hk
    rcases List.mem_append.mp hk with hk | hk
    · exact (hf.obtained _ hk).2 rfl
    · exact h.notKernel hk
  · intro t ht htype
    rcases List.mem_cons.mp ht with rfl | ht
    · cases type with
      | ring0 => simp [Sched.createTask, newTask, openFiles, openFile]
      | ring3 => simp [Sched.createTask, newTask] at htype
    · have hne : t ≠ g.task := fun he => hq (he ▸ ht)
      have htask : (s.createTask g entry type).task t = s.task t := by
        simp [Sched.createTask, hne]
      rw [htask] at htype ⊢
      exact h.kernel t ht htype

end Sched

/-! ## The journal -/

/-- What the reaper did for one task: what it passed to `kfree` and to `unmmap_ring3`, beside what
`create_task` had obtained for the task. -/
structure Reaped where
  task : Word
  kfreed : List Word
  unmapped : List Word
  obtained : Obtained
deriving DecidableEq, Repr, Inhabited

/-- The scheduler with a record of its run. -/
structure Journal where
  sched : Sched
  /-- What the last creation of a task in the block at this address obtained. -/
  obtained : Word → Obtained
  /-- The tasks that have exited, in order. -/
  exited : List Word
  /-- The tasks the reaper has freed, in order. -/
  reaped : List Reaped
  /-- The blocks the reaper has passed to `kfree` and no creation has obtained since. -/
  freed : List Word
  /-- The page directories the reaper has passed to `unmmap_ring3` and no creation has obtained
  since. -/
  freedSpaces : List Word

namespace Journal

open Sched Linked

variable {j j' : Journal} {s s' : Sched} {l d : List Word} {n : ℕ} {e : Event}

/-- What the inner loop of `reaper_task_loop` does, task by task. -/
def drainLog (obtained : Word → Obtained) : ℕ → Sched → List Reaped
  | 0, _ => []
  | n + 1, s =>
    if s.deadQueue = 0 then []
    else ⟨s.deadQueue, s.popDeadQueue.kfreed s.deadQueue, s.popDeadQueue.directory s.deadQueue,
      obtained s.deadQueue⟩ :: drainLog obtained n (s.popDeadQueue.reapTask s.deadQueue)

/-- The record of an event that leads to the state `s'`, its loops running at most `n` times. -/
def record (j : Journal) (n : ℕ) (s' : Sched) : Event → Journal
  | .enqueue g _ type =>
    { j with
      sched := s'
      obtained := Function.update j.obtained g.task (g.obtained type)
      freed := j.freed.filter (· ∉ (g.obtained type).blocks)
      freedSpaces := j.freedSpaces.filter (· ∉ (g.obtained type).spaces) }
  | .exit => { j with sched := s', exited := j.exited ++ [j.sched.currentTask] }
  | .reap =>
    { j with
      sched := s'
      reaped := j.reaped ++ drainLog j.obtained n j.sched
      freed := j.freed ++ (drainLog j.obtained n j.sched).flatMap Reaped.kfreed
      freedSpaces := j.freedSpaces ++ (drainLog j.obtained n j.sched).flatMap Reaped.unmapped }
  | _ => { j with sched := s' }

/-- An enabled event happens, all its loops return, and it is recorded. -/
def Step (j : Journal) (e : Event) (j' : Journal) : Prop :=
  j.sched.Enabled e ∧ ∃ n s', j.sched.exec n e = some s' ∧ j' = j.record n s' e

/-- The journal after `init_scheduler`. -/
def Init (j : Journal) : Prop :=
  ∃ (s₀ : Sched) (g₁ g₂ : Grant), s₀.taskTotal = 0 ∧ s₀.nextPid = 0 ∧ s₀.deadQueue = 0 ∧
    s₀.awaitingStdin = 0 ∧ s₀.Fresh g₁ ∧ (s₀.createIdle g₁).Fresh g₂ ∧
    j.sched = s₀.initScheduler g₁ g₂ ∧ j.obtained g₁.task = g₁.obtained .ring0 ∧
    j.obtained g₂.task = g₂.obtained .ring0 ∧ j.exited = [] ∧ j.reaped = [] ∧ j.freed = [] ∧
    j.freedSpaces = []

/-- The scheduler of the journal after an event. -/
@[simp] lemma sched_record (j : Journal) (n : ℕ) (s' : Sched) (e : Event) :
    (j.record n s' e).sched = s' := by
  cases e <;> rfl

/-- A call of the scheduler is a step of the journal. -/
lemma step_record {j : Journal} {n : ℕ} {s s' : Sched} {e : Event} (hs : j.sched = s)
    (hexec : s.exec n e = some s') (hen : s.Enabled e) : j.Step e (j.record n s' e) := by
  subst hs
  exact ⟨hen, n, s', hexec, rfl⟩

/-- The invariant of the journal, for the ring `l` behind the current task and the dead queue
`d`. -/
structure Inv (j : Journal) (l d : List Word) : Prop where
  wf : Wf j.sched l d
  held : Held j.sched (j.sched.currentTask :: l ++ d)
  /-- Each task owns what was obtained for it. -/
  obtained : ∀ t ∈ j.sched.currentTask :: l ++ d, (j.obtained t).blocks = j.sched.blocks t ∧
    (j.obtained t).spaces = j.sched.directory t
  /-- The dead queue is what has exited and is not yet reaped. -/
  order : j.exited = j.reaped.map Reaped.task ++ d
  exact : ∀ r ∈ j.reaped, r.kfreed.Perm r.obtained.blocks ∧ r.unmapped = r.obtained.spaces
  loaded : j.exited ≠ [] → j.sched.Loaded
  freed : ∀ b ∈ j.freed, j.exited ≠ [] ∧ b ∉ j.sched.heap
  freedSpaces : ∀ pd ∈ j.freedSpaces, j.exited ≠ [] ∧ pd ∉ j.sched.spaces ∧
    pd ≠ j.sched.layout.kernelPageDirectory

/-- The log of a drained queue lists its tasks in order, with what they own. -/
lemma drainLog_eq (obtained : Word → Obtained) (h : Wf s l d)
    (hs : drainDeadQueue n s = some s') : drainLog obtained n s =
      d.map fun t => ⟨t, s.kfreed t, s.directory t, obtained t⟩ := by
  induction n generalizing s d with
  | zero => simp [Sched.drainDeadQueue] at hs
  | succ n ih =>
    rw [Sched.drainDeadQueue] at hs
    rw [drainLog]
    split_ifs at hs with hq
    · obtain rfl := h.core.dead_eq_nil hq
      rw [if_pos hq, List.map_nil]
    · cases d with
      | nil => exact absurd h.core.dead hq
      | cons a d =>
        obtain ⟨rfl, -, hwf⟩ := h.reapTask
        rw [if_neg hq, ih hwf hs, reapTask_eq]
        rfl

/-- What the other tasks hold and the record of them survive an event that only turns the ring. -/
lemma Inv.of_keeps {l' d' : List Word} (h : j.Inv l d) (hk : Keeps j.sched j'.sched)
    (hwf : Wf j'.sched l' d')
    (hperm : (j'.sched.currentTask :: l' ++ d').Perm (j.sched.currentTask :: l ++ d))
    (hobt : j'.obtained = j.obtained) (horder : j'.exited = j.reaped.map Reaped.task ++ d')
    (hreaped : j'.reaped = j.reaped) (hloaded : j'.exited ≠ [] → j'.sched.Loaded)
    (hexit : j.exited ≠ [] → j'.exited ≠ []) (hfreed : j'.freed = j.freed)
    (hspaces : j'.freedSpaces = j.freedSpaces) : j'.Inv l' d' where
  wf := hwf
  held := (h.held.of_keeps hk).perm hperm.symm
  obtained := by
    rw [hobt, hk.blocks, hk.directory]
    exact fun t ht => h.obtained t (hperm.mem_iff.mp ht)
  order := hreaped ▸ horder
  exact := hreaped ▸ h.exact
  loaded := hloaded
  freed := by
    rw [hfreed, hk.heap]
    exact fun b hb => ⟨hexit (h.freed b hb).1, (h.freed b hb).2⟩
  freedSpaces := by
    rw [hspaces, hk.spaces, hk.layout]
    exact fun pd hpd => ⟨hexit (h.freedSpaces pd hpd).1, (h.freedSpaces pd hpd).2⟩

/-- A creation: the new task owns what was obtained for it, and none of that is free any more. -/
lemma Inv.enqueue {g : Grant} {entry : Word} {type : TaskType} (h : j.Inv l d)
    (hf : j.sched.Fresh g) (hs : j.sched.enqueueTask n g entry type = some s') :
    (j.record n s' (.enqueue g entry type)).Inv (l ++ [g.task]) d := by
  have hwf := h.wf.enqueueTask hf hs
  have hnew := h.wf.core.fresh_notMem hf
  have hcur := currentTask_enqueueTask hs
  obtain ⟨p, -, rfl⟩ := Option.map_eq_some_iff.mp hs
  have hst := (j.sched.createTask g entry type).still_linkNew p g.task
  have hperm : (g.task :: (j.sched.currentTask :: l ++ d)).Perm
      (j.sched.currentTask :: (l ++ [g.task]) ++ d) := by
    have h1 : (j.sched.currentTask :: l ++ g.task :: d).Perm
        (g.task :: (j.sched.currentTask :: l ++ d)) := List.perm_middle
    simpa using h1.symm
  constructor
  · exact hwf
  · exact ((h.held.createTask hf hnew).of_keeps hst.toKeeps).perm hperm
  · intro t ht
    have ht' : t ∈ g.task :: (j.sched.currentTask :: l ++ d) := hperm.mem_iff.mpr ht
    have hb : ((j.sched.createTask g entry type).linkNew p g.task).blocks =
        Function.update j.sched.blocks g.task g.blocks := hst.blocks.trans (blocks_createTask ..)
    have hd : ((j.sched.createTask g entry type).linkNew p g.task).directory =
        Function.update j.sched.directory g.task (g.obtained type).spaces :=
      hst.directory.trans (directory_createTask ..)
    change ((Function.update j.obtained g.task (g.obtained type)) t).blocks =
        ((j.sched.createTask g entry type).linkNew p g.task).blocks t ∧
      ((Function.update j.obtained g.task (g.obtained type)) t).spaces =
        ((j.sched.createTask g entry type).linkNew p g.task).directory t
    rw [hb, hd]
    by_cases htg : t = g.task
    · subst htg
      simp [Grant.blocks_obtained]
    · rw [Function.update_of_ne htg, Function.update_of_ne htg, Function.update_of_ne htg]
      exact h.obtained t ((List.mem_cons.mp ht').resolve_left htg)
  · exact h.order
  · exact h.exact
  · intro hne
    have hl := h.loaded hne
    have htask : (j.sched.createTask g entry type).task j.sched.currentTask =
        j.sched.task j.sched.currentTask := by
      have hc : j.sched.currentTask ≠ g.task := fun he => hnew (by simp [← he])
      simp [Sched.createTask, hc]
    refine Loaded.of_still ⟨?_, ?_⟩ hst
    · rw [currentTask_createTask, htask]
      exact hl.esp0
    · rw [currentTask_createTask, htask]
      exact hl.cr3
  · intro b hb
    have hb' : b ∈ j.freed ∧ b ∉ (g.obtained type).blocks := by
      simpa [record] using hb
    refine ⟨(h.freed b hb'.1).1, fun hheap => ?_⟩
    rcases mem_heap_createTask.mp (hst.heap ▸ hheap) with hg | hh
    · exact hb'.2 (by rwa [Grant.blocks_obtained])
    · exact (h.freed b hb'.1).2 hh
  · intro pd hpd
    have hpd' : pd ∈ j.freedSpaces ∧ pd ∉ (g.obtained type).spaces := by
      simpa [record] using hpd
    obtain ⟨hex, hsp, hk⟩ := h.freedSpaces pd hpd'.1
    refine ⟨hex, fun hmem => ?_, fun he => hk (he.trans (by rw [sched_record, hst.layout]; rfl))⟩
    have hmem' := hst.spaces ▸ hmem
    rw [spaces_createTask] at hmem'
    rcases List.mem_append.mp hmem' with hg | hh
    · exact hpd'.2 hg
    · exact hsp hh

/-- An exit: the current task moves to the dead queue. -/
lemma Inv.exit (h : j.Inv l d) (huser : j.sched.IsUser j.sched.currentTask)
    (hs : j.sched.taskExit n = some s') : ∃ l', (j.record n s' .exit).Inv l'
      (d ++ [j.sched.currentTask]) := by
  obtain ⟨l₁, l₂, hpass, hwf⟩ := h.wf.taskExit huser hs
  obtain ⟨hk, hl⟩ := keeps_taskExit hs
  refine ⟨l₂ ++ l₁, h.of_keeps hk hwf ?_ rfl ?_ rfl (fun _ => hl)
    (fun _ => by simp [record]) rfl rfl⟩
  · change (s'.currentTask :: (l₂ ++ l₁) ++ (d ++ [j.sched.currentTask])).Perm _
    have h1 := hpass.perm (c := j.sched.currentTask)
    have h2 : (s'.currentTask :: (l₂ ++ l₁) ++ [j.sched.currentTask]).Perm
        (s'.currentTask :: (l₂ ++ j.sched.currentTask :: l₁)) := by
      have h3 : (l₂ ++ l₁ ++ [j.sched.currentTask]).Perm (l₂ ++ j.sched.currentTask :: l₁) := by
        rw [List.append_assoc]
        exact (List.perm_append_singleton _ _).append_left l₂
      exact h3.cons _
    refine (List.perm_append_comm.append_left _).trans ?_
    rw [← List.append_assoc]
    exact (h2.trans h1).append_right d
  · change j.exited ++ [j.sched.currentTask] = _
    rw [h.order, List.append_assoc]

/-- A pass of the reaper: every task of the dead queue is freed, with all it owns. -/
lemma Inv.reap (h : j.Inv l d) (hcur : j.sched.currentTask = j.sched.reaperTask)
    (hs : j.sched.reaperTaskLoop n = some s') : ∃ l', (j.record n s' .reap).Inv l' [] ∧
      (j.record n s' .reap).reaped = j.reaped ++ d.map (fun t =>
        ⟨t, j.sched.kfreed t, j.sched.directory t, j.obtained t⟩) ∧
      s'.heap = j.sched.heap.diff (d.flatMap j.sched.kfreed) ∧
      s'.spaces = j.sched.spaces.diff (d.flatMap j.sched.directory) := by
  obtain ⟨l₁, l₂, hpass, hwf⟩ := h.wf.reaperTaskLoop hcur hs
  simp only [reaperTaskLoop, Option.bind_eq_bind, Option.bind_eq_some_iff] at hs
  obtain ⟨s₁, h₁, hs⟩ := hs
  have hlog := drainLog_eq j.obtained h.wf h₁
  obtain ⟨-, heq⟩ := h.wf.drainDeadQueue h₁
  obtain ⟨hk₂, hl⟩ := keeps_loadContext hs
  have hk : Keeps s₁ s' := (s₁.still_setStatus _ _).toKeeps.trans hk₂
  have hheld := (h.held.reap h.wf.core.owned_nodup heq).of_keeps hk
  have hheap : s'.heap = j.sched.heap.diff (d.flatMap j.sched.kfreed) := by rw [hk.heap, heq]
  have hspaces : s'.spaces = j.sched.spaces.diff (d.flatMap j.sched.directory) := by
    rw [hk.spaces, heq]
  have hexited : d ≠ [] → j.exited ≠ [] := by
    intro hd
    rw [h.order]
    simp [hd]
  refine ⟨l₂ ++ j.sched.currentTask :: l₁, ⟨hwf, ?_, ?_, ?_, ?_, fun _ => hl, ?_, ?_⟩, ?_, hheap,
    hspaces⟩
  · rw [sched_record, List.append_nil]
    exact hheld.perm hpass.perm.symm
  · intro t ht
    rw [sched_record, List.append_nil] at ht
    have hmem := hpass.perm.mem_iff.mp ht
    rw [sched_record, hk.blocks, hk.directory, heq]
    exact h.obtained t (List.mem_append_left _ hmem)
  · change j.exited = (j.reaped ++ drainLog j.obtained n j.sched).map Reaped.task ++ []
    rw [h.order, hlog]
    simp [Function.comp_def]
  · intro r hr
    rcases List.mem_append.mp hr with hr | hr
    · exact h.exact r hr
    · rw [hlog] at hr
      obtain ⟨t, ht, rfl⟩ := List.mem_map.mp hr
      obtain ⟨hb, hd⟩ := h.obtained t (List.mem_append_right _ ht)
      exact ⟨hb ▸ kfreed_perm_blocks j.sched t, hd.symm⟩
  · intro b hb
    rw [sched_record, hheap]
    rcases List.mem_append.mp hb with hb | hb
    · exact ⟨(h.freed b hb).1, fun hmem => (h.freed b hb).2 ((List.diff_subset _ _) hmem)⟩
    · rw [hlog, List.flatMap_map] at hb
      obtain ⟨t, ht, hbt⟩ := List.mem_flatMap.mp hb
      have hown : b ∈ (j.sched.currentTask :: l ++ d).flatMap j.sched.blocks :=
        List.mem_flatMap.mpr ⟨t, List.mem_append_right _ ht,
          (kfreed_perm_blocks j.sched t).mem_iff.mp hbt⟩
      exact ⟨hexited (List.ne_nil_of_mem ht), notMem_diff (List.mem_flatMap.mpr ⟨t, ht, hbt⟩)
        (h.held.once b hown)⟩
  · intro pd hpd
    have hlayout : s'.layout = j.sched.layout := by rw [hk.layout, heq]
    rw [sched_record, hspaces, hlayout]
    rcases List.mem_append.mp hpd with hpd | hpd
    · obtain ⟨hex, hsp, hne⟩ := h.freedSpaces pd hpd
      exact ⟨hex, fun hmem => hsp ((List.diff_subset _ _) hmem), hne⟩
    · rw [hlog, List.flatMap_map] at hpd
      obtain ⟨t, ht, hpt⟩ := List.mem_flatMap.mp hpd
      have hown : pd ∈ (j.sched.currentTask :: l ++ d).flatMap j.sched.directory :=
        List.mem_flatMap.mpr ⟨t, List.mem_append_right _ ht, hpt⟩
      refine ⟨hexited (List.ne_nil_of_mem ht), notMem_diff (List.mem_flatMap.mpr ⟨t, ht, hpt⟩)
        (h.held.dirs_once pd hown), fun he => h.held.notKernel (he ▸ hown)⟩
  · change j.reaped ++ drainLog j.obtained n j.sched = _
    rw [hlog]

/-- **Every event keeps the invariant of the journal.** -/
theorem Inv.step (h : j.Inv l d) (hs : j.Step e j') : ∃ l' d', j'.Inv l' d' := by
  obtain ⟨hen, n, s', hs, rfl⟩ := hs
  cases e with
  | enqueue g entry type => exact ⟨_, _, h.enqueue hen hs⟩
  | tick f =>
    have hstill := still_schedulerTick hs
    rcases h.wf.schedulerTick hs with ⟨-, hcur, hwf⟩ | ⟨hload, l₁, l₂, hpass, hwf⟩
    · refine ⟨l, d, h.of_keeps (hstill.elim Still.toKeeps And.left) hwf (hcur ▸ List.Perm.refl _)
        rfl h.order rfl (fun hne => ?_) (fun hne => hne) rfl rfl⟩
      exact hstill.elim (h.loaded hne).of_still And.right
    · refine ⟨_, d, h.of_keeps (hstill.elim Still.toKeeps And.left) hwf
        (hpass.perm.append_right d) rfl h.order rfl (fun hne => ?_) (fun hne => hne) rfl rfl⟩
      exact hstill.elim (h.loaded hne).of_still And.right
  | await f =>
    obtain ⟨l₁, l₂, hpass, hwf⟩ := h.wf.awaitStdin hen hs
    obtain ⟨hk, hl⟩ := keeps_loadContext hs
    exact ⟨_, d, h.of_keeps ((still_awaitPrepare _).toKeeps.trans hk) hwf
      (hpass.perm.append_right d) rfl h.order rfl (fun _ => hl) (fun hne => hne) rfl rfl⟩
  | wake =>
    obtain rfl : j.sched.wakeStdinTask = s' := by simpa [exec] using hs
    have hstill := still_wakeStdinTask j.sched
    exact ⟨l, d, h.of_keeps hstill.toKeeps h.wf.wakeStdinTask
      (currentTask_wakeStdinTask j.sched ▸ List.Perm.refl _) rfl h.order rfl
      (fun hne => (h.loaded hne).of_still hstill) (fun hne => hne) rfl rfl⟩
  | exit =>
    obtain ⟨l', h'⟩ := h.exit hen hs
    exact ⟨l', _, h'⟩
  | reap =>
    obtain ⟨l', h', -⟩ := h.reap hen hs
    exact ⟨l', _, h'⟩

/-- After `init_scheduler` the idle task and the reaper own what was obtained for them. -/
lemma inv_of_init (h : j.Init) : ∃ l d, j.Inv l d := by
  obtain ⟨s₀, g₁, g₂, htotal, hpid, hdead, hawait, h₁, h₂, hj, hg₁, hg₂, hex, hre, hfr, hsp⟩ := h
  have hwf := wf_initScheduler htotal hpid hdead hawait h₁ h₂
  have hempty : Held s₀ [] := ⟨by simp, by simp, by simp, by simp, by simp⟩
  have hidle : Held (s₀.createTask g₁ s₀.layout.idleTaskLoop .ring0) [g₁.task] :=
    hempty.createTask h₁ (by simp)
  have hheld₁ : Held (s₀.createIdle g₁) [g₁.task] :=
    hidle.of_keeps ⟨(still_setStatus _ g₁.task .schedulerIdle).fixed, rfl, rfl, rfl⟩
  have hne : g₂.task ∉ [g₁.task] := by
    have hnd := hwf.ring.1
    rw [show (s₀.initScheduler g₁ g₂).currentTask = g₁.task from rfl] at hnd
    simp only [List.nodup_cons, List.mem_singleton] at hnd ⊢
    exact fun he => hnd.1 he.symm
  have hcreate : Held ((s₀.createIdle g₁).createTask g₂ (s₀.createIdle g₁).layout.reaperTaskLoop
      .ring0) [g₂.task, g₁.task] := hheld₁.createTask h₂ hne
  set s₂ :=
    (s₀.createIdle g₁).createTask g₂ (s₀.createIdle g₁).layout.reaperTaskLoop .ring0 with hs₂
  have hkeeps : Keeps s₂ (s₀.initScheduler g₁ g₂) := by
    have hst := ((s₂.still_setStatus g₂.task .sleep).trans
      (still_setNext _ g₁.task g₂.task)).trans (still_setNext _ g₂.task g₁.task)
    exact ⟨hst.fixed, rfl, rfl, rfl⟩
  refine ⟨[g₂.task], [], ?_⟩
  have hb : j.sched.blocks = Function.update (Function.update s₀.blocks g₁.task g₁.blocks) g₂.task
      g₂.blocks := by
    rw [hj, hkeeps.blocks, hs₂, blocks_createTask]
    congr 1
    exact (blocks_setStatus _ _ _).trans (blocks_createTask _ _ _ _)
  have hd : j.sched.directory = Function.update (Function.update s₀.directory g₁.task []) g₂.task
      [] := by
    rw [hj, hkeeps.directory, hs₂, directory_createTask]
    congr 1
    have hst :=
      still_setStatus (s₀.createTask g₁ s₀.layout.idleTaskLoop .ring0) g₁.task .schedulerIdle
    exact hst.directory.trans (directory_createTask _ _ _ _)
  have hcur : j.sched.currentTask = g₁.task := by rw [hj]; rfl
  have hne' : g₁.task ≠ g₂.task := fun he => hne (by simp [he])
  refine ⟨hj ▸ hwf, ?_, ?_, ?_, ?_, ?_, ?_, ?_⟩
  · rw [hcur, hj]
    exact (hcreate.of_keeps hkeeps).perm (List.Perm.swap _ _ _)
  · rw [hcur, hb, hd]
    intro t ht
    have ht' : t = g₁.task ∨ t = g₂.task := by simpa using ht
    rcases ht' with rfl | rfl
    · rw [hg₁, Function.update_of_ne hne', Function.update_of_ne hne', Function.update_self,
        Function.update_self]
      exact ⟨rfl, rfl⟩
    · rw [hg₂, Function.update_self, Function.update_self]
      exact ⟨rfl, rfl⟩
  · simp [hex, hre]
  · simp [hre]
  · simp [hex]
  · simp [hfr]
  · simp [hsp]

/-- **The invariant of every run of the journal.** -/
theorem inv_of_reach (h : Transition.Reach Init Step (fun _ _ => True) j) : ∃ l d, j.Inv l d := by
  refine h.invariant (I := fun j => ∃ l d, j.Inv l d) (fun _ h0 => inv_of_init h0) ?_
  rintro j e j' ⟨l, d, hinv⟩ - hs
  exact hinv.step hs

/-- A journal opened after `init_scheduler`. -/
def opening (s₀ : Sched) (g₁ g₂ : Grant) : Journal where
  sched := s₀.initScheduler g₁ g₂
  obtained := Function.update (Function.update (fun _ => default) g₁.task (g₁.obtained .ring0))
    g₂.task (g₂.obtained .ring0)
  exited := []
  reaped := []
  freed := []
  freedSpaces := []

/-- **Every run of the scheduler has a journal.** -/
theorem exists_journal {s : Sched}
    (h : Transition.Reach Sched.Init Sched.Step (fun _ _ => True) s) :
    ∃ j, Transition.Reach Init Step (fun _ _ => True) j ∧ j.sched = s := by
  induction h with
  | start h =>
    obtain ⟨s₀, g₁, g₂, htotal, hpid, hdead, hawait, h₁, h₂, rfl⟩ := h
    have hnd := (wf_initScheduler htotal hpid hdead hawait h₁ h₂).ring.1
    have hne : g₁.task ≠ g₂.task := by
      rw [show (s₀.initScheduler g₁ g₂).currentTask = g₁.task from rfl] at hnd
      simpa using hnd
    refine ⟨opening s₀ g₁ g₂, .start ⟨s₀, g₁, g₂, htotal, hpid, hdead, hawait, h₁, h₂, rfl, ?_, ?_,
      rfl, rfl, rfl, rfl⟩, rfl⟩
    · exact (Function.update_of_ne hne _ _).trans (Function.update_self _ _ _)
    · exact Function.update_self _ _ _
  | @next s s' e _ _ hs ih =>
    obtain ⟨j, hj, rfl⟩ := ih
    obtain ⟨hen, n, hs⟩ := hs
    refine ⟨j.record n s' e, hj.next (a := e) trivial ⟨hen, n, s', hs, rfl⟩, sched_record ..⟩

/-- The account of a run: the exits and the reaps so far, and what still refers to what has been
freed. -/
structure Accounts (j : Journal) (l d : List Word) : Prop where
  ring : Ring j.sched.next j.sched.currentTask l
  queue : Lseg j.sched.next j.sched.deadQueue d 0
  queue_notNull : 0 ∉ d
  /-- Each exited task is reaped at most once, in the order of the exits; the dead queue holds those
  not yet reaped. -/
  order : j.exited = j.reaped.map Reaped.task ++ d
  /-- Reaping a task frees exactly what `create_task` obtained for it. -/
  exact : ∀ r ∈ j.reaped, r.kfreed.Perm r.obtained.blocks ∧ r.unmapped = r.obtained.spaces
  /-- No freed block is a task of the ring or of the dead queue, or a block of one, or the task
  waiting for input, or the stack `tss.esp0` points to the end of. -/
  unreferenced : ∀ b ∈ j.freed, b ∉ j.sched.currentTask :: l ++ d ∧
    (∀ t ∈ j.sched.currentTask :: l ++ d, b ∉ j.sched.blocks t) ∧
    (j.sched.awaitingStdin ≠ 0 → j.sched.awaitingStdin ≠ b) ∧
    j.sched.esp0 ≠ b + BitVec.ofNat 32 pageSize
  /-- No freed page directory is loaded, or that of a task. -/
  unreferencedSpaces : ∀ pd ∈ j.freedSpaces, j.sched.cr3 ≠ pd ∧
    ∀ t ∈ j.sched.currentTask :: l ++ d, (j.sched.task t).cr3 ≠ pd
  /-- A completed pass of the reaper leaves the dead queue empty and every task of it reaped, and
  takes from the allocations exactly what it freed for these tasks. -/
  reap : ∀ j', j.Step .reap j' → j'.sched.deadQueue = 0 ∧ j'.exited = j'.reaped.map Reaped.task ∧
    ∃ log, j'.reaped = j.reaped ++ log ∧ log.map Reaped.task = d ∧
      j.sched.heap.Perm (log.flatMap Reaped.kfreed ++ j'.sched.heap) ∧
      j.sched.spaces.Perm (log.flatMap Reaped.unmapped ++ j'.sched.spaces)

/-- A completed pass of the reaper, from a state that keeps the invariant. -/
lemma Inv.account_reap (h : j.Inv l d) (hs : j.Step .reap j') :
    j'.sched.deadQueue = 0 ∧ j'.exited = j'.reaped.map Reaped.task ∧
      ∃ log, j'.reaped = j.reaped ++ log ∧ log.map Reaped.task = d ∧
        j.sched.heap.Perm (log.flatMap Reaped.kfreed ++ j'.sched.heap) ∧
        j.sched.spaces.Perm (log.flatMap Reaped.unmapped ++ j'.sched.spaces) := by
  obtain ⟨hen, n, s', hs, rfl⟩ := hs
  obtain ⟨l', h', hlog, hheap, hspaces⟩ := h.reap hen hs
  have hblocks := h.wf.core.owned_nodup
  have hdirs := h.held.dirs_nodup
  rw [List.flatMap_append] at hblocks hdirs
  refine ⟨h'.wf.core.dead, by simpa using h'.order, _, hlog, by simp [Function.comp_def], ?_, ?_⟩
  · rw [sched_record, hheap, List.flatMap_map]
    refine perm_append_diff ?_ fun b hb => ?_
    · have hp : (d.flatMap j.sched.kfreed).Perm (d.flatMap j.sched.blocks) :=
        List.Perm.flatMap_left d fun t _ => kfreed_perm_blocks j.sched t
      exact hp.nodup_iff.mpr (List.nodup_append.mp hblocks).2.1
    · obtain ⟨t, ht, hbt⟩ := List.mem_flatMap.mp hb
      exact h.held.once b (List.mem_flatMap.mpr ⟨t, List.mem_append_right _ ht,
        (kfreed_perm_blocks j.sched t).mem_iff.mp hbt⟩)
  · rw [sched_record, hspaces, List.flatMap_map]
    refine perm_append_diff (List.nodup_append.mp hdirs).2.1 fun pd hpd => ?_
    obtain ⟨t, ht, hpt⟩ := List.mem_flatMap.mp hpd
    exact h.held.dirs_once pd (List.mem_flatMap.mpr ⟨t, List.mem_append_right _ ht, hpt⟩)

/-- A freed block is not one of the blocks of a task. -/
lemma Inv.freed_notMem (h : j.Inv l d) {b t : Word} (hb : b ∈ j.freed)
    (ht : t ∈ j.sched.currentTask :: l ++ d) : b ∉ j.sched.blocks t := fun hbt =>
  (h.freed b hb).2 (h.wf.core.owned_heap b (List.mem_flatMap.mpr ⟨t, ht, hbt⟩))

/-- A freed page directory is not that of a task. -/
lemma Inv.freed_ne_cr3 (h : j.Inv l d) {pd t : Word} (hpd : pd ∈ j.freedSpaces)
    (ht : t ∈ j.sched.currentTask :: l ++ d) : (j.sched.task t).cr3 ≠ pd := by
  rintro rfl
  obtain ⟨-, hsp, hk⟩ := h.freedSpaces _ hpd
  rcases h.held.cr3_mem ht with he | he
  · exact hk he
  · exact hsp he

/-- **Exits and reaps in every run.** After any interleaving of creations, ticks, sleeps, wakes,
exits and passes of the reaper: each exited task has been reaped at most once and in the order of
the exits, with exactly what `create_task` obtained for it; a pass of the reaper leaves the dead
queue empty; and nothing refers to what has been freed.

**Proof sketch.** The journal keeps its invariant (`Inv.step`). What is freed was allocated once and
is not allocated any more, while every task of the ring and of the dead queue owns allocated
blocks; `tss.esp0` and `cr3` are those of the current task since the first exit. -/
theorem reaped_in_order {j : Journal} (h : Transition.Reach Init Step (fun _ _ => True) j) :
    ∃ l d, j.Accounts l d := by
  obtain ⟨l, d, hinv⟩ := inv_of_reach h
  have hcur : j.sched.currentTask ∈ j.sched.currentTask :: l ++ d := by simp
  refine ⟨l, d, hinv.wf.ring, hinv.wf.core.dead, ?_, hinv.order, hinv.exact, ?_, ?_,
    fun j' hs => hinv.account_reap hs⟩
  · exact fun h0 => hinv.wf.core.notNull 0 (List.mem_append_right _ h0) rfl
  · intro b hb
    refine ⟨fun hmem => ?_, fun t ht => hinv.freed_notMem hb ht, fun h0 he => ?_, fun he => ?_⟩
    · exact hinv.freed_notMem hb hmem (j.sched.mem_blocks_self b)
    · have hmem := (hinv.wf.core.awaiting.resolve_left h0).1
      rw [he] at hmem
      exact hinv.freed_notMem hb (List.mem_append_left _ hmem) (j.sched.mem_blocks_self b)
    · have hl := (hinv.loaded (hinv.freed b hb).1).esp0
      have hstack : (j.sched.task j.sched.currentTask).ring0StackBase = b :=
        (BitVec.add_left_inj _).mp (hl.symm.trans he)
      exact hinv.freed_notMem hb hcur (by simp [Sched.blocks, hstack])
  · intro pd hpd
    refine ⟨?_, fun t ht => hinv.freed_ne_cr3 hpd ht⟩
    rw [(hinv.loaded (hinv.freedSpaces pd hpd).1).cr3]
    exact hinv.freed_ne_cr3 hpd hcur

end Journal

namespace Sched.Hang

/-- The tick after the only user task has exited dispatches the reaper. -/
def reaping : Sched := ticked exited 0x2000#32

/-- The state after the pass of the reaper. -/
def drained : Sched := (reaping.exec 4 .reap).getD default

/-- The journal of a creation, a tick, an exit, a tick and a pass of the reaper. -/
def journal : Journal :=
  (((((Journal.opening default (grantAt 0x1000#32 0x5000#32) (grantAt 0x2000#32 0x6000#32)).record 4
    s₁ (.enqueue (grantAt 0x3000#32 0x7000#32) 0 .ring3)).record 4 s₂ (.tick default)).record 4
    exited .exit).record 4 reaping (.tick default)).record 4 drained .reap

/-- The journal is reachable. -/
lemma reach_journal :
    Transition.Reach Journal.Init Journal.Step (fun _ _ => True) journal := by
  have hinit : (Journal.opening default (grantAt 0x1000#32 0x5000#32)
      (grantAt 0x2000#32 0x6000#32)).Init := by
    obtain ⟨h₁, h₂⟩ := fresh_init
    exact ⟨default, _, _, rfl, rfl, rfl, rfl, h₁, h₂, rfl, rfl, rfl, rfl, rfl, rfl, rfl⟩
  have e₁ : s₀.exec 4 (.enqueue (grantAt 0x3000#32 0x7000#32) 0 .ring3) = some s₁ := rfl
  have e₂ : s₁.exec 4 (.tick default) = some s₂ := rfl
  have e₃ : s₂.exec 4 .exit = some exited := rfl
  have e₄ : exited.exec 4 (.tick default) = some reaping :=
    exec_tick (t := 0x2000#32) (by decide +kernel) (by decide +kernel) (by decide +kernel)
  have e₅ : reaping.exec 4 .reap = some drained := rfl
  have h₁ : Transition.Reach Journal.Init Journal.Step (fun _ _ => True) _ :=
    (Transition.Reach.start hinit).next trivial
    (Journal.step_record rfl e₁ fresh_s₀)
  have h₂ : Transition.Reach Journal.Init Journal.Step (fun _ _ => True) _ := h₁.next trivial
    (Journal.step_record (Journal.sched_record ..) e₂ trivial)
  have h₃ : Transition.Reach Journal.Init Journal.Step (fun _ _ => True) _ := h₂.next trivial
    (Journal.step_record (Journal.sched_record ..) e₃ step_exited.1)
  have h₄ : Transition.Reach Journal.Init Journal.Step (fun _ _ => True) _ := h₃.next trivial
    (Journal.step_record (Journal.sched_record ..) e₄ trivial)
  exact h₄.next trivial (Journal.step_record (Journal.sched_record ..) e₅ rfl)

end Sched.Hang

/-- The account of a run in which a task is created, exits and is reaped. -/
theorem Journal.reaped_in_order_journal : Sched.Hang.journal.exited = [0x3000#32] ∧
    Sched.Hang.journal.freedSpaces = [0x7000#32] ∧ ∃ l d, Sched.Hang.journal.Accounts l d :=
  ⟨rfl, rfl, Journal.reaped_in_order Sched.Hang.reach_journal⟩

end AlphaOS
