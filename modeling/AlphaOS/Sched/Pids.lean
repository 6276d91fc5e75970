import AlphaOS.Sched.RoundRobin
import Mathlib.Data.Nat.Count

set_option relaxedAutoImplicit false
set_option autoImplicit false

/-!
# Process identifiers

`create_task` numbers the tasks with `next_pid++`, and `load_context` tells the idle task from the
others by its number: a task whose number is `IDLE_PID` is never marked `TASK_RUNNING`. So the
numbers have to stay apart for the statuses to be right. This file follows them through the runs of
the scheduler, up to the moment where the counter of 64 bits starts over.

## Main definitions

* `AlphaOS.Sched.SameIds` — what an event that creates no task leaves alone.
* `AlphaOS.Sched.Identified` — the numbers of the tasks are distinct and below `next_pid`, and a
  user task that runs is marked so.

## Main results

* `AlphaOS.Sched.Identified.step` — every event keeps the tasks identified.
* `AlphaOS.Sched.pids_unique` — in every run of fewer than `2 ^ 64 - 2` events.
* `AlphaOS.Sched.pid_never_reused` — in such a run the tasks are numbered in the order of their
  creation, whether or not earlier ones have exited.
-/

namespace AlphaOS

namespace Sched

open Linked List

variable {s s' s'' : Sched} {l l' d d' : List Word} {t : Word} {n : ℕ} {e : Event}

/-! ## What an event leaves alone -/

/-- No task has been created between `s` and `s'`. -/
structure SameIds (s s' : Sched) : Prop where
  pid : s'.pid = s.pid
  nextPid : s'.nextPid = s.nextPid
  idleTask : s'.idleTask = s.idleTask
  reaperTask : s'.reaperTask = s.reaperTask

/-- Nothing has changed. -/
lemma SameIds.refl (s : Sched) : SameIds s s := ⟨rfl, rfl, rfl, rfl⟩

/-- One change after another. -/
lemma SameIds.trans (h : SameIds s s') (h' : SameIds s' s'') : SameIds s s'' where
  pid := h'.pid.trans h.pid
  nextPid := h'.nextPid.trans h.nextPid
  idleTask := h'.idleTask.trans h.idleTask
  reaperTask := h'.reaperTask.trans h.reaperTask

/-- Whether a task is a user's is part of its identity. -/
lemma SameIds.isUser (h : SameIds s s') : s'.IsUser t ↔ s.IsUser t := by
  unfold IsUser
  rw [h.idleTask, h.reaperTask]

/-- Writing a status changes no identity. -/
lemma sameIds_setStatus (s : Sched) (t : Word) (st : TaskStatus) : SameIds s (s.setStatus t st) :=
  ⟨pid_setStatus .., rfl, rfl, rfl⟩

/-- Writing a link changes no identity. -/
lemma sameIds_setNext (s : Sched) (t v : Word) : SameIds s (s.setNext t v) :=
  ⟨pid_setNext .., rfl, rfl, rfl⟩

/-- Waking the idle task changes no identity. -/
lemma sameIds_wakeIdleIfAlone (s : Sched) : SameIds s s.wakeIdleIfAlone := by
  unfold wakeIdleIfAlone
  split_ifs
  · exact s.sameIds_setStatus _ _
  · exact SameIds.refl s

/-- The tick changes no identity. -/
lemma sameIds_tickSuspend (s : Sched) : SameIds s s.tickSuspend := by
  unfold tickSuspend
  split_ifs
  · exact s.sameIds_setStatus _ _
  · exact SameIds.refl s

/-- Waiting for input changes no identity. -/
lemma sameIds_awaitPrepare (s : Sched) : SameIds s s.awaitPrepare := by
  have hsleep := s.sameIds_setStatus s.currentTask .sleep
  unfold awaitPrepare
  split_ifs
  · have h := hsleep.trans (sameIds_setStatus _ s.idleTask .schedulerIdle)
    exact ⟨h.pid, rfl, rfl, rfl⟩
  · exact ⟨hsleep.pid, rfl, rfl, rfl⟩

/-- Waking the reader changes no identity. -/
lemma sameIds_wakeStdinTask (s : Sched) : SameIds s s.wakeStdinTask := by
  unfold wakeStdinTask
  split_ifs
  · exact ⟨(s.sameIds_setStatus _ _).pid, rfl, rfl, rfl⟩
  · exact SameIds.refl s

/-- Saving the context changes no identity. -/
lemma sameIds_saveContext (s : Sched) (f : Option StateFrame) : SameIds s (s.saveContext f) := by
  cases f with
  | none => exact SameIds.refl s
  | some f => exact ⟨pid_setContext .., rfl, rfl, rfl⟩

/-- Dispatching a task changes no identity. -/
lemma sameIds_dispatch (s : Sched) (t : Word) : SameIds s (s.dispatch t) := by
  obtain ⟨-, hidle, hreaper, -⟩ := s.fields_dispatch t
  refine ⟨pid_dispatch s t, ?_, hidle, hreaper⟩
  change (s.markRunning t).nextPid = s.nextPid
  unfold markRunning
  split_ifs <;> rfl

/-- A completed `load_context` creates no task, and marks the one it dispatches unless its number is
that of the idle task. -/
lemma sameIds_loadContext {f : Option StateFrame} (hs : s.loadContext n f = some s') :
    SameIds s s' ∧ (s.pid s'.currentTask ≠ 0 → s'.status s'.currentTask = .running) := by
  obtain ⟨u, -, rfl⟩ := Option.map_eq_some_iff.mp hs
  have hsave := s.sameIds_saveContext f
  refine ⟨hsave.trans (sameIds_dispatch _ u), fun hpid => ?_⟩
  rw [(fields_dispatch _ u).1] at hpid ⊢
  rw [status_dispatch, if_pos (by rwa [hsave.pid]), Function.update_self]

/-- Taking a task off the ring changes no identity. -/
lemma sameIds_exitPrepare (hs : s.exitPrepare n = some s') : SameIds s s' := by
  obtain ⟨p, -, rfl⟩ := Option.map_eq_some_iff.mp hs
  have h : SameIds s s.countOut := ⟨rfl, rfl, rfl, rfl⟩
  exact (h.trans (sameIds_wakeIdleIfAlone _)).trans (sameIds_setNext _ _ _)

/-- `push_dead_queue` changes links only. -/
lemma sameIds_pushDeadQueue (hs : s.pushDeadQueue n t = some s') :
    SameIds s s' ∧ s'.currentTask = s.currentTask ∧ s'.status = s.status := by
  unfold pushDeadQueue at hs
  have hnext := s.sameIds_setNext t 0
  split_ifs at hs
  · rw [← Option.some.inj hs]
    exact ⟨⟨hnext.pid, rfl, rfl, rfl⟩, rfl, status_setNext ..⟩
  · obtain ⟨last, -, rfl⟩ := Option.map_eq_some_iff.mp hs
    refine ⟨hnext.trans (sameIds_setNext _ _ _), rfl, ?_⟩
    rw [status_setNext, status_setNext]

/-- What `enqueue_task` does to the numbers: the new task gets `next_pid`. -/
lemma ids_enqueueTask {g : Grant} {entry : Word} {type : TaskType}
    (hs : s.enqueueTask n g entry type = some s') :
    s'.pid = Function.update s.pid g.task s.nextPid ∧ s'.nextPid = (s.nextPid + 1) % 2 ^ 64 ∧
      s'.idleTask = s.idleTask ∧ s'.reaperTask = s.reaperTask := by
  obtain ⟨p, -, rfl⟩ := Option.map_eq_some_iff.mp hs
  refine ⟨?_, rfl, rfl, rfl⟩
  rw [← pid_createTask s g entry type]
  unfold linkNew sleepIdleTask
  rw [pid_setStatus]
  change (((s.createTask g entry type).setNext p g.task).setNext g.task _).pid = _
  rw [pid_setNext, pid_setNext]

/-! ## The running task -/

/-- A user task that has the processor is marked so. -/
def Marked (s : Sched) : Prop := s.IsUser s.currentTask → s.status s.currentTask = .running

/-- The user tasks of the ring have other numbers than the idle task. -/
def Numbered (s : Sched) (l : List Word) : Prop :=
  ∀ t ∈ s.currentTask :: l, s.IsUser t → s.pid t ≠ 0

/-- `wake_idle_task` concerns no user task. -/
lemma status_wakeIdleIfAlone_of_isUser (h : s.IsUser t) :
    s.wakeIdleIfAlone.status t = s.status t := by
  unfold wakeIdleIfAlone wakeIdleTask
  split_ifs
  · rw [status_setStatus, Function.update_of_ne h.1]
  · rfl

/-- An event that dispatches a task of the ring marks it. -/
lemma Numbered.marked (hn : Numbered s l) (hids : SameIds s s')
    (hmem : s'.currentTask ∈ s.currentTask :: l)
    (hmark : s.pid s'.currentTask ≠ 0 → s'.status s'.currentTask = .running) : Marked s' :=
  fun hu => hmark (hn _ hmem (hids.isUser.mp hu))

/-- **One event** creates no task, or gives a new one the next number; and a user task that runs
after it is marked, if one that ran before was and the user tasks have other numbers than the idle
task. -/
lemma Wf.step_ids (h : Wf s l d) (hn : Numbered s l) (hm : Marked s) (hs : s.Step e s') :
    Marked s' ∧
    ((∃ g entry type, e = .enqueue g entry type ∧ s.Fresh g ∧
        s'.pid = Function.update s.pid g.task s.nextPid ∧ s'.nextPid = (s.nextPid + 1) % 2 ^ 64 ∧
        s'.idleTask = s.idleTask ∧ s'.reaperTask = s.reaperTask) ∨
      (∀ g entry type, e ≠ .enqueue g entry type) ∧ SameIds s s') := by
  obtain ⟨hen, n, hs⟩ := hs
  cases e with
  | enqueue g entry type =>
    have hids := ids_enqueueTask hs
    refine ⟨fun hu => ?_, .inl ⟨g, entry, type, rfl, hen, hids⟩⟩
    have hcur := currentTask_enqueueTask hs
    have hu' : s.IsUser s.currentTask := by
      unfold IsUser at hu ⊢
      rwa [hcur, hids.2.2.1, hids.2.2.2] at hu
    have hne : s.currentTask ≠ g.task := fun he =>
      h.core.fresh_notMem hen (List.mem_append_left _ (he ▸ List.mem_cons_self))
    obtain ⟨p, -, rfl⟩ := Option.map_eq_some_iff.mp hs
    have hst : ((s.createTask g entry type).linkNew p g.task).status =
        Function.update
          (((s.createTask g entry type).setNext p g.task).setNext g.task s.currentTask).status
          s.idleTask .sleep := status_setStatus ..
    rw [hcur, hst, Function.update_of_ne hu'.1, status_setNext, status_setNext, status_createTask,
      Function.update_of_ne hne]
    exact hm hu'
  | tick f =>
    have hcases := h.schedulerTick hs
    simp only [exec, Sched.schedulerTick, Option.bind_eq_bind, Option.bind_eq_some_iff] at hs
    obtain ⟨u, -, hs⟩ := hs
    split_ifs at hs with huc
    · obtain rfl : s.wakeIdleIfAlone = s' := by simpa using hs
      refine ⟨fun hu => ?_, .inr ⟨by simp, s.sameIds_wakeIdleIfAlone⟩⟩
      have hu' : s.IsUser s.currentTask := by
        have := s.sameIds_wakeIdleIfAlone.isUser.mp hu
        rwa [currentTask_wakeIdleIfAlone] at this
      rw [currentTask_wakeIdleIfAlone, status_wakeIdleIfAlone_of_isUser hu']
      exact hm hu'
    · obtain ⟨hload, hmark⟩ := sameIds_loadContext hs
      have hbefore := s.sameIds_wakeIdleIfAlone.trans (sameIds_tickSuspend _)
      have hids := hbefore.trans hload
      rw [hbefore.pid] at hmark
      refine ⟨hn.marked hids ?_ hmark, .inr ⟨by simp, hids⟩⟩
      rcases hcases with ⟨-, hcur, -⟩ | ⟨-, l₁, l₂, hpass, -⟩
      · rw [hcur]
        exact List.mem_cons_self
      · exact hpass.perm.mem_iff.mp List.mem_cons_self
  | await f =>
    obtain ⟨l₁, l₂, hpass, -⟩ := h.awaitStdin hen hs
    obtain ⟨hload, hmark⟩ := sameIds_loadContext hs
    have hids := s.sameIds_awaitPrepare.trans hload
    rw [s.sameIds_awaitPrepare.pid] at hmark
    exact ⟨hn.marked hids (hpass.perm.mem_iff.mp List.mem_cons_self) hmark, .inr ⟨by simp, hids⟩⟩
  | wake =>
    obtain rfl : s.wakeStdinTask = s' := by simpa [exec] using hs
    refine ⟨fun hu => ?_, .inr ⟨by simp, s.sameIds_wakeStdinTask⟩⟩
    rw [currentTask_wakeStdinTask] at hu ⊢
    have hrun := hm (s.sameIds_wakeStdinTask.isUser.mp hu)
    have hne := h.core.ne_awaiting List.mem_cons_self (by rw [hrun]; simp)
    unfold Sched.wakeStdinTask
    split_ifs
    · change (s.setStatus s.awaitingStdin .ready).status s.currentTask = _
      rw [status_setStatus, Function.update_of_ne hne]
      exact hrun
    · exact hrun
  | exit =>
    obtain ⟨l₁, l₂, hpass, -⟩ := h.taskExit hen hs
    simp only [exec, Sched.taskExit, Option.bind_eq_bind, Option.bind_eq_some_iff] at hs
    obtain ⟨s₁, h₁, s₂, h₂, s₃, h₃, hs⟩ := hs
    obtain rfl : s₃.wakeReaperTask = s' := by simpa using hs
    have hprep := sameIds_exitPrepare h₁
    obtain ⟨hload, hmark⟩ := sameIds_loadContext h₂
    obtain ⟨hpush, hcur, hst⟩ := sameIds_pushDeadQueue h₃
    have hids := ((hprep.trans hload).trans hpush).trans (s₃.sameIds_setStatus s₃.reaperTask .ready)
    refine ⟨fun hu => ?_, .inr ⟨by simp, hids⟩⟩
    have hmem : s₂.currentTask ∈ s.currentTask :: l := by
      rw [← hcur]
      exact hpass.perm.mem_iff.mp List.mem_cons_self
    change (s₃.setStatus s₃.reaperTask .ready).status s₃.currentTask = _
    have hne : s₃.currentTask ≠ s₃.reaperTask := hu.2
    rw [status_setStatus, Function.update_of_ne hne, hst, hcur]
    refine hmark ?_
    rw [hprep.pid]
    exact hn _ hmem (by rw [← hcur]; exact hids.isUser.mp hu)
  | reap =>
    obtain ⟨l₁, l₂, hpass, -⟩ := h.reaperTaskLoop hen hs
    simp only [exec, Sched.reaperTaskLoop, Option.bind_eq_bind, Option.bind_eq_some_iff] at hs
    obtain ⟨s₁, h₁, hs⟩ := hs
    obtain ⟨-, heq⟩ := h.drainDeadQueue h₁
    have hdrain : SameIds s s₁ := by
      rw [heq]
      exact ⟨rfl, rfl, rfl, rfl⟩
    have hbefore := hdrain.trans (s₁.sameIds_setStatus s₁.reaperTask .sleep)
    obtain ⟨hload, hmark⟩ := sameIds_loadContext hs
    have hids := hbefore.trans hload
    have hpid : s₁.sleepReaperTask.pid = s.pid := hbefore.pid
    rw [hpid] at hmark
    exact ⟨hn.marked hids (hpass.perm.mem_iff.mp List.mem_cons_self) hmark, .inr ⟨by simp, hids⟩⟩

/-! ## The numbers of the tasks -/

/-- The invariant: the tasks of the ring and of the dead queue have distinct numbers, all of them
used up, the idle task and the reaper have theirs, and a user task that runs is marked. -/
structure Identified (s : Sched) (l d : List Word) : Prop where
  wf : Wf s l d
  distinct : ((s.currentTask :: l ++ d).map s.pid).Nodup
  below : ∀ t ∈ s.currentTask :: l ++ d, s.pid t < s.nextPid
  reaper : s.pid s.reaperTask = 1
  marked : Marked s

/-- Distinct tasks have distinct numbers, so no user task has that of the idle task. -/
lemma Identified.numbered (h : Identified s l d) : Numbered s l := by
  intro t ht hu hpid
  have hinj := List.inj_on_of_nodup_map h.distinct
  refine hu.1 (hinj (List.mem_append_left _ ht) (List.mem_append_left _ h.wf.core.idle_mem) ?_)
  rw [hpid, h.wf.core.idle_pid]

/-- An event that creates no task leaves no more tasks than there were. -/
lemma Effect.subperm (h : Effect s l d e s' l' d')
    (hne : ∀ g entry type, e ≠ .enqueue g entry type) :
    ∃ q, (s'.currentTask :: l' ++ d').Perm q ∧ q.Sublist (s.currentTask :: l ++ d) := by
  cases h with
  | link => exact absurd rfl (hne _ _ _)
  | stay _ hcur =>
    rw [hcur]
    exact ⟨_, List.Perm.refl _, List.Sublist.refl _⟩
  | turn _ hdead hpass =>
    refine ⟨_, hpass.perm.append_right _, List.Sublist.append_left ?_ _⟩
    rcases hdead with ⟨-, rfl⟩ | ⟨-, rfl⟩
    · exact List.nil_sublist d
    · exact List.Sublist.refl _
  | @leave _ l₁ l₂ hpass =>
    refine ⟨_, ?_, List.Sublist.refl _⟩
    have hcomm : (s'.currentTask :: l₂ ++ l₁).Perm (l₁ ++ s'.currentTask :: l₂) :=
      List.perm_append_comm
    calc (s'.currentTask :: (l₂ ++ l₁)) ++ (d ++ [s.currentTask])
        = (s'.currentTask :: (l₂ ++ l₁) ++ d) ++ [s.currentTask] := by rw [List.append_assoc]
      _ ~ s.currentTask :: (s'.currentTask :: (l₂ ++ l₁) ++ d) := List.perm_append_singleton _ _
      _ ~ s.currentTask :: l ++ d := by
        rw [hpass.split]
        exact (hcomm.append_right d).cons s.currentTask

/-- A creation gives the new task a number that no other has. -/
lemma Identified.enqueue {g : Grant} {entry : Word} {type : TaskType} (h : Identified s l d)
    (hf : s.Fresh g) (hs : s.enqueueTask n g entry type = some s') (hbound : s.nextPid + 1 < 2 ^ 64)
    (hm : Marked s') : Identified s' (l ++ [g.task]) d := by
  have hwf := h.wf.enqueueTask hf hs
  obtain ⟨hpid, hnext, -, hreaper⟩ := ids_enqueueTask hs
  rw [Nat.mod_eq_of_lt hbound] at hnext
  have hnew := h.wf.core.fresh_notMem hf
  have hold : ∀ t ∈ s.currentTask :: l ++ d, s'.pid t = s.pid t := by
    intro t ht
    rw [hpid, Function.update_of_ne]
    rintro rfl
    exact hnew ht
  have hself : s'.pid g.task = s.nextPid := by rw [hpid, Function.update_self]
  have hperm :
      (s'.currentTask :: (l ++ [g.task]) ++ d) ~ (g.task :: (s.currentTask :: l ++ d)) := by
    rw [currentTask_enqueueTask hs]
    have hmiddle : (s.currentTask :: l ++ g.task :: d) ~ (g.task :: (s.currentTask :: l ++ d)) :=
      List.perm_middle
    simpa using hmiddle
  refine ⟨hwf, ?_, ?_, ?_, hm⟩
  · rw [(hperm.map s'.pid).nodup_iff, List.map_cons, hself, List.map_congr_left hold]
    refine List.nodup_cons.mpr ⟨fun hmem => ?_, h.distinct⟩
    obtain ⟨t, ht, he⟩ := List.mem_map.mp hmem
    exact absurd he (h.below t ht).ne
  · intro t ht
    rcases List.mem_cons.mp (hperm.mem_iff.mp ht) with rfl | ht
    · omega
    · rw [hold t ht]
      have := h.below t ht
      omega
  · rw [hreaper, hold _ (List.mem_append_left _ h.wf.core.reaper_mem)]
    exact h.reaper

/-- **Every event keeps the tasks identified**, as long as the counter does not start over. -/
theorem Identified.step (h : Identified s l d) (hs : s.Step e s')
    (hbound : s.nextPid + 1 < 2 ^ 64) :
    ∃ l' d', Identified s' l' d' := by
  obtain ⟨hmarked, ⟨g, entry, type, rfl, hfresh, -⟩ | ⟨hne, hids⟩⟩ :=
    h.wf.step_ids h.numbered h.marked hs
  · obtain ⟨-, n, hexec⟩ := hs
    exact ⟨_, _, h.enqueue hfresh hexec hbound hmarked⟩
  · obtain ⟨l', d', hwf, heff⟩ := h.wf.step hs
    obtain ⟨q, hperm, hsub⟩ := heff.subperm hne
    refine ⟨l', d', hwf, ?_, ?_, ?_, hmarked⟩
    · rw [hids.pid]
      exact (hperm.map s.pid).nodup_iff.mpr (h.distinct.sublist (hsub.map s.pid))
    · rw [hids.pid, hids.nextPid]
      exact fun t ht => h.below t (hsub.subset (hperm.mem_iff.mp ht))
    · rw [hids.pid, hids.reaperTask]
      exact h.reaper

/-- After `init_scheduler` the idle task has the number `IDLE_PID` and the reaper `REAPER_PID`. -/
lemma identified_of_init (h : Init s) : (∃ l d, Identified s l d) ∧ s.nextPid = 2 := by
  obtain ⟨s₀, g₁, g₂, htotal, hpid, hdead, hawait, h₁, h₂, rfl⟩ := h
  have hwf := wf_initScheduler htotal hpid hdead hawait h₁ h₂
  have hcur : (s₀.initScheduler g₁ g₂).currentTask = g₁.task := rfl
  have hreaper : (s₀.initScheduler g₁ g₂).reaperTask = g₂.task := rfl
  have hne : g₁.task ≠ g₂.task := by
    have hnd := hwf.ring.1
    rw [hcur] at hnd
    simpa using hnd
  have hnext₁ : (s₀.createIdle g₁).nextPid = 1 := by
    change (s₀.nextPid + 1) % 2 ^ 64 = 1
    rw [hpid]
    decide
  have hnext : (s₀.initScheduler g₁ g₂).nextPid = 2 := by
    change ((s₀.createIdle g₁).nextPid + 1) % 2 ^ 64 = 2
    rw [hnext₁]
    decide
  have hids : (s₀.initScheduler g₁ g₂).pid g₁.task = 0 ∧
      (s₀.initScheduler g₁ g₂).pid g₂.task = 1 := by
    have hall : (s₀.initScheduler g₁ g₂).pid =
        Function.update (Function.update s₀.pid g₁.task s₀.nextPid) g₂.task
          (s₀.createIdle g₁).nextPid := by
      change ((((s₀.createIdle g₁).createReaper g₂).setNext _ _).setNext _ _).pid = _
      rw [pid_setNext, pid_setNext]
      change (((s₀.createIdle g₁).createTask g₂ _ .ring0).setStatus g₂.task .sleep).pid = _
      rw [pid_setStatus, pid_createTask]
      change Function.update ((s₀.createTask g₁ _ .ring0).setStatus g₁.task .schedulerIdle).pid _
        _ = _
      rw [pid_setStatus, pid_createTask]
    rw [hall, Function.update_self, Function.update_of_ne hne, Function.update_self]
    exact ⟨hpid, hnext₁⟩
  refine ⟨⟨_, _, hwf, ?_, ?_, ?_, ?_⟩, hnext⟩
  · rw [hcur]
    simp [hids]
  · rw [hcur, hnext]
    simp [hids]
  · rw [hreaper]
    exact hids.2
  · exact fun hu => absurd rfl hu.1

/-- In a run of few enough events every state is identified, and each event uses up one number at
most. -/
lemma identified_of_run {N : ℕ} {τ : ℕ → Sched} {a : ℕ → Event} (h : Transition.Run Init Step N τ a)
    (hN : N + 2 < 2 ^ 64) {i : ℕ} (hi : i ≤ N) :
    (∃ l d, Identified (τ i) l d) ∧ (τ i).nextPid ≤ i + 2 := by
  induction i with
  | zero =>
    obtain ⟨hid, hnext⟩ := identified_of_init h.start
    exact ⟨hid, hnext.le⟩
  | succ i ih =>
    obtain ⟨⟨l, d, hid⟩, hle⟩ := ih (by omega)
    have hstep := h.step i (by omega)
    refine ⟨hid.step hstep (by omega), ?_⟩
    obtain ⟨-, ⟨g, entry, type, -, -, -, hnext, -⟩ | ⟨-, hids⟩⟩ :=
      hid.wf.step_ids hid.numbered hid.marked hstep
    · rw [hnext, Nat.mod_eq_of_lt (by omega)]
      omega
    · rw [hids.nextPid]
      omega

/-- **The numbers of the tasks are unique.** In every run of fewer than `2 ^ 64 - 2` events from
`init_scheduler`: the tasks of the ring and of the dead queue have pairwise distinct numbers, `0`
and `1` are those of the idle task and of the reaper, and so `load_context` marks every other task
it dispatches: a user task has the processor if and only if it is marked `TASK_RUNNING`. -/
theorem pids_unique {N : ℕ} {τ : ℕ → Sched} {a : ℕ → Event} (h : Transition.Run Init Step N τ a)
    (hN : N + 2 < 2 ^ 64) {i : ℕ} (hi : i ≤ N) :
    ∃ l d, Ring (τ i).next (τ i).currentTask l ∧ Lseg (τ i).next (τ i).deadQueue d 0 ∧
      (((τ i).currentTask :: l ++ d).map (τ i).pid).Nodup ∧
      (τ i).pid (τ i).idleTask = 0 ∧ (τ i).pid (τ i).reaperTask = 1 ∧
      ∀ t ∈ (τ i).currentTask :: l, (τ i).IsUser t →
        (t = (τ i).currentTask ↔ (τ i).status t = .running) := by
  obtain ⟨⟨l, d, hid⟩, -⟩ := identified_of_run h hN hi
  refine ⟨l, d, hid.wf.ring, hid.wf.core.dead, hid.distinct, hid.wf.core.idle_pid, hid.reaper, ?_⟩
  intro t ht hu
  constructor
  · rintro rfl
    exact hid.marked hu
  · intro hrun
    rcases List.mem_cons.mp ht with rfl | ht
    · rfl
    · exact absurd hrun (hid.wf.others t ht)

/-- The event creates a task. -/
def Event.creates : Event → Bool
  | .enqueue _ _ _ => true
  | _ => false

/-- The counter has gone on by one for each task that has been created. -/
lemma nextPid_of_run {N : ℕ} {τ : ℕ → Sched} {a : ℕ → Event} (h : Transition.Run Init Step N τ a)
    (hN : N + 2 < 2 ^ 64) {i : ℕ} (hi : i ≤ N) :
    (τ i).nextPid = 2 + Nat.count (fun m => (a m).creates = true) i := by
  induction i with
  | zero => exact (identified_of_init h.start).2
  | succ i ih =>
    obtain ⟨⟨l, d, hid⟩, hle⟩ := identified_of_run h hN (show i ≤ N by omega)
    have hnow := ih (by omega)
    rw [Nat.count_succ]
    obtain ⟨-, ⟨g, entry, type, ha, -, -, hnext, -⟩ | ⟨hne, hids⟩⟩ :=
      hid.wf.step_ids hid.numbered hid.marked (h.step i (by omega))
    · have hcreates : (a i).creates = true := by rw [ha, Event.creates]
      rw [hnext, Nat.mod_eq_of_lt (by omega), hnow, if_pos hcreates, Nat.add_assoc]
    · have hcreates : ¬ (a i).creates = true := by
        cases ha : a i with
        | enqueue g entry type => exact absurd ha (hne g entry type)
        | _ => exact Bool.false_ne_true
      rw [hids.nextPid, hnow, if_neg hcreates, Nat.add_zero]

/-- A new task gets the number of the counter. -/
lemma pid_of_creation {N : ℕ} {τ : ℕ → Sched} {a : ℕ → Event} (h : Transition.Run Init Step N τ a)
    (hN : N + 2 < 2 ^ 64) {i : ℕ} (hi : i < N) {g : Grant} {entry : Word} {type : TaskType}
    (ha : a i = .enqueue g entry type) :
    (τ (i + 1)).pid g.task = 2 + Nat.count (fun m => (a m).creates = true) i := by
  obtain ⟨-, n, hexec⟩ := h.step i hi
  rw [ha] at hexec
  rw [(ids_enqueueTask hexec).1, Function.update_self, nextPid_of_run h hN hi.le]

/-- A task keeps its number until its block is given to another one. -/
lemma pid_kept {N : ℕ} {τ : ℕ → Sched} {a : ℕ → Event} (h : Transition.Run Init Step N τ a)
    (hN : N + 2 < 2 ^ 64) {i k : ℕ} (hik : i ≤ k) (hk : k ≤ N)
    (hkept : ∀ m, i ≤ m → m < k → ∀ g entry type, a m = .enqueue g entry type → g.task ≠ t) :
    (τ k).pid t = (τ i).pid t := by
  induction k, hik using Nat.le_induction with
  | base => rfl
  | succ k hik ih =>
    have hbefore := ih (by omega) fun m h₁ h₂ => hkept m h₁ (by omega)
    obtain ⟨⟨l, d, hid⟩, -⟩ := identified_of_run h hN (show k ≤ N by omega)
    obtain ⟨-, ⟨g, entry, type, ha, -, hpid, -⟩ | ⟨-, hids⟩⟩ :=
      hid.wf.step_ids hid.numbered hid.marked (h.step k (by omega))
    · rw [hpid, Function.update_of_ne (hkept k hik (by omega) g entry type ha).symm, hbefore]
    · rw [hids.pid, hbefore]

/-- **A number is never used again.** In every run of fewer than `2 ^ 64 - 2` events, the tasks are
numbered from `2` on in the order in which they are created. So of two tasks that are created one
after the other the second has the greater number, whatever became of the first in between; and a
task has its number until its block is given to another task.

**Proof sketch.** Only a creation changes the counter or a number, by induction on the run: the
counter is two more than the creations so far, and a task gets what it is at its own. -/
theorem pid_never_reused {N : ℕ} {τ : ℕ → Sched} {a : ℕ → Event}
    (h : Transition.Run Init Step N τ a) (hN : N + 2 < 2 ^ 64) {i j : ℕ} (hij : i < j) (hj : j < N)
    {g g' : Grant} {entry entry' : Word} {type type' : TaskType} (hi : a i = .enqueue g entry type)
    (hj' : a j = .enqueue g' entry' type') :
    (τ (i + 1)).pid g.task < (τ (j + 1)).pid g'.task ∧
      (τ (i + 1)).pid g.task = 2 + Nat.count (fun m => (a m).creates = true) i ∧
      ∀ k, i < k → k ≤ N →
        (∀ m, i < m → m < k → ∀ g₁ entry₁ type₁, a m = .enqueue g₁ entry₁ type₁ →
          g₁.task ≠ g.task) →
        (τ k).pid g.task = (τ (i + 1)).pid g.task := by
  have hpid := pid_of_creation h hN (show i < N by omega) hi
  have hpid' := pid_of_creation h hN hj hj'
  refine ⟨?_, hpid, fun k hik hk hkept => pid_kept h hN hik hk fun m h₁ h₂ => hkept m (by omega) h₂⟩
  have hcreates : (a i).creates = true := by rw [hi, Event.creates]
  have hlt :
      Nat.count (fun m => (a m).creates = true) i < Nat.count (fun m => (a m).creates = true) j :=
    Nat.count_strict_mono hcreates hij
  rw [hpid, hpid']
  omega

/-- In a run of two creations and four ticks the four tasks have distinct numbers. -/
theorem pids_unique_states : ∃ l d, Ring (Hang.states 6).next (Hang.states 6).currentTask l ∧
    (((Hang.states 6).currentTask :: l ++ d).map (Hang.states 6).pid).Nodup := by
  obtain ⟨l, d, hring, -, hnodup, -⟩ := pids_unique Hang.run_states (by decide) (Nat.le_refl 6)
  exact ⟨l, d, hring, hnodup⟩

/-- The second of the two tasks has the greater number, and the first keeps its own. -/
theorem pid_never_reused_states : (Hang.states 1).pid 0x3000#32 < (Hang.states 2).pid 0x4000#32 ∧
    (Hang.states 1).pid 0x3000#32 = 2 := by
  obtain ⟨hlt, hpid, -⟩ :=
    pid_never_reused Hang.run_states (by decide) (i := 0) (j := 1) (by decide)
    (by decide) rfl rfl
  exact ⟨hlt, hpid⟩

end Sched

end AlphaOS
