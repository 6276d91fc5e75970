import Mathlib.Data.Fintype.Card
import AlphaOS.Sched.Invariant

set_option relaxedAutoImplicit false
set_option autoImplicit false

/-!
# Every event keeps the scheduler's invariant

One lemma for each function of the scheduler, then the step lemma and, by induction over runs,
the invariant of every reachable state.

## Main results

* `AlphaOS.Sched.Wf.schedulerTick`, `Wf.awaitStdin`, `Wf.wakeStdinTask`, `Wf.taskExit`,
  `Wf.enqueueTask`, `Wf.reaperTaskLoop` — what each event does to the ring and the dead queue.
* `AlphaOS.Sched.Wf.step`, `AlphaOS.Sched.wf_of_reach` — what one event does to the ring and the
  dead queue, and the invariant of every run.
-/

namespace AlphaOS

namespace Sched

open Linked

variable {s s' : Sched} {r l d : List Word} {t : Word} {n : ℕ}

/-! ## The tick -/

/-- Waking the idle task keeps the core. -/
lemma Core.wakeIdleTask (h : Core s r d) : Core s.wakeIdleTask r d :=
  h.setStatus _ _ (fun _ => by simp) (fun _ => rfl) fun ha => absurd ha h.idle_ne_awaiting

/-- Waking the idle task, if at all, keeps the core. -/
lemma Core.wakeIdleIfAlone (h : Core s r d) : Core s.wakeIdleIfAlone r d := by
  unfold Sched.wakeIdleIfAlone
  split_ifs
  · exact h.wakeIdleTask
  · exact h

/-- Waking the idle task changes no link. -/
@[simp] lemma next_wakeIdleIfAlone (s : Sched) : s.wakeIdleIfAlone.next = s.next := by
  unfold wakeIdleIfAlone wakeIdleTask
  split_ifs <;> simp

/-- Waking the idle task does not switch tasks. -/
@[simp] lemma currentTask_wakeIdleIfAlone (s : Sched) :
    s.wakeIdleIfAlone.currentTask = s.currentTask := by
  unfold wakeIdleIfAlone
  split_ifs <;> rfl

/-- Waking the idle task leaves a status alone or makes it `TASK_SCHEDULER_IDLE`. -/
lemma status_wakeIdleTask (s : Sched) (u : Word) :
    s.wakeIdleTask.status u = .schedulerIdle ∨ s.wakeIdleTask.status u = s.status u := by
  rw [wakeIdleTask, status_setStatus, Function.update_apply]
  split_ifs
  · exact .inl rfl
  · exact .inr rfl

/-- Waking the idle task, if at all, leaves a status alone or makes it
`TASK_SCHEDULER_IDLE`. -/
lemma status_wakeIdleIfAlone (s : Sched) (u : Word) :
    s.wakeIdleIfAlone.status u = .schedulerIdle ∨ s.wakeIdleIfAlone.status u = s.status u := by
  unfold wakeIdleIfAlone
  split_ifs
  · exact s.status_wakeIdleTask u
  · exact .inr rfl

/-- Waking the idle task keeps the invariant. -/
lemma Wf.wakeIdleIfAlone (h : Wf s l d) : Wf s.wakeIdleIfAlone l d where
  ring := by simpa using h.ring
  core := by
    rw [currentTask_wakeIdleIfAlone]
    exact h.core.wakeIdleIfAlone
  others := by
    intro t ht
    rcases s.status_wakeIdleIfAlone t with he | he
    · rw [he]; simp
    · rw [he]; exact h.others t ht
  awake := by
    rw [currentTask_wakeIdleIfAlone]
    rcases s.status_wakeIdleIfAlone s.currentTask with he | he
    · rw [he]; simp
    · rw [he]
      intro hst
      unfold Sched.wakeIdleIfAlone
      split_ifs <;> exact h.awake hst

/-- Setting the status of the current task to anything but `TASK_RUNNING` suspends it. -/
lemma Wf.suspend (h : Wf s l d) {st : TaskStatus} (hrun : st ≠ .running)
    (hidle : st ≠ .schedulerIdle) (hawait : s.currentTask = s.awaitingStdin → st = .sleep) :
    Suspended (s.setStatus s.currentTask st) l d where
  ring := by simpa using h.ring
  core := h.core.setStatus _ _ (fun _ => hrun) (fun he => absurd he hidle) hawait
  none_running := by
    intro u hu
    rw [status_setStatus, Function.update_apply]
    split_ifs with hu'
    · exact hrun
    · rcases List.mem_cons.mp hu with rfl | hu
      · exact absurd rfl hu'
      · exact h.others u hu

/-- The current task does not wait for input. -/
lemma Wf.current_ne_awaiting (h : Wf s l d) : s.currentTask ≠ s.awaitingStdin := by
  intro he
  by_cases hst : s.status s.currentTask = .sleep
  · exact h.core.idle_ne_awaiting ((h.awake hst).symm.trans he)
  · exact h.core.ne_awaiting List.mem_cons_self hst he

/-- Suspending the current task of a tick. -/
lemma Wf.tickSuspend (h : Wf s l d) : Suspended s.tickSuspend l d := by
  unfold Sched.tickSuspend
  split_ifs with hst
  · exact h.suspend (by simp) (by simp) fun he => absurd he h.current_ne_awaiting
  · refine ⟨h.ring, h.core, fun u hu => ?_⟩
    rcases List.mem_cons.mp hu with rfl | hu
    · rw [not_not.mp hst]; simp
    · exact h.others u hu

/-- A tick that suspends leaves the current task in place. -/
@[simp] lemma currentTask_tickSuspend (s : Sched) : s.tickSuspend.currentTask = s.currentTask := by
  unfold tickSuspend
  split_ifs <;> rfl

/-- A tick that suspends leaves the other tasks' statuses alone. -/
lemma status_tickSuspend_of_ne {u : Word} (hu : u ≠ s.currentTask) :
    s.tickSuspend.status u = s.status u := by
  unfold tickSuspend
  split_ifs
  · rw [status_setStatus, Function.update_of_ne hu]
  · rfl

/-- A task of the ring other than the current one is not the current one. -/
lemma Wf.ne_current (h : Wf s l d) {u : Word} (hu : u ∈ l) : u ≠ s.currentTask :=
  fun he => (List.nodup_cons.mp h.ring.1).1 (he ▸ hu)

/-- **A tick keeps the invariant.** It leaves the ring as it is or dispatches the next task of it,
passing over no ready one.

**Proof sketch.** The second call of `next_task` finds what the first one found: between the two
only the status of the current task changes, and the first call stopped before coming round to
it. -/
theorem Wf.schedulerTick {f : StateFrame} (h : Wf s l d)
    (hs : s.schedulerTick n f = some s') :
    ¬ s.LoadsContext (.tick f) ∧ s'.currentTask = s.currentTask ∧ Wf s' l d ∨
      s.LoadsContext (.tick f) ∧ ∃ l₁ l₂, Passes s l s'.currentTask l₁ l₂ ∧
        Wf s' (l₂ ++ s.currentTask :: l₁) d := by
  simp only [Sched.schedulerTick, Option.bind_eq_bind, Option.bind_eq_some_iff] at hs
  obtain ⟨t, ht, hs⟩ := hs
  split_ifs at hs with htc
  · obtain rfl : s.wakeIdleIfAlone = s' := by simpa using hs
    refine .inl ⟨?_, currentTask_wakeIdleIfAlone s, h.wakeIdleIfAlone⟩
    rintro ⟨m, u, hu, hne⟩
    exact hne ((walk_unique hu ht).trans htc)
  · have hwf := h.wakeIdleIfAlone
    obtain ⟨l₀, hl₀, hring₀⟩ := hwf.ring.rotate_next
    obtain ⟨hmem, hsel⟩ := mem_of_nextTask hring₀ ht
    rw [hl₀, currentTask_wakeIdleIfAlone] at hmem
    have htl : t ∈ l := by simpa [htc] using hmem
    obtain ⟨u, l', hturn, rfl, hwf'⟩ := hwf.tickSuspend.loadContext hs
    rw [currentTask_tickSuspend, currentTask_wakeIdleIfAlone] at hturn
    have hst : ∀ v ∈ l, s.wakeIdleIfAlone.tickSuspend.status v = s.wakeIdleIfAlone.status v :=
      fun v hv => status_tickSuspend_of_ne (by
        rw [currentTask_wakeIdleIfAlone]
        exact h.ne_current hv)
    have hu : u ≠ s.currentTask :=
      hturn.ne_last (List.nodup_cons.mp h.ring.1).1 htl (by rw [hst t htl]; exact hsel)
    obtain ⟨l₁, l₂, hpass, rfl⟩ := hturn.passes_of_ne hu (s := s) fun v hv => by
      rw [hst v hv]
      exact s.status_wakeIdleIfAlone v
    refine .inr ⟨⟨n, t, ht, htc⟩, l₁, l₂, ?_, hwf'⟩
    rw [(fields_dispatch _ u).1]
    exact hpass

/-! ## Sleeping and waking -/

/-- `await_stdin` before its `load_context`, called by a user task. -/
lemma Wf.awaitPrepare (h : Wf s l d) (huser : s.IsUser s.currentTask) :
    Suspended s.awaitPrepare l d := by
  have hsus : Suspended (s.setStatus s.currentTask .sleep) l d :=
    h.suspend (by simp) (by simp) fun _ => rfl
  have hself : (s.setStatus s.currentTask .sleep).status s.currentTask = .sleep := by simp
  unfold Sched.awaitPrepare
  split_ifs
  · set s₁ := s.setStatus s.currentTask .sleep with hs₁
    have hnext : s₁.wakeIdleTask.next = s₁.next := by simp [Sched.wakeIdleTask]
    have hcore := hsus.core.wakeIdleTask
    have hcur : s₁.wakeIdleTask.status s.currentTask = .sleep := by
      rw [Sched.wakeIdleTask, status_setStatus,
        Function.update_of_ne (show s.currentTask ≠ s₁.idleTask from huser.1), hself]
    refine ⟨?_, ?_, ?_⟩
    · exact hnext ▸ hsus.ring
    · exact hcore.of_status rfl rfl rfl rfl rfl rfl rfl rfl
        (.inr ⟨List.mem_cons_self, huser, hcur⟩) hcore.idle_status hcore.only_idle
    · intro u hu
      change s₁.wakeIdleTask.status u ≠ .running
      rcases s₁.status_wakeIdleTask u with he | he
      · rw [he]; simp
      · rw [he]; exact hsus.none_running u hu
  · exact ⟨hsus.ring, hsus.core.of_status rfl rfl rfl rfl rfl rfl rfl rfl
      (.inr ⟨List.mem_cons_self, huser, hself⟩) hsus.core.idle_status hsus.core.only_idle,
      hsus.none_running⟩

/-- `await_stdin` leaves the current task in place until its `load_context`. -/
@[simp] lemma currentTask_awaitPrepare (s : Sched) :
    s.awaitPrepare.currentTask = s.currentTask := by
  unfold awaitPrepare
  split_ifs <;> rfl

/-- `await_stdin`, before its `load_context`, puts the caller to sleep and at most wakes the idle
task. -/
lemma status_awaitPrepare (h : s.IsUser s.currentTask) (u : Word) :
    u = s.currentTask ∧ s.awaitPrepare.status u = .sleep ∨
      u ≠ s.currentTask ∧ (s.awaitPrepare.status u = .schedulerIdle ∨
        s.awaitPrepare.status u = s.status u) := by
  have hsleep : (s.setStatus s.currentTask .sleep).status =
      Function.update s.status s.currentTask .sleep := status_setStatus ..
  have hcases : s.awaitPrepare.status u = (s.setStatus s.currentTask .sleep).status u ∨
      s.awaitPrepare.status u = .schedulerIdle ∧ u = s.idleTask := by
    unfold awaitPrepare
    split_ifs
    · change (s.setStatus s.currentTask .sleep).wakeIdleTask.status u = _ ∨
        (s.setStatus s.currentTask .sleep).wakeIdleTask.status u = _ ∧ _
      rw [wakeIdleTask, status_setStatus, Function.update_apply]
      split_ifs with hu
      · exact .inr ⟨rfl, hu⟩
      · exact .inl rfl
    · exact .inl rfl
  by_cases hu : u = s.currentTask
  · refine .inl ⟨hu, ?_⟩
    rcases hcases with he | ⟨-, hidle⟩
    · rw [he, hsleep, hu, Function.update_self]
    · exact absurd (hu.symm.trans hidle) h.1
  · refine .inr ⟨hu, ?_⟩
    rcases hcases with he | ⟨he, -⟩
    · rw [he, hsleep, Function.update_of_ne hu]
      exact .inr rfl
    · exact .inl he

/-- A turn made while the current task, the last of the ring, sleeps comes to another task. -/
lemma Turn.ne_of_sleep {c t : Word} {l' : List Word} (h : Turn s r t l')
    (hc : s.status c = .sleep) : t ≠ c := by
  rintro rfl
  have hsel := h.selected
  simp [hc, selectable] at hsel

/-- **`await_stdin` keeps the invariant** and dispatches the next task of the ring. -/
theorem Wf.awaitStdin {f : StateFrame} (h : Wf s l d) (huser : s.IsUser s.currentTask)
    (hs : s.awaitStdin n f = some s') :
    ∃ l₁ l₂, Passes s l s'.currentTask l₁ l₂ ∧ Wf s' (l₂ ++ s.currentTask :: l₁) d := by
  obtain ⟨t, l', hturn, rfl, hwf⟩ := (h.awaitPrepare huser).loadContext hs
  rw [currentTask_awaitPrepare] at hturn
  have hsleep : s.awaitPrepare.status s.currentTask = .sleep :=
    (status_awaitPrepare huser s.currentTask).elim And.right fun hc => absurd rfl hc.1
  obtain ⟨l₁, l₂, hpass, rfl⟩ := hturn.passes_of_ne (hturn.ne_of_sleep hsleep) (s := s)
    fun u hu => (status_awaitPrepare huser u).elim
      (fun hc => absurd hc.1 (h.ne_current hu)) And.right
  refine ⟨l₁, l₂, ?_, hwf⟩
  rw [(fields_dispatch _ t).1]
  exact hpass

/-- `wake_stdin_task` leaves the current task in place. -/
lemma currentTask_wakeStdinTask (s : Sched) : s.wakeStdinTask.currentTask = s.currentTask := by
  unfold wakeStdinTask
  split_ifs <;> rfl

/-- **`wake_stdin_task` keeps the invariant.** -/
theorem Wf.wakeStdinTask (h : Wf s l d) : Wf s.wakeStdinTask l d := by
  unfold Sched.wakeStdinTask
  split_ifs with ha
  · have hst : ∀ u, u ≠ s.awaitingStdin →
        (s.setStatus s.awaitingStdin .ready).status u = s.status u := by
      intro u hu
      rw [status_setStatus, Function.update_of_ne hu]
    have hready : (s.setStatus s.awaitingStdin .ready).status s.awaitingStdin = .ready := by simp
    have hnext : (s.setStatus s.awaitingStdin .ready).next = s.next := by simp
    refine ⟨hnext ▸ h.ring, ?_, ?_, ?_⟩
    · refine h.core.of_status hnext ?_ ?_ rfl rfl rfl rfl rfl (.inl rfl) ?_ ?_
      · exact pid_setStatus s s.awaitingStdin .ready
      · exact blocks_setStatus s s.awaitingStdin .ready
      · change (s.setStatus s.awaitingStdin .ready).status s.idleTask ≠ .running
        rw [hst _ h.core.idle_ne_awaiting]
        exact h.core.idle_status
      · intro u hu hu'
        change (s.setStatus s.awaitingStdin .ready).status u = .schedulerIdle at hu'
        by_cases hua : u = s.awaitingStdin
        · rw [hua, hready] at hu'; simp at hu'
        · exact h.core.only_idle u hu (hst u hua ▸ hu')
    · intro u hu
      change (s.setStatus s.awaitingStdin .ready).status u ≠ .running
      by_cases hua : u = s.awaitingStdin
      · rw [hua, hready]; simp
      · rw [hst u hua]; exact h.others u hu
    · change (s.setStatus s.awaitingStdin .ready).status s.currentTask = .sleep → _
      rw [hst _ h.current_ne_awaiting]
      exact h.awake
  · exact h

/-! ## Exiting -/

/-- A user task is on the ring beside the idle task and the reaper, so it counts. -/
lemma Wf.taskTotal_pos (h : Wf s l d) (huser : s.IsUser s.currentTask) : 0 < s.taskTotal := by
  have hsub : [s.currentTask, s.idleTask, s.reaperTask] ⊆ s.currentTask :: l := by
    intro u hu
    simp only [List.mem_cons, List.not_mem_nil, or_false] at hu
    rcases hu with rfl | rfl | rfl
    · exact List.mem_cons_self
    · exact h.core.idle_mem
    · exact h.core.reaper_mem
  have hnd : [s.currentTask, s.idleTask, s.reaperTask].Nodup := by
    simpa using ⟨⟨huser.1, huser.2⟩, h.core.idle_ne_reaper⟩
  have hlen := (List.subperm_of_subset hnd hsub).length_le
  rw [h.core.total] at hlen
  simp only [List.length_cons, List.length_nil] at hlen
  omega

/-- The ring is a list of distinct 32-bit addresses, so the task count does not wrap. -/
lemma Wf.taskTotal_lt (h : Wf s l d) : s.taskTotal + 1 < 2 ^ 64 := by
  have hnd : ((s.currentTask :: l).map BitVec.toNat).Nodup :=
    h.ring.1.map fun _ _ => BitVec.eq_of_toNat_eq
  have hsub : (s.currentTask :: l).map BitVec.toNat ⊆ List.range (2 ^ 32) := by
    intro x hx
    obtain ⟨w, -, rfl⟩ := List.mem_map.mp hx
    exact List.mem_range.mpr w.isLt
  have hlen := (List.subperm_of_subset hnd hsub).length_le
  rw [List.length_map, h.core.total, List.length_range] at hlen
  omega

/-- Relinking nodes of the ring and taking the current user task off it keeps the core. -/
lemma Wf.core_unlink (h : Wf s l d) (huser : s.IsUser s.currentTask) {p v : Word} (hp : p ∈ l) :
    Core ({ s with taskTotal := s.taskTotal - 1 }.setNext p v) l d where
  idle_mem := (List.mem_cons.mp h.core.idle_mem).resolve_left huser.1.symm
  reaper_mem := (List.mem_cons.mp h.core.reaper_mem).resolve_left huser.2.symm
  idle_ne_reaper := h.core.idle_ne_reaper
  total := by
    have h₁ := h.core.total
    have h₂ := h.taskTotal_pos huser
    change l.length = s.taskTotal - 1 + 2
    simp only [List.length_cons] at h₁
    omega
  dead := by
    have hpd : p ∉ d := fun hd => h.core.dead_disjoint p hd (List.mem_cons_of_mem _ hp)
    rw [next_setNext]
    exact h.core.dead.update hpd
  notNull := fun t ht => h.core.notNull t (List.mem_cons_of_mem _ ht)
  awaiting := by
    rw [status_setNext]
    refine h.core.awaiting.imp_right fun ⟨hm, hu, hs⟩ => ⟨?_, hu, hs⟩
    exact (List.mem_cons.mp hm).resolve_left fun he => h.current_ne_awaiting he.symm
  idle_pid := by rw [pid_setNext]; exact h.core.idle_pid
  idle_status := by rw [status_setNext]; exact h.core.idle_status
  only_idle := by
    rw [status_setNext]
    exact fun t ht => h.core.only_idle t (List.mem_cons_of_mem _ ht)
  owned_nodup := by
    have hn := h.core.owned_nodup
    rw [List.cons_append, List.flatMap_cons] at hn
    rw [blocks_setNext]
    exact (List.nodup_append.mp hn).2.1
  owned_heap := by
    intro b hb
    rw [blocks_setNext] at hb
    refine h.core.owned_heap b ?_
    rw [List.cons_append, List.flatMap_cons]
    exact List.mem_append_right _ hb

/-- Counting a user task out does not wrap. -/
lemma Wf.countOut_eq (h : Wf s l d) (huser : s.IsUser s.currentTask) :
    s.countOut = { s with taskTotal := s.taskTotal - 1 } := by
  have hpos := h.taskTotal_pos huser
  rw [countOut, if_neg (by omega)]

/-- Relinking a node and waking the idle task commute. -/
lemma setNext_wakeIdleIfAlone (s : Sched) (p v : Word) :
    s.wakeIdleIfAlone.setNext p v = (s.setNext p v).wakeIdleIfAlone := by
  unfold wakeIdleIfAlone
  rw [show (s.setNext p v).taskTotal = s.taskTotal from rfl]
  split_ifs
  · exact s.setNext_setStatus p v _ _
  · rfl

/-- The predecessor that the loop of `task_exit` finds is the last node of the ring, and the
ring without the current task is a ring again. -/
lemma Wf.unlinkCurrent {x : Word} {l' : List Word} (h : Wf s (x :: l') d)
    (hs : s.unlinkCurrent n = some s') :
    ∃ p ∈ x :: l', s' = s.setNext p x ∧ s'.next s.currentTask = x ∧ Ring s'.next x l' := by
  simp only [Sched.unlinkCurrent, Option.map_eq_some_iff] at hs
  obtain ⟨p, hp, rfl⟩ := hs
  have hpeq : p = (s.currentTask :: x :: l').getLast (by simp) :=
    walk_unique hp (h.ring.walk_pred (Nat.lt_succ_self _))
  have hpl : p ∈ x :: l' := by
    rw [hpeq, List.getLast_cons (by simp)]
    exact List.getLast_mem _
  have hpc : s.currentTask ≠ p := fun he => (List.nodup_cons.mp h.ring.1).1 (he ▸ hpl)
  have hx : s.next s.currentTask = x := h.ring.2.2.eq_head
  refine ⟨p, hpl, by rw [hx], ?_, ?_⟩
  · rw [next_setNext, Function.update_of_ne hpc, hx]
  · rw [next_setNext, hpeq]
    exact h.ring.remove

/-- Counting a task out changes no link. -/
@[simp] lemma next_countOut (s : Sched) : s.countOut.next = s.next := rfl

/-- Counting a task out does not switch tasks. -/
@[simp] lemma currentTask_countOut (s : Sched) : s.countOut.currentTask = s.currentTask := rfl

/-- Counting a task out does not touch the ring, so it can be done after the unlinking. -/
lemma exitPrepare_eq (n : ℕ) (s : Sched) :
    s.exitPrepare n = (s.unlinkCurrent n).map fun s' => s'.countOut.wakeIdleIfAlone := by
  have hpred : s.countOut.wakeIdleIfAlone.predecessor n = s.predecessor n := by
    simp only [predecessor, next_wakeIdleIfAlone, currentTask_wakeIdleIfAlone, next_countOut,
      currentTask_countOut]
  simp only [exitPrepare, unlinkCurrent, hpred, Option.map_map, next_wakeIdleIfAlone,
    currentTask_wakeIdleIfAlone, setNext_wakeIdleIfAlone, next_countOut, currentTask_countOut]
  rfl

/-- `task_exit` before its `load_context`: the current task is off the ring and counted out,
but still links to the ring. -/
lemma Wf.exitPrepare (h : Wf s l d) (huser : s.IsUser s.currentTask)
    (hs : s.exitPrepare n = some s') :
    s'.currentTask = s.currentTask ∧ s'.blocks = s.blocks ∧ s'.heap = s.heap ∧
      ∃ l', l = s'.next s'.currentTask :: l' ∧ Ring s'.next (s'.next s'.currentTask) l' ∧
        Core s' l d ∧ ∀ u, s'.status u = .schedulerIdle ∨ s'.status u = s.status u := by
  obtain ⟨x, l', rfl⟩ : ∃ x l', l = x :: l' := by
    cases l with
    | nil => have := h.core.total; simp at this
    | cons x l' => exact ⟨x, l', rfl⟩
  rw [exitPrepare_eq, Option.map_eq_some_iff] at hs
  obtain ⟨s₁, hs₁, rfl⟩ := hs
  obtain ⟨p, hp, rfl, hhead, hring⟩ := h.unlinkCurrent hs₁
  have hcount : (s.setNext p x).countOut =
      { s with taskTotal := s.taskTotal - 1 }.setNext p x := by
    have := congrArg (Sched.setNext · p x) (h.countOut_eq huser)
    exact this
  have hcore := (h.core_unlink huser (v := x) hp).wakeIdleIfAlone
  rw [← hcount] at hcore
  have hblocks : (s.setNext p x).countOut.wakeIdleIfAlone.blocks = s.blocks := by
    unfold Sched.wakeIdleIfAlone Sched.wakeIdleTask
    split_ifs
    · rw [blocks_setStatus]; exact blocks_setNext s p x
    · exact blocks_setNext s p x
  have hheap : (s.setNext p x).countOut.wakeIdleIfAlone.heap = s.heap := by
    unfold Sched.wakeIdleIfAlone
    split_ifs <;> rfl
  rw [next_wakeIdleIfAlone, currentTask_wakeIdleIfAlone, next_countOut, currentTask_countOut,
    currentTask_setNext, hhead]
  refine ⟨rfl, hblocks, hheap, l', rfl, hring, hcore, fun u => ?_⟩
  have hst : (s.setNext p x).countOut.status u = s.status u := congrFun (status_setNext s p x) u
  rw [← hst]
  exact (s.setNext p x).countOut.status_wakeIdleIfAlone u

/-- Changing the dead queue, and the allocated blocks, keeps the rest of the invariant. -/
lemma Wf.with_dead {d' : List Word} (h : Wf s l d) (hcur : s'.currentTask = s.currentTask)
    (hidle : s'.idleTask = s.idleTask) (hreaper : s'.reaperTask = s.reaperTask)
    (hawait : s'.awaitingStdin = s.awaitingStdin) (htotal : s'.taskTotal = s.taskTotal)
    (hstatus : s'.status = s.status) (hpid : s'.pid = s.pid) (hblocks : s'.blocks = s.blocks)
    (hring : Ring s'.next s.currentTask l) (hdead : Lseg s'.next s'.deadQueue d' 0)
    (hnull : ∀ t ∈ d', t ≠ 0) (hnd : ((s.currentTask :: l ++ d').flatMap s.blocks).Nodup)
    (hheap : ∀ b ∈ (s.currentTask :: l ++ d').flatMap s.blocks, b ∈ s'.heap) : Wf s' l d' where
  ring := hcur ▸ hring
  core := by
    rw [hcur]
    refine ⟨hidle ▸ h.core.idle_mem, hreaper ▸ h.core.reaper_mem, ?_, htotal ▸ h.core.total,
      hdead, ?_, ?_, ?_, ?_, ?_, hblocks ▸ hnd, hblocks ▸ hheap⟩
    · rw [hidle, hreaper]; exact h.core.idle_ne_reaper
    · intro t ht
      rcases List.mem_append.mp ht with ht | ht
      · exact h.core.notNull t (List.mem_append_left _ ht)
      · exact hnull t ht
    · unfold IsUser
      rw [hawait, hidle, hreaper, hstatus]
      exact h.core.awaiting
    · rw [hpid, hidle]; exact h.core.idle_pid
    · rw [hstatus, hidle]; exact h.core.idle_status
    · rw [hstatus, hidle]; exact h.core.only_idle
  others := hstatus ▸ h.others
  awake := by rw [hstatus, hcur, hidle]; exact h.awake

/-- A node outside a ring can be relinked. -/
lemma ring_update_of_notMem {next : Word → Word} {c u v : Word} (h : Ring next c l)
    (hu : u ∉ c :: l) : Ring (Function.update next u v) c l :=
  ⟨h.1, h.2.update hu⟩

/-- A null `dead_queue` is the empty queue. -/
lemma Core.dead_eq_nil (h : Core s r d) (hq : s.deadQueue = 0) : d = [] := by
  cases d with
  | nil => rfl
  | cons a d =>
    exact absurd (hq ▸ h.dead.eq_head).symm
      (h.notNull a (List.mem_append_right _ List.mem_cons_self))

/-- Appending to the dead queue leaves the current task in place. -/
lemma currentTask_pushDeadQueue {t : Word} (hs : s.pushDeadQueue n t = some s') :
    s'.currentTask = s.currentTask := by
  unfold pushDeadQueue at hs
  split_ifs at hs
  · rw [← Option.some.inj hs]
    rfl
  · obtain ⟨last, -, rfl⟩ := Option.map_eq_some_iff.mp hs
    rfl

/-- Appending a task that is in neither list to the dead queue.

**Proof sketch.** The task's own link becomes null. On an empty queue it becomes the queue;
otherwise the loop finds the last task of the queue, whose link becomes the new task. Neither
node is on the ring. -/
lemma Wf.pushDeadQueue (h : Wf s l d)
    (hnd : ((s.currentTask :: l ++ (d ++ [t])).flatMap s.blocks).Nodup)
    (hheap : ∀ b ∈ s.blocks t, b ∈ s.heap) (hnull : t ≠ 0)
    (hs : s.pushDeadQueue n t = some s') : Wf s' l (d ++ [t]) := by
  have hmem : ∀ b ∈ (s.currentTask :: l ++ (d ++ [t])).flatMap s.blocks, b ∈ s.heap := by
    intro b hb
    rw [← List.append_assoc, List.flatMap_append] at hb
    rcases List.mem_append.mp hb with hb | hb
    · exact h.core.owned_heap b hb
    · exact hheap b (by simpa using hb)
  have hnull' : ∀ u ∈ d ++ [t], u ≠ 0 := by
    intro u hu
    rcases List.mem_append.mp hu with hu | hu
    · exact h.core.notNull u (List.mem_append_right _ hu)
    · rw [List.mem_singleton.mp hu]; exact hnull
  have htd : t ∉ s.currentTask :: l ++ d := by
    intro ht
    rw [← List.append_assoc, List.flatMap_append] at hnd
    refine (List.nodup_append.mp hnd).2.2 t (mem_flatMap_blocks ht) t ?_ rfl
    simpa using s.mem_blocks_self t
  have htr : t ∉ s.currentTask :: l := fun ht => htd (List.mem_append_left _ ht)
  have hring₁ : Ring (Function.update s.next t 0) s.currentTask l :=
    ring_update_of_notMem h.ring htr
  have hdead₁ : Lseg (Function.update s.next t 0) s.deadQueue d 0 :=
    h.core.dead.update fun ht => htd (List.mem_append_right _ ht)
  unfold Sched.pushDeadQueue at hs
  split_ifs at hs with hq
  · obtain rfl : { s.setNext t 0 with deadQueue := t } = s' := by simpa using hs
    obtain rfl := h.core.dead_eq_nil hq
    refine h.with_dead rfl rfl rfl rfl rfl ?_ ?_ ?_ ?_ ?_ hnull' hnd hmem
    · exact status_setNext s t 0
    · exact pid_setNext s t 0
    · exact blocks_setNext s t 0
    · exact next_setNext s t 0 ▸ hring₁
    · have : (s.setNext t 0).next t = 0 := by simp
      exact ⟨rfl, this⟩
  · obtain ⟨last, hlast, rfl⟩ := Option.map_eq_some_iff.mp hs
    obtain ⟨d₀, a, rfl⟩ : ∃ d₀ a, d = d₀ ++ [a] := by
      rcases List.eq_nil_or_concat' d with rfl | ⟨d₀, a, rfl⟩
      · exact absurd h.core.dead hq
      · exact ⟨d₀, a, rfl⟩
    have hda : last = a := by
      refine walk_unique hlast (m := d₀.length + 1) ?_
      rw [next_setNext]
      refine walk_last hdead₁ ?_ (Nat.lt_succ_self _)
      intro h0
      exact h.core.notNull 0 (List.mem_append_right _ h0) rfl
    subst hda
    have hlr : last ∉ s.currentTask :: l := h.core.dead_disjoint last (by simp)
    have hlt : t ≠ last := fun he => htd (by simp [he])
    have hld : last ∉ d₀ := by
      intro hl
      have := (List.nodup_append.mp h.core.nodup).2.1
      exact (List.nodup_append.mp this).2.2 last hl last (by simp) rfl
    refine h.with_dead rfl rfl rfl rfl rfl (by simp) (by simp) (by simp) ?_ ?_ hnull' hnd hmem
    · rw [next_setNext, next_setNext]
      exact ring_update_of_notMem hring₁ hlr
    · rw [next_setNext, next_setNext]
      refine lseg_concat.mpr ⟨lseg_concat.mpr ⟨?_, by simp⟩, ?_⟩
      · exact (lseg_concat.mp hdead₁).1.update hld
      · rw [Function.update_of_ne hlt, Function.update_self]

/-- Waking the reaper keeps the invariant. -/
lemma Wf.wakeReaperTask (h : Wf s l d) : Wf s.wakeReaperTask l d where
  ring := by simpa [Sched.wakeReaperTask] using h.ring
  core := h.core.setStatus _ _ (fun he => absurd he.symm h.core.idle_ne_reaper)
    (fun he => by simp at he) fun he => absurd he h.core.reaper_ne_awaiting
  others := by
    intro u hu
    rw [Sched.wakeReaperTask, status_setStatus, Function.update_apply]
    split_ifs
    · simp
    · exact h.others u hu
  awake := by
    rw [Sched.wakeReaperTask, status_setStatus, Function.update_apply]
    split_ifs
    · intro he; simp at he
    · exact h.awake

/-- **`task_exit` keeps the invariant**, moves the current task to the end of the dead queue and
dispatches the next task of the ring. -/
theorem Wf.taskExit (h : Wf s l d) (huser : s.IsUser s.currentTask)
    (hs : s.taskExit n = some s') :
    ∃ l₁ l₂, Passes s l s'.currentTask l₁ l₂ ∧ Wf s' (l₂ ++ l₁) (d ++ [s.currentTask]) := by
  simp only [Sched.taskExit, Option.bind_eq_bind, Option.bind_eq_some_iff] at hs
  obtain ⟨s₁, h₁, s₂, h₂, s₃, h₃, hs⟩ := hs
  obtain rfl : s₃.wakeReaperTask = s' := by simpa using hs
  obtain ⟨-, hblocks, hheap, l', hl, hring, hcore, hst⟩ := h.exitPrepare huser h₁
  have hrun : ∀ u ∈ l, s₁.status u ≠ .running := by
    intro u hu
    rcases hst u with he | he
    · rw [he]; simp
    · rw [he]; exact h.others u hu
  rw [hl] at hcore hrun
  obtain ⟨t, l', hturn, rfl, hwf⟩ := Core.loadContext hring hcore hrun h₂
  rw [← hl] at hturn
  have hcur : ((s₁.saveContext none).dispatch t).currentTask = t := (s₁.fields_dispatch t).1
  have hblocks₂ : ((s₁.saveContext none).dispatch t).blocks = s.blocks := by
    rw [blocks_dispatch]; exact hblocks
  have hheap₂ : ((s₁.saveContext none).dispatch t).heap = s.heap := by
    rw [((s₁.saveContext none).fields_dispatch t).2.2.2.2.2.2]; exact hheap
  have hwf' : Wf s₃.wakeReaperTask l' (d ++ [s.currentTask]) := by
    refine (hwf.pushDeadQueue ?_ ?_ ?_ h₃).wakeReaperTask
    · rw [hcur, hblocks₂]
      have hp : (t :: l' ++ (d ++ [s.currentTask])).Perm (s.currentTask :: l ++ d) := by
        have h1 := (hturn.perm.append_right d).append_right [s.currentTask]
        rw [List.append_assoc] at h1
        exact h1.trans (List.perm_append_singleton _ _)
      exact (hp.flatMap_right s.blocks).nodup_iff.mpr h.core.owned_nodup
    · intro b hb
      rw [hheap₂]
      rw [hblocks₂] at hb
      exact h.core.owned_heap b (List.mem_flatMap.mpr ⟨s.currentTask, by simp, hb⟩)
    · exact h.core.notNull _ (by simp)
  obtain ⟨l₁, l₂, hpass, rfl⟩ := hturn.passes fun u _ => hst u
  refine ⟨l₁, l₂, ?_, hwf'⟩
  rw [show s₃.wakeReaperTask.currentTask = t from (currentTask_pushDeadQueue h₃).trans hcur]
  exact hpass

/-! ## Creating -/

section CreateTask

variable {g : Grant} {entry : Word} {type : TaskType}

/-- `create_task` does not switch tasks. -/
lemma currentTask_createTask (s : Sched) (g : Grant) (entry : Word) (type : TaskType) :
    (s.createTask g entry type).currentTask = s.currentTask := rfl

/-- The new task is linked to nothing. -/
lemma next_createTask (s : Sched) (g : Grant) (entry : Word) (type : TaskType) :
    (s.createTask g entry type).next = Function.update s.next g.task 0 := by
  funext u
  by_cases hu : u = g.task
  · subst hu; simp [Sched.next, createTask, newTask]
  · simp [Sched.next, createTask, hu]

/-- The new task is ready. -/
lemma status_createTask (s : Sched) (g : Grant) (entry : Word) (type : TaskType) :
    (s.createTask g entry type).status = Function.update s.status g.task .ready := by
  funext u
  by_cases hu : u = g.task
  · subst hu; simp [Sched.status, createTask, newTask]
  · simp [Sched.status, createTask, hu]

/-- The new task has the next pid. -/
lemma pid_createTask (s : Sched) (g : Grant) (entry : Word) (type : TaskType) :
    (s.createTask g entry type).pid = Function.update s.pid g.task s.nextPid := by
  funext u
  by_cases hu : u = g.task
  · subst hu; simp [Sched.pid, createTask, newTask]
  · simp [Sched.pid, createTask, hu]

/-- The new task has the blocks of the grant. -/
lemma blocks_createTask (s : Sched) (g : Grant) (entry : Word) (type : TaskType) :
    (s.createTask g entry type).blocks = Function.update s.blocks g.task g.blocks := by
  funext u
  by_cases hu : u = g.task
  · subst hu; simp [Sched.blocks, createTask, newTask, Grant.blocks, List.range_succ]
  · simp [Sched.blocks, createTask, hu]

/-- The allocated blocks after `create_task`. -/
lemma mem_heap_createTask {b : Word} :
    b ∈ (s.createTask g entry type).heap ↔ b ∈ g.blocks ∨ b ∈ s.heap := by
  simp only [createTask, openFiles, openFile, Grant.blocks, List.mem_cons, List.not_mem_nil]
  tauto

/-- The blocks owned by old tasks do not change when a task is created in a fresh block. -/
lemma flatMap_blocks_createTask {q : List Word} (hq : g.task ∉ q) :
    q.flatMap (s.createTask g entry type).blocks = q.flatMap s.blocks := by
  rw [blocks_createTask]
  refine List.flatMap_congr fun u hu => ?_
  rw [Function.update_of_ne (fun he : u = g.task => hq (he ▸ hu))]

/-- A fresh block is the block of no task. -/
lemma Core.fresh_notMem (h : Core s r d) (hf : s.Fresh g) : g.task ∉ r ++ d := fun ht =>
  hf.notHeap g.task (by simp [Grant.blocks]) (h.owned_heap _ (mem_flatMap_blocks ht))

/-- `create_task` keeps the invariant: the new task is not linked yet. -/
lemma Wf.createTask (h : Wf s l d) (hf : s.Fresh g) : Wf (s.createTask g entry type) l d := by
  have hnew := h.core.fresh_notMem hf
  have hring : g.task ∉ s.currentTask :: l := fun ht => hnew (List.mem_append_left _ ht)
  have hne : ∀ u ∈ s.currentTask :: l, u ≠ g.task := fun u hu he => hring (he ▸ hu)
  have hidle := hne _ h.core.idle_mem
  refine ⟨?_, ?_, ?_, ?_⟩
  · rw [next_createTask]
    exact ring_update_of_notMem h.ring hring
  · rw [currentTask_createTask]
    refine ⟨h.core.idle_mem, h.core.reaper_mem, h.core.idle_ne_reaper, h.core.total, ?_,
      h.core.notNull, ?_, ?_, ?_, ?_, ?_, ?_⟩
    · rw [next_createTask]
      exact h.core.dead.update fun ht => hnew (List.mem_append_right _ ht)
    · rw [status_createTask]
      refine h.core.awaiting.imp_right fun ⟨hm, hu, hs⟩ => ⟨hm, hu, ?_⟩
      exact (Function.update_of_ne (hne _ hm) _ _).trans hs
    · rw [pid_createTask]
      exact (Function.update_of_ne hidle _ _).trans h.core.idle_pid
    · rw [status_createTask]
      exact (Function.update_of_ne hidle TaskStatus.ready s.status) ▸ h.core.idle_status
    · intro u hu hst
      rw [status_createTask, Function.update_of_ne (hne u hu)] at hst
      exact h.core.only_idle u hu hst
    · rw [flatMap_blocks_createTask hnew]
      exact h.core.owned_nodup
    · intro b hb
      rw [flatMap_blocks_createTask hnew] at hb
      exact mem_heap_createTask.mpr (.inr (h.core.owned_heap b hb))
  · intro u hu
    rw [status_createTask, Function.update_of_ne (hne u (List.mem_cons_of_mem _ hu))]
    exact h.others u hu
  · rw [status_createTask]
    exact (Function.update_of_ne (hne _ List.mem_cons_self) TaskStatus.ready s.status) ▸ h.awake

/-- Linking a task in between the last node of the ring and the current task. -/
lemma Wf.linkNew {p new : Word} (h : Wf s l d) (hp : s.predecessor n = some p)
    (hst : s.status new = .ready) (hnull : new ≠ 0)
    (hnd : ((s.currentTask :: (l ++ [new]) ++ d).flatMap s.blocks).Nodup)
    (hheap : ∀ b ∈ s.blocks new, b ∈ s.heap) : Wf (s.linkNew p new) (l ++ [new]) d := by
  have hperm : (s.currentTask :: (l ++ [new]) ++ d).Perm (new :: (s.currentTask :: l ++ d)) := by
    have h1 : (s.currentTask :: l ++ new :: d).Perm (new :: (s.currentTask :: l ++ d)) :=
      List.perm_middle
    simpa using h1
  have hnd' : ((new :: (s.currentTask :: l ++ d)).flatMap s.blocks).Nodup :=
    (hperm.flatMap_right s.blocks).nodup_iff.mp hnd
  have hnew : new ∉ s.currentTask :: l ++ d := by
    intro ht
    rw [List.flatMap_cons] at hnd'
    exact (List.nodup_append.mp hnd').2.2 new (s.mem_blocks_self new) new
      (mem_flatMap_blocks ht) rfl
  have hnr : new ∉ s.currentTask :: l := fun ht => hnew (List.mem_append_left _ ht)
  have hpeq : p = (s.currentTask :: l).getLast (by simp) :=
    walk_unique hp (h.ring.walk_pred (Nat.lt_succ_self _))
  have hpr : p ∈ s.currentTask :: l := hpeq ▸ List.getLast_mem _
  have hnext : (s.linkNew p new).next =
      Function.update (Function.update s.next p new) new s.currentTask := by
    rw [Sched.linkNew, sleepIdleTask, next_setStatus]
    exact (next_setNext (s.setNext p new) new s.currentTask).trans (by rw [next_setNext])
  have hstatus : (s.linkNew p new).status = Function.update s.status s.idleTask .sleep := by
    rw [Sched.linkNew, sleepIdleTask, status_setStatus]
    have : ((s.setNext p new).setNext new s.currentTask).status = s.status := by simp
    exact congrArg (Function.update · s.idleTask TaskStatus.sleep) this
  have hpid : (s.linkNew p new).pid = s.pid := by
    rw [Sched.linkNew, sleepIdleTask, pid_setStatus]
    exact (pid_setNext (s.setNext p new) new s.currentTask).trans (pid_setNext s p new)
  have hblocks : (s.linkNew p new).blocks = s.blocks := by
    rw [Sched.linkNew, sleepIdleTask, blocks_setStatus]
    exact (blocks_setNext (s.setNext p new) new s.currentTask).trans (blocks_setNext s p new)
  have htotal : (s.linkNew p new).taskTotal = s.taskTotal + 1 :=
    Nat.mod_eq_of_lt h.taskTotal_lt
  have hmem : ∀ {u}, u ∈ s.currentTask :: l → u ∈ s.currentTask :: (l ++ [new]) :=
    fun hu => List.mem_append_left [new] hu
  -- a status is the idle task's new one, an old one, or the ready one of the new task
  have hst' : ∀ u ∈ s.currentTask :: (l ++ [new]), (s.linkNew p new).status u = .sleep ∨
      (s.linkNew p new).status u = .ready ∨
      u ∈ s.currentTask :: l ∧ (s.linkNew p new).status u = s.status u := by
    intro u hu
    rw [hstatus, Function.update_apply]
    split_ifs
    · exact .inl rfl
    · rcases List.mem_append.mp (show u ∈ (s.currentTask :: l) ++ [new] from hu) with hu | hu
      · exact .inr (.inr ⟨hu, rfl⟩)
      · rw [List.mem_singleton.mp hu, hst]
        exact .inr (.inl rfl)
  refine ⟨?_, ?_, ?_, ?_⟩
  · rw [hnext, hpeq]
    exact h.ring.insert_before hnr
  · refine ⟨hmem h.core.idle_mem, hmem h.core.reaper_mem, h.core.idle_ne_reaper, ?_, ?_, ?_, ?_,
      ?_, ?_, ?_, hblocks ▸ hnd, ?_⟩
    · have htot := h.core.total
      rw [htotal]
      simp only [List.length_cons, List.length_append, List.length_nil] at htot ⊢
      omega
    · rw [hnext]
      refine (h.core.dead.update fun hd => ?_).update fun hd => hnew (List.mem_append_right _ hd)
      exact h.core.dead_disjoint p hd hpr
    · intro u hu
      rcases List.mem_cons.mp (hperm.mem_iff.mp hu) with rfl | hu
      · exact hnull
      · exact h.core.notNull u hu
    · refine h.core.awaiting.imp_right fun ⟨hm, hu, hs⟩ => ⟨hmem hm, hu, ?_⟩
      rw [hstatus]
      exact (Function.update_of_ne hu.1 _ _).trans hs
    · rw [hpid]; exact h.core.idle_pid
    · change (s.linkNew p new).status s.idleTask ≠ .running
      rw [hstatus, Function.update_self]
      simp
    · intro u hu hidle
      rcases hst' u hu with he | he | ⟨hu', he⟩
      · rw [he] at hidle; simp at hidle
      · rw [he] at hidle; simp at hidle
      · exact h.core.only_idle u hu' (he ▸ hidle)
    · intro b hb
      rw [hblocks] at hb
      rcases List.mem_append.mp (List.flatMap_cons ▸
        ((hperm.flatMap_right s.blocks).mem_iff.mp hb)) with hb | hb
      · exact hheap b hb
      · exact h.core.owned_heap b hb
  · intro u hu
    rcases hst' u (List.mem_cons_of_mem _ hu) with he | he | ⟨hu', he⟩
    · rw [he]; simp
    · rw [he]; simp
    · rw [he]
      refine h.others u ?_
      rcases List.mem_append.mp hu with hu | hu
      · exact hu
      · exact absurd (List.mem_singleton.mp hu ▸ hu') hnr
  · change (s.linkNew p new).status s.currentTask = .sleep → s.currentTask = s.idleTask
    rw [hstatus, Function.update_apply]
    split_ifs with hi
    · exact fun _ => hi
    · exact h.awake

/-- `enqueue_task` leaves the current task in place. -/
lemma currentTask_enqueueTask (hs : s.enqueueTask n g entry type = some s') :
    s'.currentTask = s.currentTask := by
  obtain ⟨p, -, rfl⟩ := Option.map_eq_some_iff.mp hs
  rfl

/-- **`enqueue_task` keeps the invariant** and puts the new task before the current one. -/
theorem Wf.enqueueTask (h : Wf s l d) (hf : s.Fresh g)
    (hs : s.enqueueTask n g entry type = some s') : Wf s' (l ++ [g.task]) d := by
  obtain ⟨p, hp, rfl⟩ := Option.map_eq_some_iff.mp hs
  have hnew := h.core.fresh_notMem hf
  refine (h.createTask hf).linkNew hp ?_ (hf.notNull g.task (by simp [Grant.blocks])) ?_ ?_
  · simp [status_createTask]
  · have hperm : (s.currentTask :: (l ++ [g.task]) ++ d).Perm
        (g.task :: (s.currentTask :: l ++ d)) := by
      have h1 : (s.currentTask :: l ++ g.task :: d).Perm (g.task :: (s.currentTask :: l ++ d)) :=
        List.perm_middle
      simpa using h1
    rw [currentTask_createTask, (hperm.flatMap_right _).nodup_iff, List.flatMap_cons,
      flatMap_blocks_createTask hnew, blocks_createTask, Function.update_self]
    refine List.nodup_append.mpr ⟨hf.nodup, h.core.owned_nodup, ?_⟩
    rintro b hb c hc rfl
    exact hf.notHeap b hb (h.core.owned_heap b hc)
  · intro b hb
    rw [blocks_createTask, Function.update_self] at hb
    exact mem_heap_createTask.mpr (.inl hb)

end CreateTask

/-! ## Reaping -/

/-- Freeing blocks changes `heap` only. -/
lemma foldl_kfree (L : List Word) (s : Sched) :
    L.foldl kfree s = { s with heap := L.foldl List.erase s.heap } := by
  induction L generalizing s with
  | nil => rfl
  | cons b L ih => rw [List.foldl_cons, ih]; rfl

/-- What the reaper frees for a task is what the task owns. -/
lemma kfreed_perm_blocks (s : Sched) (t : Word) : (s.kfreed t).Perm (s.blocks t) := by
  have h : ((List.range (s.task t).totalFds).map (s.task t).fds ++
      t :: [(s.task t).ring0StackBase]).Perm (s.blocks t) := List.perm_middle
  exact ((List.Perm.swap t (s.task t).ring0StackBase []).append_left _).trans h

/-- Unmapping the address space of a task takes its page directory, if it has one. -/
lemma freeSpace_eq (s : Sched) (t : Word) :
    s.freeSpace t = { s with spaces := s.spaces.diff (s.directory t) } := by
  unfold freeSpace directory
  cases h : (s.task t).type with
  | ring0 => simp
  | ring3 => simp [unmmapRing3]

/-- Reaping a task gives its blocks and its address space back and changes nothing else. -/
lemma reapTask_eq (s : Sched) (t : Word) :
    s.reapTask t = { s with
      heap := s.heap.diff (s.kfreed t), spaces := s.spaces.diff (s.directory t) } := by
  unfold reapTask
  rw [foldl_kfree, freeSpace_eq]
  simp only [kfree, kfreed, List.diff_eq_foldl, List.foldl_append, List.foldl_cons, List.foldl_nil]

/-- One iteration of the reaper takes the first task off the queue and gives its blocks back;
the blocks of the other tasks are distinct from these. -/
lemma Wf.reapTask {a : Word} (h : Wf s l (a :: d)) :
    s.deadQueue = a ∧ a ≠ 0 ∧ Wf (s.popDeadQueue.reapTask s.deadQueue) l d := by
  obtain rfl : s.deadQueue = a := h.core.dead.eq_head
  refine ⟨rfl, h.core.notNull _ (by simp), ?_⟩
  have hnd : ((s.deadQueue :: (s.currentTask :: l ++ d)).flatMap s.blocks).Nodup :=
    (List.perm_middle.flatMap_right s.blocks).nodup_iff.mp h.core.owned_nodup
  rw [List.flatMap_cons] at hnd
  obtain ⟨-, hnd₂, hdisj⟩ := List.nodup_append.mp hnd
  rw [reapTask_eq]
  refine h.with_dead rfl rfl rfl rfl rfl rfl rfl rfl h.ring h.core.dead.2 ?_ hnd₂ ?_
  · exact fun t ht => h.core.notNull t (by simp [ht])
  · intro b hb
    refine List.mem_diff_of_mem (h.core.owned_heap b ?_) fun hb' =>
      hdisj b ((kfreed_perm_blocks _ _).mem_iff.mp hb') b hb rfl
    refine (List.perm_middle.flatMap_right s.blocks).mem_iff.mpr ?_
    rw [List.flatMap_cons]
    exact List.mem_append_right _ hb

/-- **Draining the dead queue** empties it, gives back the blocks and the address spaces of its
tasks and changes nothing else. -/
lemma Wf.drainDeadQueue (h : Wf s l d) (hs : drainDeadQueue n s = some s') :
    Wf s' l [] ∧ s' = { s with
      deadQueue := 0
      heap := s.heap.diff (d.flatMap s.kfreed)
      spaces := s.spaces.diff (d.flatMap s.directory) } := by
  induction n generalizing s d with
  | zero => simp [Sched.drainDeadQueue] at hs
  | succ n ih =>
    rw [Sched.drainDeadQueue] at hs
    split_ifs at hs with hq
    · obtain rfl : s = s' := by simpa using hs
      obtain rfl := h.core.dead_eq_nil hq
      refine ⟨h, ?_⟩
      rw [← hq, List.flatMap_nil, List.flatMap_nil, List.diff_nil, List.diff_nil]
    · cases d with
      | nil => exact absurd h.core.dead hq
      | cons a d =>
        obtain ⟨rfl, -, hwf⟩ := h.reapTask
        obtain ⟨hwf', heq⟩ := ih hwf hs
        refine ⟨hwf', ?_⟩
        rw [heq, reapTask_eq, List.flatMap_cons, List.flatMap_cons, List.diff_append,
          List.diff_append]
        rfl

/-- The loop that drains the dead queue ends. -/
lemma Wf.exists_drainDeadQueue (h : Wf s l d) : ∃ n s', Sched.drainDeadQueue n s = some s' := by
  induction d generalizing s with
  | nil =>
    have hq : s.deadQueue = 0 := h.core.dead
    exact ⟨1, s, by simp [Sched.drainDeadQueue, hq]⟩
  | cons a d ih =>
    obtain ⟨rfl, ha, hwf⟩ := h.reapTask
    obtain ⟨n, s', hs⟩ := ih hwf
    exact ⟨n + 1, s', by rw [Sched.drainDeadQueue, if_neg ha, hs]⟩

/-- The reaper, having drained the queue, goes to sleep. -/
lemma Wf.sleepReaperTask (h : Wf s l d) (hcur : s.currentTask = s.reaperTask) :
    Suspended s.sleepReaperTask l d := by
  unfold Sched.sleepReaperTask
  rw [← hcur]
  exact h.suspend (by simp) (by simp) fun _ => rfl

/-- **A pass of the reaper keeps the invariant**, empties the dead queue and dispatches the next
task of the ring. -/
theorem Wf.reaperTaskLoop (h : Wf s l d) (hcur : s.currentTask = s.reaperTask)
    (hs : s.reaperTaskLoop n = some s') :
    ∃ l₁ l₂, Passes s l s'.currentTask l₁ l₂ ∧ Wf s' (l₂ ++ s.currentTask :: l₁) [] := by
  simp only [Sched.reaperTaskLoop, Option.bind_eq_bind, Option.bind_eq_some_iff] at hs
  obtain ⟨s₁, h₁, hs⟩ := hs
  obtain ⟨hwf, rfl⟩ := h.drainDeadQueue h₁
  generalize s.heap.diff (d.flatMap s.kfreed) = hp, s.spaces.diff (d.flatMap s.directory) = sp
    at hwf hs
  obtain ⟨t, l', hturn, rfl, hwf'⟩ := (hwf.sleepReaperTask hcur).loadContext hs
  have hst : ({ s with deadQueue := 0, heap := hp, spaces := sp } : Sched).sleepReaperTask.status =
      Function.update s.status s.currentTask .sleep := by
    rw [hcur, Sched.sleepReaperTask, status_setStatus]
    rfl
  have hne : t ≠ s.currentTask := hturn.ne_of_sleep (by rw [hst, Function.update_self])
  obtain ⟨l₁, l₂, hpass, rfl⟩ := hturn.passes_of_ne hne (s := s) fun u hu => by
    rw [hst, Function.update_of_ne (h.ne_current hu)]
    exact .inr rfl
  refine ⟨l₁, l₂, ?_, hwf'⟩
  rw [(fields_dispatch _ t).1]
  exact hpass

/-! ## Runs -/

/-- `init_scheduler` leaves the ring of the idle task and the reaper. -/
lemma wf_initScheduler {g₁ g₂ : Grant} (htotal : s.taskTotal = 0) (hpid : s.nextPid = 0)
    (hdead : s.deadQueue = 0) (hawait : s.awaitingStdin = 0) (h₁ : s.Fresh g₁)
    (h₂ : (s.createIdle g₁).Fresh g₂) : Wf (s.initScheduler g₁ g₂) [g₂.task] [] := by
  have hheap : ∀ b, b ∈ (s.createIdle g₁).heap ↔ b ∈ g₁.blocks ∨ b ∈ s.heap :=
    fun b => show b ∈ (s.createTask g₁ s.layout.idleTaskLoop .ring0).heap ↔ _ from
      mem_heap_createTask
  have hne : g₁.task ≠ g₂.task := by
    intro he
    refine h₂.notHeap g₂.task (by simp [Grant.blocks]) ((hheap _).mpr (.inl ?_))
    simp [Grant.blocks, ← he]
  have hnext₁ : (s.initScheduler g₁ g₂).next g₁.task = g₂.task := by
    change ((((s.createIdle g₁).createReaper g₂).setNext g₁.task g₂.task).setNext g₂.task
      g₁.task).next g₁.task = g₂.task
    simp [hne]
  have hnext₂ : (s.initScheduler g₁ g₂).next g₂.task = g₁.task := by
    change ((((s.createIdle g₁).createReaper g₂).setNext g₁.task g₂.task).setNext g₂.task
      g₁.task).next g₂.task = g₁.task
    simp
  have hstatus : (s.initScheduler g₁ g₂).status =
      Function.update (Function.update (s.createIdle g₁).status g₂.task .ready) g₂.task .sleep := by
    change ((((s.createIdle g₁).createReaper g₂).setNext g₁.task g₂.task).setNext g₂.task
      g₁.task).status = _
    rw [status_setNext, status_setNext]
    exact (status_setStatus _ _ _).trans (by rw [status_createTask])
  have hst₁ : (s.initScheduler g₁ g₂).status g₁.task = .schedulerIdle := by
    rw [hstatus, Function.update_of_ne hne, Function.update_of_ne hne]
    exact congrFun (status_setStatus (s.createTask g₁ _ _) g₁.task .schedulerIdle) g₁.task |>.trans
      (Function.update_self _ _ _)
  have hst₂ : (s.initScheduler g₁ g₂).status g₂.task = .sleep := by
    rw [hstatus, Function.update_self]
  have hpid₁ : (s.initScheduler g₁ g₂).pid g₁.task = 0 := by
    change ((((s.createIdle g₁).createReaper g₂).setNext g₁.task g₂.task).setNext g₂.task
      g₁.task).pid g₁.task = 0
    rw [pid_setNext, pid_setNext]
    refine (congrFun (pid_setStatus _ _ _) _).trans ?_
    rw [pid_createTask, Function.update_of_ne hne]
    refine (congrFun (pid_setStatus (s.createTask g₁ _ _) g₁.task .schedulerIdle) _).trans ?_
    rw [pid_createTask, Function.update_self, hpid]
  have hblocks : (s.initScheduler g₁ g₂).blocks =
      Function.update (Function.update s.blocks g₁.task g₁.blocks) g₂.task g₂.blocks := by
    change ((((s.createIdle g₁).createReaper g₂).setNext g₁.task g₂.task).setNext g₂.task
      g₁.task).blocks = _
    rw [blocks_setNext, blocks_setNext]
    refine (blocks_setStatus _ _ _).trans ?_
    rw [blocks_createTask]
    have hidle : (s.createIdle g₁).blocks = Function.update s.blocks g₁.task g₁.blocks :=
      (blocks_setStatus (s.createTask g₁ _ _) g₁.task .schedulerIdle).trans
        (by rw [blocks_createTask])
    rw [hidle]
  have hflat : ([g₁.task, g₂.task] ++ []).flatMap (s.initScheduler g₁ g₂).blocks =
      g₁.blocks ++ g₂.blocks := by
    rw [hblocks]
    simp [hne]
  have hnd : [g₁.task, g₂.task].Nodup := by simpa using hne
  refine ⟨⟨hnd, rfl, hnext₁, hnext₂⟩, ?_, ?_, ?_⟩
  · refine ⟨List.mem_cons_self, List.mem_cons_of_mem _ List.mem_cons_self, hne, ?_, hdead, ?_,
      .inl hawait, hpid₁, ?_, ?_, ?_, ?_⟩
    · change 2 = s.taskTotal + 2
      rw [htotal]
    · intro t ht
      simp only [List.append_nil, List.mem_cons, List.not_mem_nil, or_false] at ht
      rcases ht with rfl | rfl
      · exact h₁.notNull g₁.task (by simp [Grant.blocks])
      · exact h₂.notNull g₂.task (by simp [Grant.blocks])
    · change (s.initScheduler g₁ g₂).status g₁.task ≠ .running
      rw [hst₁]; simp
    · intro t ht hst
      simp only [List.mem_cons, List.not_mem_nil, or_false] at ht
      rcases ht with rfl | rfl
      · rfl
      · rw [hst₂] at hst; simp at hst
    · change (([g₁.task, g₂.task] ++ []).flatMap (s.initScheduler g₁ g₂).blocks).Nodup
      rw [hflat]
      refine List.nodup_append.mpr ⟨h₁.nodup, h₂.nodup, ?_⟩
      rintro b hb c hc rfl
      exact h₂.notHeap b hc ((hheap b).mpr (.inl hb))
    · change ∀ b ∈ ([g₁.task, g₂.task] ++ []).flatMap (s.initScheduler g₁ g₂).blocks, _
      rw [hflat]
      intro b hb
      change b ∈ ((s.createIdle g₁).createTask g₂ (s.createIdle g₁).layout.reaperTaskLoop
        .ring0).heap
      refine mem_heap_createTask.mpr ?_
      rcases List.mem_append.mp hb with hb | hb
      · exact .inr ((hheap b).mpr (.inl hb))
      · exact .inl hb
  · intro t ht
    rw [List.mem_singleton.mp ht, hst₂]
    simp
  · change (s.initScheduler g₁ g₂).status g₁.task = .sleep → _
    rw [hst₁]
    simp

/-- What one event does to the ring `l` after the current task and to the dead queue `d`. -/
inductive Effect (s : Sched) (l d : List Word) : Event → Sched → List Word → List Word → Prop
  /-- A new task is linked in behind all the others. -/
  | link {g : Grant} {entry : Word} {type : TaskType} {s' : Sched}
      (hcur : s'.currentTask = s.currentTask) :
      Effect s l d (.enqueue g entry type) s' (l ++ [g.task]) d
  /-- Nothing is dispatched. -/
  | stay {e : Event} {s' : Sched} (hload : ¬ s.LoadsContext e)
      (hcur : s'.currentTask = s.currentTask) : Effect s l d e s' l d
  /-- The current task stays on the ring and the next one is dispatched; the reaper has emptied the
  dead queue. -/
  | turn {e : Event} {s' : Sched} {l₁ l₂ d' : List Word} (hload : s.LoadsContext e)
      (hdead : e = .reap ∧ d' = [] ∨ e ≠ .reap ∧ d' = d) (hpass : Passes s l s'.currentTask l₁ l₂) :
      Effect s l d e s' (l₂ ++ s.currentTask :: l₁) d'
  /-- The current task moves to the dead queue and the next one is dispatched. -/
  | leave {s' : Sched} {l₁ l₂ : List Word} (hpass : Passes s l s'.currentTask l₁ l₂) :
      Effect s l d .exit s' (l₂ ++ l₁) (d ++ [s.currentTask])

/-- **Every event keeps the invariant** and has one of the four effects on the ring. -/
theorem Wf.step {e : Event} (h : Wf s l d) (hs : s.Step e s') :
    ∃ l' d', Wf s' l' d' ∧ Effect s l d e s' l' d' := by
  obtain ⟨hen, n, hs⟩ := hs
  cases e with
  | enqueue g entry type =>
    exact ⟨_, _, h.enqueueTask hen hs, .link (currentTask_enqueueTask hs)⟩
  | tick f =>
    rcases h.schedulerTick hs with ⟨hload, hcur, hwf⟩ | ⟨hload, l₁, l₂, hpass, hwf⟩
    · exact ⟨_, _, hwf, .stay hload hcur⟩
    · exact ⟨_, _, hwf, .turn hload (.inr ⟨by simp, rfl⟩) hpass⟩
  | await f =>
    obtain ⟨l₁, l₂, hpass, hwf⟩ := h.awaitStdin hen hs
    exact ⟨_, _, hwf, .turn trivial (.inr ⟨by simp, rfl⟩) hpass⟩
  | wake =>
    obtain rfl : s.wakeStdinTask = s' := by simpa [exec] using hs
    exact ⟨_, _, h.wakeStdinTask, .stay (fun hload => hload) (currentTask_wakeStdinTask s)⟩
  | exit =>
    obtain ⟨l₁, l₂, hpass, hwf⟩ := h.taskExit hen hs
    exact ⟨_, _, hwf, .leave hpass⟩
  | reap =>
    obtain ⟨l₁, l₂, hpass, hwf⟩ := h.reaperTaskLoop hen hs
    exact ⟨_, _, hwf, .turn trivial (.inl ⟨rfl, rfl⟩) hpass⟩

/-- Every task but the running one stays on the ring. -/
lemma Effect.mem {e : Event} {l' d' : List Word} (h : Effect s l d e s' l' d') (ht : t ∈ l) :
    t ∈ s'.currentTask :: l' := by
  cases h with
  | link => exact List.mem_cons_of_mem _ (List.mem_append_left _ ht)
  | stay => exact List.mem_cons_of_mem _ ht
  | turn _ _ hpass =>
    rw [hpass.split] at ht
    simp only [List.mem_append, List.mem_cons] at ht ⊢
    tauto
  | leave hpass =>
    rw [hpass.split] at ht
    simp only [List.mem_append, List.mem_cons] at ht ⊢
    tauto

/-- **The invariant of every run**: a state reached from `init_scheduler`, by events that meet
any guard, is well formed. -/
theorem wf_of_reach {ok : Sched → Event → Prop} (h : Transition.Reach Init Step ok s) :
    ∃ l d, Wf s l d := by
  refine h.invariant (I := fun s => ∃ l d, Wf s l d) ?_ ?_
  · rintro _ ⟨s₀, g₁, g₂, htotal, hpid, hdead, hawait, h₁, h₂, rfl⟩
    exact ⟨_, _, wf_initScheduler htotal hpid hdead hawait h₁ h₂⟩
  · rintro s e s' ⟨l, d, hwf⟩ - hs
    obtain ⟨l', d', hwf', -⟩ := hwf.step hs
    exact ⟨l', d', hwf'⟩

end Sched

end AlphaOS
