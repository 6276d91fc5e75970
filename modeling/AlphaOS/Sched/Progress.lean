import AlphaOS.Sched.Steps

set_option relaxedAutoImplicit false
set_option autoImplicit false

/-!
# When `next_task` returns

`next_task` runs with interrupts off and loops until it meets a task that is ready or idling; the
running task is neither. The idle task is there to be met, but `enqueue_task` puts it to sleep
and only three tests of `task_total` wake it again. This file says exactly at which events of
which reachable states the loop ends.

## Main definitions

* `AlphaOS.Sched.Awake` — at the event, some task can be chosen: the event wakes the idle task,
  or the idle task does not sleep, or another task is ready.

## Main results

* `AlphaOS.Sched.nextTask_returns_iff_awake` — in every reachable state, every call of
  `next_task` made by an event returns if and only if the event meets `Awake`.
* `AlphaOS.Sched.nextTask_hangs` — a reachable state in which the tick never ends: two user
  tasks, one of them waiting for input.
-/

namespace AlphaOS

namespace Sched

open Linked

variable {s s' : Sched} {r l d : List Word} {t : Word} {n : ℕ} {e : Event}

/-- The task at `t` is reached from `current_task` along `next`. -/
def OnRing (s : Sched) (t : Word) : Prop := ∃ k, s.next^[k] s.currentTask = t

/-- Some task of the ring other than the current one is ready. -/
def OtherReady (s : Sched) : Prop := ∃ t, s.OnRing t ∧ t ≠ s.currentTask ∧ s.status t = .ready

/-- At the event, a task can be chosen: the event's own test of `task_total` wakes the idle
task, or the idle task does not sleep, or a task that the event leaves on the ring is ready. -/
def Awake (s : Sched) : Event → Prop
  | .enqueue _ _ _ => True
  | .wake => True
  | .tick _ => s.taskTotal = 0 ∨ s.status s.idleTask ≠ .sleep ∨ ∃ t, s.OnRing t ∧
      s.status t = .ready
  | .await _ => s.taskTotal = 1 ∨ s.status s.idleTask ≠ .sleep ∨ s.OtherReady
  | .exit => s.taskTotal = 1 ∨ s.status s.idleTask ≠ .sleep ∨ s.OtherReady
  | .reap => s.status s.idleTask ≠ .sleep ∨ s.OtherReady

/-- The tasks reached from `current_task` are those of the ring. -/
lemma Wf.onRing_iff (h : Wf s l d) : s.OnRing t ↔ t ∈ s.currentTask :: l := by
  constructor
  · rintro ⟨k, rfl⟩
    exact h.ring.iterate_mem k
  · exact h.ring.2.exists_iterate t

/-- On a list of tasks that holds the idle task, some task is selectable if and only if the idle
task does not sleep or some task is ready. -/
lemma Core.selectable_iff (h : Core s r d) :
    (∃ t ∈ r, selectable (s.status t) = true) ↔
      s.status s.idleTask ≠ .sleep ∨ ∃ t ∈ r, s.status t = .ready := by
  constructor
  · rintro ⟨t, ht, hsel⟩
    cases hst : s.status t with
    | schedulerIdle =>
      left
      rw [← h.only_idle t ht hst, hst]
      simp
    | ready => exact .inr ⟨t, ht, hst⟩
    | running => simp [hst, selectable] at hsel
    | sleep => simp [hst, selectable] at hsel
  · rintro (hidle | ⟨t, ht, hst⟩)
    · refine ⟨s.idleTask, h.idle_mem, ?_⟩
      have hrun := h.idle_status
      cases hst : s.status s.idleTask <;> simp_all [selectable]
    · exact ⟨t, ht, by simp [hst, selectable]⟩

/-- `next_task` called on a ring from which the current task has not been taken. -/
lemma Core.returns_iff (hring : Ring s.next s.currentTask l)
    (hcore : Core s (s.currentTask :: l) d) :
    s.NextTaskReturns ↔
      s.status s.idleTask ≠ .sleep ∨ ∃ t ∈ s.currentTask :: l, s.status t = .ready := by
  obtain ⟨l', hring', hperm⟩ := hring.exists_rotate (hring.next_mem List.mem_cons_self)
  rw [nextTaskReturns_iff hring', ← hcore.selectable_iff]
  constructor
  · rintro ⟨t, ht, hsel⟩
    exact ⟨t, hperm.mem_iff.mp ht, hsel⟩
  · rintro ⟨t, ht, hsel⟩
    exact ⟨t, hperm.mem_iff.mpr ht, hsel⟩

/-- A saved context changes nothing `next_task` reads. -/
lemma returns_saveContext (f : Option StateFrame) :
    (s.saveContext f).NextTaskReturns ↔ s.NextTaskReturns := by
  simp only [NextTaskReturns, nextTask, next_saveContext, status_saveContext,
    currentTask_saveContext]

/-- Waking the idle task, if at all, and then asking for a ready task. -/
lemma wakeIdleIfAlone_awake_iff (s : Sched) (r : List Word) :
    (s.wakeIdleIfAlone.status s.wakeIdleIfAlone.idleTask ≠ .sleep ∨
        ∃ t ∈ r, s.wakeIdleIfAlone.status t = .ready) ↔
      s.taskTotal = 0 ∨ s.status s.idleTask ≠ .sleep ∨ ∃ t ∈ r, s.status t = .ready := by
  unfold wakeIdleIfAlone
  split_ifs with h0
  · have hidle : s.wakeIdleTask.status s.wakeIdleTask.idleTask = .schedulerIdle := by
      rw [wakeIdleTask, status_setStatus]
      exact Function.update_self _ _ _
    simp [h0, hidle]
  · simp [h0]

/-- The tick's own call of `next_task`. -/
lemma Wf.tick_returns_iff (h : Wf s l d) :
    s.wakeIdleIfAlone.NextTaskReturns ↔ s.taskTotal = 0 ∨ s.status s.idleTask ≠ .sleep ∨
      ∃ t, s.OnRing t ∧ s.status t = .ready := by
  rw [Core.returns_iff h.wakeIdleIfAlone.ring h.wakeIdleIfAlone.core, currentTask_wakeIdleIfAlone,
    wakeIdleIfAlone_awake_iff]
  simp only [h.onRing_iff]

/-- If the tick's own call of `next_task` finds another task, so does the call of
`load_context`. -/
lemma Wf.tickLoad_returns {f : StateFrame} (h : Wf s l d) (ht : nextTask n s = some t)
    (hne : t ≠ s.currentTask) : (s.tickSuspend.saveContext (some f)).NextTaskReturns := by
  obtain ⟨l', hring, hperm⟩ := h.ring.exists_rotate (h.ring.next_mem List.mem_cons_self)
  obtain ⟨hmem, hsel⟩ := mem_of_nextTask hring ht
  rw [returns_saveContext]
  have hsus := h.tickSuspend
  obtain ⟨l₂, hring₂, hperm₂⟩ := hsus.ring.exists_rotate (hsus.ring.next_mem List.mem_cons_self)
  refine (nextTaskReturns_iff hring₂).mpr ⟨t, hperm₂.mem_iff.mpr ?_, ?_⟩
  · have hcur : s.tickSuspend.currentTask = s.currentTask := by
      unfold Sched.tickSuspend
      split_ifs <;> rfl
    rw [hcur]
    exact hperm.mem_iff.mp hmem
  · have hst : s.tickSuspend.status t = s.status t := by
      unfold Sched.tickSuspend
      split_ifs
      · rw [status_setStatus, Function.update_of_ne hne]
      · rfl
    rw [hst]
    exact hsel

/-- Putting one task to sleep leaves the others ready. -/
lemma exists_ready_update (c : Word) :
    (∃ t ∈ r, Function.update s.status c .sleep t = .ready) ↔
      ∃ t ∈ r, t ≠ c ∧ s.status t = .ready := by
  refine exists_congr fun t => and_congr_right fun _ => ?_
  rw [Function.update_apply]
  split_ifs with htc
  · simp [htc]
  · simp [htc]

/-- The call of `next_task` made by `await_stdin`. -/
lemma Wf.await_returns_iff (h : Wf s l d) (huser : s.IsUser s.currentTask) :
    s.awaitPrepare.NextTaskReturns ↔
      s.taskTotal = 1 ∨ s.status s.idleTask ≠ .sleep ∨ s.OtherReady := by
  have hsus := h.awaitPrepare huser
  rw [Core.returns_iff hsus.ring hsus.core]
  have hother : s.OtherReady ↔ ∃ t ∈ s.currentTask :: l, t ≠ s.currentTask ∧
      s.status t = .ready := by
    simp only [OtherReady, h.onRing_iff]
  by_cases h1 : s.taskTotal = 1
  · have hidle : s.awaitPrepare.status s.awaitPrepare.idleTask = .schedulerIdle := by
      rw [Sched.awaitPrepare, if_pos h1]
      change (s.setStatus s.currentTask .sleep).wakeIdleTask.status s.idleTask = _
      rw [wakeIdleTask, status_setStatus]
      exact Function.update_self _ _ _
    simp [h1, hidle]
  · have hst : s.awaitPrepare.status = Function.update s.status s.currentTask .sleep := by
      rw [Sched.awaitPrepare, if_neg h1]
      exact status_setStatus s s.currentTask .sleep
    have hfields : s.awaitPrepare.idleTask = s.idleTask ∧
        s.awaitPrepare.currentTask = s.currentTask := by
      rw [Sched.awaitPrepare, if_neg h1]
      exact ⟨rfl, rfl⟩
    rw [hst, hfields.1, hfields.2, exists_ready_update, ← hother,
      Function.update_of_ne huser.1.symm]
    simp [h1]

/-- The state in which `task_exit` may wake the idle task: the caller is counted out. -/
lemma Wf.exitPrepare_countOut (h : Wf s l d) (huser : s.IsUser s.currentTask)
    (hs : s.exitPrepare n = some s') :
    ∃ s₁ : Sched, s' = s₁.wakeIdleIfAlone ∧ s₁.taskTotal = s.taskTotal - 1 ∧ s₁.status = s.status ∧
      s₁.idleTask = s.idleTask ∧ s₁.currentTask = s.currentTask := by
  obtain ⟨-, -, -, l', hl, -⟩ := h.exitPrepare huser hs
  obtain ⟨s₁, hs₁, rfl⟩ := Option.map_eq_some_iff.mp (exitPrepare_eq n s ▸ hs)
  obtain ⟨p, -, heq, -, -⟩ := (hl ▸ h).unlinkCurrent hs₁
  have hpos := h.taskTotal_pos huser
  refine ⟨s₁.countOut, rfl, ?_, ?_, ?_, ?_⟩
  · rw [heq]
    exact if_neg (by change ¬ s.taskTotal = 0; omega)
  · rw [heq]
    exact status_setNext s p _
  · rw [heq]
    rfl
  · rw [heq]
    rfl

/-- The call of `next_task` made by `task_exit`. -/
lemma Wf.exit_returns_iff (h : Wf s l d) (huser : s.IsUser s.currentTask)
    (hs : s.exitPrepare n = some s') :
    s'.NextTaskReturns ↔ s.taskTotal = 1 ∨ s.status s.idleTask ≠ .sleep ∨ s.OtherReady := by
  obtain ⟨-, -, -, l', hl, hring, hcore, -⟩ := h.exitPrepare huser hs
  rw [nextTaskReturns_iff hring, ← hl, hcore.selectable_iff]
  obtain ⟨s₁, rfl, htot, hst, hidle, -⟩ := h.exitPrepare_countOut huser hs
  have hpos := h.taskTotal_pos huser
  rw [wakeIdleIfAlone_awake_iff]
  have hother : s.OtherReady ↔ ∃ t ∈ l, s.status t = .ready := by
    simp only [OtherReady, h.onRing_iff]
    constructor
    · rintro ⟨t, ht, hne, hr⟩
      exact ⟨t, (List.mem_cons.mp ht).resolve_left hne, hr⟩
    · rintro ⟨t, ht, hr⟩
      refine ⟨t, List.mem_cons_of_mem _ ht, ?_, hr⟩
      exact fun he => (List.nodup_cons.mp h.ring.1).1 (he ▸ ht)
  have h1 : s.taskTotal - 1 = 0 ↔ s.taskTotal = 1 := by omega
  rw [htot, hst, hidle, hother, h1]

/-- The loop of `task_exit` that looks for the predecessor ends. -/
lemma Wf.exists_exitPrepare (h : Wf s l d) : ∃ n s', s.exitPrepare n = some s' := by
  have hwalk := h.ring.walk_pred (Nat.lt_succ_self _)
  exact ⟨_, _, by rw [exitPrepare_eq, Sched.unlinkCurrent, predecessor, hwalk, Option.map_some,
    Option.map_some]⟩

/-- The call of `next_task` made by the reaper. -/
lemma Wf.reap_returns_iff (h : Wf s l d) (hcur : s.currentTask = s.reaperTask)
    (hs : Sched.drainDeadQueue n s = some s') :
    s'.sleepReaperTask.NextTaskReturns ↔ s.status s.idleTask ≠ .sleep ∨ s.OtherReady := by
  obtain ⟨hwf, rfl⟩ := h.drainDeadQueue hs
  generalize s.heap.diff (d.flatMap s.kfreed) = hp, s.spaces.diff (d.flatMap s.directory) = sp
    at hwf
  have hsus := hwf.sleepReaperTask hcur
  rw [Core.returns_iff hsus.ring hsus.core]
  set s₁ : Sched := { s with deadQueue := 0, heap := hp, spaces := sp } with hs₁
  have hst : s₁.sleepReaperTask.status = Function.update s.status s.currentTask .sleep := by
    rw [hcur, Sched.sleepReaperTask, status_setStatus]
    rfl
  have hidle : s.idleTask ≠ s.currentTask := by rw [hcur]; exact h.core.idle_ne_reaper
  have hother : s.OtherReady ↔ ∃ t ∈ s.currentTask :: l, t ≠ s.currentTask ∧
      s.status t = .ready := by
    simp only [OtherReady, h.onRing_iff]
  rw [hst, show s₁.sleepReaperTask.idleTask = s.idleTask from rfl,
    show s₁.sleepReaperTask.currentTask = s.currentTask from rfl, exists_ready_update, ← hother,
    Function.update_of_ne hidle]

/-- **When `next_task` returns.** In every state reachable from `init_scheduler` by any events,
every call of `next_task` that an enabled event makes returns if and only if the event meets
`Awake`.

**Proof sketch.** The state is well formed (`wf_of_reach`), so `next_task` returns if and only
if the idle task does not sleep or some task of the ring it walks is ready. Each event has its
own effect on these statuses before the call: the tick may wake the idle task, `await_stdin` and
the reaper put the caller to sleep, `task_exit` takes the caller off the ring. -/
theorem nextTask_returns_iff_awake {s : Sched} {e : Event}
    (h : Transition.Reach Init Step (fun _ _ => True) s) (hen : s.Enabled e) :
    (∀ c, CallsNextTask s e c → c.NextTaskReturns) ↔ s.Awake e := by
  obtain ⟨l, d, hwf⟩ := wf_of_reach h
  cases e with
  | enqueue g entry type => exact ⟨fun _ => trivial, fun _ c hc => by cases hc⟩
  | wake => exact ⟨fun _ => trivial, fun _ c hc => by cases hc⟩
  | tick f =>
    have hiff := hwf.tick_returns_iff
    refine ⟨fun hall => hiff.mp (hall _ (.tick f)), fun ha c hc => ?_⟩
    cases hc with
    | tick => exact hiff.mpr ha
    | tickLoad _ ht hne =>
      exact hwf.wakeIdleIfAlone.tickLoad_returns ht (by rwa [currentTask_wakeIdleIfAlone])
  | await f =>
    have hiff := hwf.await_returns_iff hen
    refine ⟨fun hall => hiff.mp ((returns_saveContext _).mp (hall _ (.await f))), fun ha c hc => ?_⟩
    cases hc with
    | await => exact (returns_saveContext _).mpr (hiff.mpr ha)
  | exit =>
    obtain ⟨n, s', hs⟩ := hwf.exists_exitPrepare
    refine ⟨fun hall => (hwf.exit_returns_iff hen hs).mp (hall _ (.exit hs)), fun ha c hc => ?_⟩
    cases hc with
    | exit hs' => exact (hwf.exit_returns_iff hen hs').mpr ha
  | reap =>
    obtain ⟨n, s', hs⟩ := hwf.exists_drainDeadQueue
    refine ⟨fun hall => (hwf.reap_returns_iff hen hs).mp (hall _ (.reap hs)), fun ha c hc => ?_⟩
    cases hc with
    | reap hs' => exact (hwf.reap_returns_iff hen hs').mpr ha


/-! ## A run that hangs -/

namespace Hang

/-- Five consecutive 16-byte blocks from `base`, and the page directory at `pd`. -/
def grantAt (base pd : Word) : Grant :=
  ⟨base, base + 16#32, base + 32#32, base + 48#32, base + 64#32, pd⟩

/-- The state after `init_scheduler`, on blank memory: the idle task is at `0x1000` and the
reaper at `0x2000`. -/
def s₀ : Sched := initScheduler default (grantAt 0x1000#32 0x5000#32) (grantAt 0x2000#32 0x6000#32)

/-- A first user task is created at `0x3000`. -/
def s₁ : Sched := (s₀.createTask (grantAt 0x3000#32 0x7000#32) 0 .ring3).linkNew 0x2000#32 0x3000#32

/-- The tick dispatches it. -/
def s₂ : Sched := (s₁.wakeIdleIfAlone.tickSuspend.saveContext (some default)).dispatch 0x3000#32

/-- A second user task is created at `0x4000`, which puts the idle task to sleep again. -/
def s₃ : Sched := (s₂.createTask (grantAt 0x4000#32 0x8000#32) 0 .ring3).linkNew 0x2000#32 0x4000#32

/-- The first task waits for input, and the second is dispatched. -/
def s₄ : Sched := (s₃.awaitPrepare.saveContext (some (awaitFrame default))).dispatch 0x4000#32

/-- A fresh grant, by evaluation of the allocated blocks. -/
lemma fresh_of_disjoint {s : Sched} {g : Grant} (h₁ : g.blocks.Nodup)
    (h₂ : ∀ b ∈ g.blocks, b ∉ s.heap) (h₃ : 0 ∉ g.blocks) (h₄ : g.pd ∉ s.spaces)
    (h₅ : g.pd ≠ s.layout.kernelPageDirectory) : s.Fresh g :=
  ⟨h₁, h₂, fun _ hb he => h₃ (he ▸ hb), h₄, h₅⟩

/-- A creation is a step once its walk to the end of the ring has ended. -/
lemma step_enqueue {g : Grant} {p : Word} (hg : s.Fresh g)
    (hp : (s.createTask g 0 .ring3).predecessor n = some p) :
    Step s (.enqueue g 0 .ring3) ((s.createTask g 0 .ring3).linkNew p g.task) :=
  ⟨hg, n, by rw [exec, enqueueTask, hp, Option.map_some]⟩

/-- What a tick does once both its calls of `next_task` have returned another task. -/
lemma exec_tick {f : StateFrame} (hne : t ≠ s.currentTask)
    (h₁ : nextTask n s.wakeIdleIfAlone = some t)
    (h₂ : nextTask n (s.wakeIdleIfAlone.tickSuspend.saveContext (some f)) = some t) :
    s.exec n (.tick f) = some
      ((s.wakeIdleIfAlone.tickSuspend.saveContext (some f)).dispatch t) := by
  simp only [exec, schedulerTick, h₁, loadContext, h₂, Option.map_some, Option.bind_eq_bind,
    Option.bind_some, if_neg hne]

/-- Such a tick is a step. -/
lemma step_tick {f : StateFrame} (hne : t ≠ s.currentTask)
    (h₁ : nextTask n s.wakeIdleIfAlone = some t)
    (h₂ : nextTask n (s.wakeIdleIfAlone.tickSuspend.saveContext (some f)) = some t) :
    Step s (.tick f) ((s.wakeIdleIfAlone.tickSuspend.saveContext (some f)).dispatch t) :=
  ⟨trivial, n, exec_tick hne h₁ h₂⟩

/-- Waiting for input is a step once its call of `next_task` has returned. -/
lemma step_await {f : StateFrame} (huser : s.IsUser s.currentTask)
    (h : nextTask n (s.awaitPrepare.saveContext (some (awaitFrame f))) = some t) :
    Step s (.await f) ((s.awaitPrepare.saveContext (some (awaitFrame f))).dispatch t) :=
  ⟨huser, n, by rw [exec, awaitStdin, loadContext, h, Option.map_some]⟩

/-- The blocks allocated in `s₀`. -/
lemma heap_s₀ : s₀.heap = [0x2040#32, 0x2030#32, 0x2020#32, 0x2010#32, 0x2000#32,
    0x1040#32, 0x1030#32, 0x1020#32, 0x1010#32, 0x1000#32] := rfl

/-- The blocks allocated in `s₂`. -/
lemma heap_s₂ : s₂.heap = [0x3040#32, 0x3030#32, 0x3020#32, 0x3010#32, 0x3000#32] ++ s₀.heap := rfl

/-- The blocks of the first creation are fresh. -/
lemma fresh_s₀ : s₀.Fresh (grantAt 0x3000#32 0x7000#32) := by
  refine fresh_of_disjoint (by decide) ?_ (by decide) (by decide +kernel) (by decide +kernel)
  rw [heap_s₀]
  simp [grantAt, Grant.blocks]

/-- The blocks of the second creation are fresh. -/
lemma fresh_s₂ : s₂.Fresh (grantAt 0x4000#32 0x8000#32) := by
  refine fresh_of_disjoint (by decide) ?_ (by decide) (by decide +kernel) (by decide +kernel)
  rw [heap_s₂, heap_s₀]
  simp [grantAt, Grant.blocks]

/-- The blocks of the idle task and of the reaper are fresh. -/
lemma fresh_init : (default : Sched).Fresh (grantAt 0x1000#32 0x5000#32) ∧
    ((default : Sched).createIdle (grantAt 0x1000#32 0x5000#32)).Fresh
      (grantAt 0x2000#32 0x6000#32) := by
  constructor
  · exact fresh_of_disjoint (by decide) (fun _ _ => List.not_mem_nil) (by decide) List.not_mem_nil
      (by decide +kernel)
  · refine fresh_of_disjoint (by decide) ?_ (by decide) List.not_mem_nil (by decide +kernel)
    have hheap : (createIdle default (grantAt 0x1000#32 0x5000#32)).heap =
        [0x1040#32, 0x1030#32, 0x1020#32, 0x1010#32, 0x1000#32] := rfl
    rw [hheap]
    simp [grantAt, Grant.blocks]

/-- The idle task and the reaper are created on blank memory. -/
lemma init_s₀ : Init s₀ :=
  ⟨default, _, _, rfl, rfl, rfl, rfl, fresh_init.1, fresh_init.2, rfl⟩

/-- The first creation leads from `init_scheduler` to `s₁`. -/
lemma reach_s₁ : Transition.Reach Init Step (fun _ _ => True) s₁ := by
  have e₁ : Step s₀ (.enqueue (grantAt 0x3000#32 0x7000#32) 0 .ring3) s₁ :=
    step_enqueue (n := 4) fresh_s₀ rfl
  exact (Transition.Reach.start init_s₀).next trivial e₁

/-- The first tick leads from `s₁` to `s₂`. -/
lemma step_s₂ : Step s₁ (.tick default) s₂ :=
  step_tick (n := 4) (t := 0x3000#32) (by decide +kernel) rfl rfl

/-- A tick, the second creation and a wait lead from `s₁` to `s₄`. -/
lemma reach_s₄ : Transition.Reach Init Step (fun _ _ => True) s₄ := by
  have e₃ : Step s₂ (.enqueue (grantAt 0x4000#32 0x8000#32) 0 .ring3) s₃ :=
    step_enqueue (n := 4) fresh_s₂ rfl
  have e₄ : Step s₃ (.await default) s₄ :=
    step_await (n := 4) (t := 0x4000#32) ⟨by decide +kernel, by decide +kernel⟩ rfl
  exact ((reach_s₁.next trivial step_s₂).next trivial e₃).next trivial e₄

/-- The ring of `s₄`. -/
def ring : List Word := [0x1000#32, 0x2000#32, 0x3000#32, 0x4000#32]

/-- The links of the ring, at the tick's call of `next_task`. -/
lemma next_s₄ : ring.map s₄.wakeIdleIfAlone.next =
    [0x2000#32, 0x4000#32, 0x1000#32, 0x3000#32] := rfl

/-- The statuses of the ring, at the tick's call of `next_task`. -/
lemma status_s₄ : ring.map s₄.wakeIdleIfAlone.status = [.sleep, .sleep, .sleep, .running] := rfl

/-- The links stay on the ring. -/
lemma closed_s₄ : ∀ a ∈ ring, s₄.wakeIdleIfAlone.next a ∈ ring := by
  intro a ha
  have hmem : s₄.wakeIdleIfAlone.next a ∈ ring.map s₄.wakeIdleIfAlone.next :=
    List.mem_map_of_mem ha
  rw [next_s₄] at hmem
  revert hmem
  simp only [ring, List.mem_cons, List.not_mem_nil, or_false]
  tauto

/-- No task of the ring is selectable. -/
lemma asleep_s₄ : ∀ a ∈ ring, selectable (s₄.wakeIdleIfAlone.status a) = false := by
  intro a ha
  have hmem : s₄.wakeIdleIfAlone.status a ∈ ring.map s₄.wakeIdleIfAlone.status :=
    List.mem_map_of_mem ha
  rw [status_s₄] at hmem
  revert hmem
  generalize s₄.wakeIdleIfAlone.status a = st
  revert st
  decide

end Hang

/-- **The tick can hang.** In `Hang.s₄` every task but the running one sleeps: the idle task
since the second creation, and the tick does not wake it because `task_total` is two. The walk
of `next_task` never leaves a ring without a selectable task. -/
theorem nextTask_hangs :
    ¬ ∀ s, Transition.Reach Init Step (fun _ _ => True) s → ∀ e, s.Enabled e →
      ∀ c, CallsNextTask s e c → c.NextTaskReturns := by
  intro hall
  obtain ⟨n, t, hnt⟩ := hall Hang.s₄ Hang.reach_s₄ (.tick default) trivial _ (.tick default)
  have hnone := walk_eq_none_of_closed (S := fun t => t ∈ Hang.ring)
    (p := fun t => selectable (Hang.s₄.wakeIdleIfAlone.status t))
    Hang.closed_s₄ Hang.asleep_s₄ n
    (show Hang.s₄.wakeIdleIfAlone.next Hang.s₄.wakeIdleIfAlone.currentTask ∈ Hang.ring from
      Hang.closed_s₄ 0x4000#32 (by simp [Hang.ring]))
  exact absurd (hnone.symm.trans hnt) (by simp)

/-- The theorem on a concrete run: in the state reached by two creations, a tick and a wait, the
next tick does not meet `Awake`. -/
theorem nextTask_returns_iff_awake_hang :
    (∀ c, CallsNextTask Hang.s₄ (.tick default) c → c.NextTaskReturns) ↔
      Hang.s₄.Awake (.tick default) :=
  nextTask_returns_iff_awake Hang.reach_s₄ trivial

end Sched

end AlphaOS
