import AlphaOS.Sched.RoundRobin

set_option relaxedAutoImplicit false
set_option autoImplicit false

/-!
# Time slices

`kernel/timer.c` in front of the scheduler. `timer_interrupt_handler` counts the interrupts in
`quantum_tick`, which `load_context` resets, and calls `scheduler_tick` at every fifth. So the
running task keeps the processor for five interrupts unless it gives it up, and a task that is ready
waits for five interrupts for each task before it.

## Main definitions

* `AlphaOS.Sched.TimedEvent`, `AlphaOS.Sched.TimedStep` — the timer interrupt and the other events
  of the scheduler.
* `AlphaOS.Sched.Waits` — a task is ready and does not run.
* `AlphaOS.Sched.Between` — the number of tasks between the running task and another.
* `AlphaOS.Sched.interrupts` — the number of timer interrupts in a part of a run.

## Main results

* `AlphaOS.Sched.full_slice` — the timer does not take the processor from a task before the fifth
  interrupt since the last dispatch.
* `AlphaOS.Sched.bounded_waiting` — a task that waits is dispatched within five interrupts for each
  task between the running task and it, and five more.
-/

namespace AlphaOS

namespace Sched

open Linked

variable {s s' : Sched} {l d : List Word} {y : Word} {n k : ℕ} {e : Event}

/-- What can happen to the scheduler and its timer. -/
inductive TimedEvent
  | timer (f : StateFrame)
  | other (e : Event)
deriving DecidableEq, Repr

/-- The event is a timer interrupt. -/
def TimedEvent.isTimer : TimedEvent → Bool
  | timer _ => true
  | other _ => false

/-- `scheduler_tick` is called by the timer only. -/
def TimedEnabled (s : Sched) : TimedEvent → Prop
  | .timer _ => True
  | .other e => s.Enabled e ∧ ∀ f, e ≠ .tick f

/-- What an event does, each loop running at most `n` times. -/
def timedExec (n : ℕ) (s : Sched) : TimedEvent → Option Sched
  | .timer f => s.timerInterruptHandler n f
  | .other e => s.exec n e

/-- An enabled event happens and all its loops return. -/
def TimedStep (s : Sched) (e : TimedEvent) (s' : Sched) : Prop :=
  s.TimedEnabled e ∧ ∃ n, s.timedExec n e = some s'

/-- The states `init_scheduler` leaves; the counters of the timer are clear. -/
def TimedInit (s : Sched) : Prop := s.Init ∧ s.ticks = 0 ∧ s.quantumTick = 0

/-- The state in which the handler calls `scheduler_tick`. -/
def quantumOver (s : Sched) : Sched := { s.countTick with quantumTick := 0 }

/-- The event calls `load_context`. -/
def TimedLoads (s : Sched) : TimedEvent → Prop
  | .timer f => 5 ≤ s.countTick.quantumTick ∧ s.quantumOver.LoadsContext (.tick f)
  | .other e => s.LoadsContext e

/-! ## The counters -/

/-- The counters of the timer play no role in the scheduler's invariant. -/
lemma Wf.clock (h : Wf s l d) (a b : ℕ) : Wf { s with ticks := a, quantumTick := b } l d :=
  ⟨h.ring, ⟨h.core.idle_mem, h.core.reaper_mem, h.core.idle_ne_reaper, h.core.total, h.core.dead,
    h.core.notNull, h.core.awaiting, h.core.idle_pid, h.core.idle_status, h.core.only_idle,
    h.core.owned_nodup, h.core.owned_heap⟩, h.others, h.awake⟩

/-- Waking the idle task does not count. -/
@[simp] lemma quantumTick_wakeIdleIfAlone (s : Sched) :
    s.wakeIdleIfAlone.quantumTick = s.quantumTick := by
  unfold wakeIdleIfAlone
  split_ifs <;> rfl

/-- A switch starts a new quantum. -/
lemma quantumTick_loadContext {f : Option StateFrame} (h : loadContext n f s = some s') :
    s'.quantumTick = 0 := by
  simp only [loadContext, Option.map_eq_some_iff] at h
  obtain ⟨t, -, rfl⟩ := h
  rfl

/-- `push_dead_queue` does not count. -/
lemma quantumTick_pushDeadQueue {t : Word} (h : s.pushDeadQueue n t = some s') :
    s'.quantumTick = s.quantumTick := by
  unfold pushDeadQueue at h
  split_ifs at h
  · cases h
    rfl
  · obtain ⟨u, -, rfl⟩ := Option.map_eq_some_iff.mp h
    rfl

/-- The event resets the counter if it calls `load_context`, and leaves it alone otherwise. -/
lemma quantumTick_exec (hs : s.exec n e = some s') :
    s'.quantumTick = 0 ∧ s.LoadsContext e ∨ s'.quantumTick = s.quantumTick ∧ ¬s.LoadsContext e := by
  cases e with
  | enqueue g entry type =>
    obtain ⟨p, -, rfl⟩ := Option.map_eq_some_iff.mp hs
    exact .inr ⟨rfl, fun h => h⟩
  | tick f =>
    simp only [exec, schedulerTick, Option.bind_eq_bind, Option.bind_eq_some_iff] at hs
    obtain ⟨t, ht, hs⟩ := hs
    by_cases htc : t = s.currentTask
    · rw [if_pos htc] at hs
      cases hs
      refine .inr ⟨quantumTick_wakeIdleIfAlone s, fun hload => ?_⟩
      obtain ⟨m, u, hu, hne⟩ := hload
      exact hne ((walk_unique hu ht).trans htc)
    · rw [if_neg htc] at hs
      exact .inl ⟨quantumTick_loadContext hs, n, t, ht, htc⟩
  | await f => exact .inl ⟨quantumTick_loadContext hs, trivial⟩
  | wake =>
    cases hs
    refine .inr ⟨?_, fun h => h⟩
    unfold wakeStdinTask
    split_ifs <;> rfl
  | exit =>
    simp only [exec, taskExit, Option.bind_eq_bind, Option.bind_eq_some_iff] at hs
    obtain ⟨s₁, -, s₂, h₂, s₃, h₃, hs⟩ := hs
    cases hs
    refine .inl ⟨?_, trivial⟩
    change s₃.quantumTick = 0
    rw [quantumTick_pushDeadQueue h₃, quantumTick_loadContext h₂]
  | reap =>
    simp only [exec, reaperTaskLoop, Option.bind_eq_bind, Option.bind_eq_some_iff] at hs
    obtain ⟨s₁, -, hs⟩ := hs
    exact .inl ⟨quantumTick_loadContext hs, trivial⟩

/-- **What one event of the timed scheduler is**: an interrupt that is only counted, the fifth
interrupt, which calls `scheduler_tick`, or another event of the scheduler. -/
lemma TimedStep.cases {e : TimedEvent} (hs : s.TimedStep e s') (hq : s.quantumTick < 5) :
    (∃ f, e = .timer f ∧ s.quantumTick < 4 ∧ s' = s.countTick ∧
        s'.quantumTick = s.quantumTick + 1) ∨
      (∃ f, e = .timer f ∧ s.quantumTick = 4 ∧ s.quantumOver.Step (.tick f) s') ∨
      ∃ e', e = .other e' ∧ s.Step e' s' := by
  obtain ⟨hen, n, hs⟩ := hs
  cases e with
  | other e => exact .inr (.inr ⟨e, rfl, hen.1, n, hs⟩)
  | timer f =>
    have hcount : s.countTick.quantumTick = s.quantumTick + 1 := by
      change (s.quantumTick + 1) % 2 ^ 8 = _
      omega
    change s.timerInterruptHandler n f = some s' at hs
    unfold timerInterruptHandler at hs
    by_cases h4 : s.quantumTick < 4
    · rw [if_neg (by omega)] at hs
      cases hs
      exact .inl ⟨f, rfl, h4, rfl, hcount⟩
    · rw [if_pos (by omega)] at hs
      exact .inr (.inl ⟨f, rfl, by omega, trivial, n, hs⟩)

/-- The invariant of the timed scheduler. -/
def TimedInv (s : Sched) : Prop := (∃ l d, Wf s l d) ∧ s.quantumTick < 5

/-- The invariant holds after one more event. -/
lemma TimedInv.step {e : TimedEvent} (h : s.TimedInv) (hs : s.TimedStep e s') : s'.TimedInv := by
  obtain ⟨⟨l, d, hwf⟩, hq⟩ := h
  rcases hs.cases hq with ⟨f, -, h4, rfl, hq'⟩ | ⟨f, -, -, hstep⟩ | ⟨e', -, hstep⟩
  · exact ⟨⟨l, d, hwf.clock _ _⟩, by omega⟩
  · obtain ⟨l', d', hwf', -⟩ := (hwf.clock ((s.ticks + 1) % 2 ^ 64) 0).step hstep
    refine ⟨⟨l', d', hwf'⟩, ?_⟩
    obtain ⟨-, n, hexec⟩ := hstep
    rcases quantumTick_exec hexec with ⟨h0, -⟩ | ⟨hsame, -⟩
    · omega
    · rw [hsame]
      exact Nat.zero_lt_succ 4
  · obtain ⟨l', d', hwf', -⟩ := hwf.step hstep
    refine ⟨⟨l', d', hwf'⟩, ?_⟩
    obtain ⟨-, n, hexec⟩ := hstep
    rcases quantumTick_exec hexec with ⟨h0, -⟩ | ⟨hsame, -⟩ <;> omega

/-- The invariant holds in every state of a run. -/
lemma timedInv_of_run {N : ℕ} {τ : ℕ → Sched} {a : ℕ → TimedEvent}
    (h : Transition.Run TimedInit TimedStep N τ a) {i : ℕ} (hi : i ≤ N) : (τ i).TimedInv := by
  refine (h.reach hi).invariant (I := TimedInv) (fun s hs => ?_) fun s e s' hs _ hstep =>
    hs.step hstep
  have hreach : Transition.Reach Init Step (fun _ _ => True) s := .start hs.1
  exact ⟨wf_of_reach hreach, by rw [hs.2.2]; omega⟩

/-! ## The length of a slice -/

/-- The number of timer interrupts among the events from the `i`-th to the `j`-th, the last
excluded. -/
def interrupts (a : ℕ → TimedEvent) (i j : ℕ) : ℕ :=
  (List.range' i (j - i)).countP fun m => (a m).isTimer

/-- No interrupt is between an event and itself. -/
lemma interrupts_self (a : ℕ → TimedEvent) (i : ℕ) : interrupts a i i = 0 := by
  simp [interrupts]

/-- The interrupts up to the next event. -/
lemma interrupts_succ (a : ℕ → TimedEvent) {i j : ℕ} (h : i ≤ j) :
    interrupts a i (j + 1) = interrupts a i j + if (a j).isTimer then 1 else 0 := by
  have hlen : j + 1 - i = j - i + 1 := by omega
  rw [interrupts, hlen, List.range'_concat, List.countP_append, List.countP_singleton,
    show i + 1 * (j - i) = j by omega]
  rfl

/-- The counter goes up with timer interrupts only. -/
lemma TimedStep.quantumTick_le {e : TimedEvent} (hs : s.TimedStep e s') (hq : s.quantumTick < 5) :
    s'.quantumTick ≤ s.quantumTick + if e.isTimer then 1 else 0 := by
  rcases hs.cases hq with ⟨f, rfl, h4, -, hq'⟩ | ⟨f, rfl, -, -, n, hexec⟩ | ⟨e', rfl, -, n, hexec⟩
  · exact hq'.le
  · rcases quantumTick_exec hexec with ⟨h0, -⟩ | ⟨hsame, -⟩
    · omega
    · rw [hsame]
      exact Nat.zero_le _
  · rcases quantumTick_exec hexec with ⟨h0, -⟩ | ⟨hsame, -⟩ <;> omega

/-- The counter is clear after an event that calls `load_context`. -/
lemma TimedStep.quantumTick_of_loads {e : TimedEvent} (hs : s.TimedStep e s')
    (hq : s.quantumTick < 5) (hload : s.TimedLoads e) : s'.quantumTick = 0 := by
  rcases hs.cases hq with ⟨f, rfl, h4, -, hq'⟩ | ⟨f, rfl, -, -, n, hexec⟩ | ⟨e', rfl, -, n, hexec⟩
  · have hcount : s.countTick.quantumTick = (s.quantumTick + 1) % 2 ^ 8 := rfl
    have := hload.1
    omega
  · rcases quantumTick_exec hexec with ⟨h0, -⟩ | ⟨-, hno⟩
    · exact h0
    · exact absurd hload.2 hno
  · rcases quantumTick_exec hexec with ⟨h0, -⟩ | ⟨-, hno⟩
    · exact h0
    · exact absurd hload hno

/-- **A full slice.** In every run of timer interrupts and other events of the scheduler, the timer
takes the processor away from a task at the earliest with the fifth interrupt since the last call of
`load_context`.

**Proof sketch.** The counter is clear after a call of `load_context` and goes up by at most one
with an interrupt, so it is at most the number of interrupts since; the handler calls
`scheduler_tick` when it has reached five. -/
theorem full_slice {N : ℕ} {τ : ℕ → Sched} {a : ℕ → TimedEvent}
    (h : Transition.Run TimedInit TimedStep N τ a) {i j : ℕ} (hij : i < j) (hj : j < N)
    (hi : (τ i).TimedLoads (a i)) (htimer : (a j).isTimer = true)
    (hswitch : (τ (j + 1)).currentTask ≠ (τ j).currentTask) : 5 ≤ interrupts a (i + 1) (j + 1) := by
  have hle : ∀ m, i + 1 + m ≤ j →
      (τ (i + 1 + m)).quantumTick ≤ interrupts a (i + 1) (i + 1 + m) := by
    intro m
    induction m with
    | zero =>
      intro hm
      have h0 := (h.step i (by omega)).quantumTick_of_loads (timedInv_of_run h (by omega)).2 hi
      rw [Nat.add_zero, h0]
      exact Nat.zero_le _
    | succ m ih =>
      intro hm
      have hstep := (h.step (i + 1 + m) (by omega)).quantumTick_le (timedInv_of_run h (by omega)).2
      have hrec := ih (by omega)
      rw [← Nat.add_assoc, interrupts_succ a (by omega)]
      omega
  have hlast := hle (j - (i + 1)) (by omega)
  rw [show i + 1 + (j - (i + 1)) = j by omega] at hlast
  rw [interrupts_succ a (by omega), if_pos htimer]
  rcases (h.step j hj).cases (timedInv_of_run h (by omega)).2 with
    ⟨f, -, -, heq, -⟩ | ⟨f, -, h4, -⟩ | ⟨e', he, -⟩
  · exact absurd (congrArg currentTask heq) hswitch
  · omega
  · rw [he] at htimer
    cases htimer

/-! ## The length of a wait -/

/-- The task at `y` is on the ring and ready, and does not run. -/
def Waits (s : Sched) (y : Word) : Prop := s.OnRing y ∧ s.status y = .ready ∧ y ≠ s.currentTask

/-- On the ring, `k` tasks come between the current task and the task at `y`. -/
def Between (s : Sched) (y : Word) (k : ℕ) : Prop :=
  ∃ l d l₁ l₂, Wf s l d ∧ l = l₁ ++ y :: l₂ ∧ l₁.length = k

/-- A ready task makes the call of `next_task` in `scheduler_tick` find another task than the
current one. -/
lemma Wf.tick_loads_of_ready (h : Wf s l d) {f : StateFrame} (hy : y ∈ l)
    (hst : s.status y = .ready) (hs : s.schedulerTick n f = some s') :
    s.LoadsContext (.tick f) := by
  simp only [Sched.schedulerTick, Option.bind_eq_bind, Option.bind_eq_some_iff] at hs
  obtain ⟨t, ht, -⟩ := hs
  refine ⟨n, t, ht, ?_⟩
  obtain ⟨l', hl', hring⟩ := h.wakeIdleIfAlone.ring.rotate_next
  obtain ⟨l₁, hturn, -⟩ := turn_of_nextTask hring ht
  rw [hl', currentTask_wakeIdleIfAlone] at hturn
  refine hturn.ne_last (List.nodup_cons.mp h.ring.1).1 hy ?_
  rcases s.status_wakeIdleIfAlone y with he | he
  · simp [he, selectable]
  · simp [he, hst, selectable]

/-- **One event of the scheduler** that does not dispatch `y` leaves the number of tasks before `y`
as it is, or makes it smaller if it dispatches another task. -/
lemma Between.step (h : s.Between y k) (hs : s.Step e s') (hy : s.status y = .ready)
    (hno : s'.currentTask ≠ y) :
    ¬s.LoadsContext e ∧ s'.Between y k ∨ s.LoadsContext e ∧ ∃ k' < k, s'.Between y k' := by
  obtain ⟨l, d, l₁, l₂, hwf, hl, hk⟩ := h
  obtain ⟨l', d', hwf', heff⟩ := hwf.step hs
  cases heff with
  | @link g _ _ _ hcur =>
    exact .inl ⟨fun hload => hload, _, d, l₁, l₂ ++ [g.task], hwf', by simp [hl], hk⟩
  | stay hload hcur => exact .inl ⟨hload, _, d, l₁, l₂, hwf', hl, hk⟩
  | turn hload hdead hpass =>
    obtain ⟨m, rfl, rfl⟩ := hpass.before hl hy hno
    rw [List.append_assoc, List.cons_append] at hwf'
    refine .inr ⟨hload, m.length, ?_, _, _, m, _, hwf', rfl, rfl⟩
    rw [← hk, List.length_append, List.length_cons]
    omega
  | leave hpass =>
    obtain ⟨m, rfl, rfl⟩ := hpass.before hl hy hno
    rw [List.append_assoc, List.cons_append] at hwf'
    refine .inr ⟨trivial, m.length, ?_, _, _, m, _, hwf', rfl, rfl⟩
    rw [← hk, List.length_append, List.length_cons]
    omega

/-- The counters play no role in the order of the tasks. -/
lemma Between.clock (h : s.Between y k) (a b : ℕ) :
    Between { s with ticks := a, quantumTick := b } y k := by
  obtain ⟨l, d, l₁, l₂, hwf, hl, hk⟩ := h
  exact ⟨l, d, l₁, l₂, hwf.clock a b, hl, hk⟩

/-- **One event of the timed scheduler** that does not dispatch `y`: the number of interrupts that
`y` may still have to wait for goes down with an interrupt, and does not go up with another
event. -/
lemma Between.timedStep {e : TimedEvent} (h : s.Between y k) (hq : s.quantumTick < 5)
    (hs : s.TimedStep e s') (hy : s.status y = .ready) (hno : s'.currentTask ≠ y) :
    ∃ k', s'.Between y k' ∧ 5 * k' + (5 - s'.quantumTick) + (if e.isTimer then 1 else 0) ≤
      5 * k + (5 - s.quantumTick) := by
  rcases hs.cases hq with ⟨f, rfl, h4, rfl, hq'⟩ | ⟨f, rfl, h4, hstep⟩ | ⟨e', rfl, hstep⟩
  · refine ⟨k, h.clock _ _, ?_⟩
    rw [hq']
    change _ + 1 ≤ _
    omega
  · -- the fifth interrupt finds a ready task, so it dispatches one that comes before `y`
    have hover : s.quantumOver.Between y k := h.clock _ _
    obtain ⟨-, n, hexec⟩ := id hstep
    have hload : s.quantumOver.LoadsContext (.tick f) := by
      obtain ⟨l, d, l₁, l₂, hwf, rfl, -⟩ := hover
      exact hwf.tick_loads_of_ready (by simp) hy hexec
    rcases hover.step hstep hy hno with ⟨hnot, -⟩ | ⟨-, k', hk', hbetween⟩
    · exact absurd hload hnot
    · refine ⟨k', hbetween, ?_⟩
      change _ + 1 ≤ _
      omega
  · obtain ⟨-, n, hexec⟩ := id hstep
    change ∃ k', _ ∧ _ + 0 ≤ _
    rcases h.step hstep hy hno with ⟨hnot, hbetween⟩ | ⟨hload, k', hk', hbetween⟩
    · rcases quantumTick_exec hexec with ⟨-, hload⟩ | ⟨hsame, -⟩
      · exact absurd hload hnot
      · exact ⟨k, hbetween, by omega⟩
    · exact ⟨k', hbetween, by omega⟩

/-- A task that waits has its place on the ring, with at most `task_total` tasks before it. -/
lemma TimedInv.between (h : s.TimedInv) (hy : s.Waits y) :
    ∃ l₁ l₂, Ring s.next s.currentTask (l₁ ++ y :: l₂) ∧ l₁.length ≤ s.taskTotal ∧
      s.Between y l₁.length := by
  obtain ⟨⟨l, d, hwf⟩, -⟩ := h
  have hmem : y ∈ l := (List.mem_cons.mp (hwf.onRing_iff.mp hy.1)).resolve_left hy.2.2
  obtain ⟨l₁, l₂, rfl⟩ := List.append_of_mem hmem
  have htotal := hwf.core.total
  rw [List.length_cons, List.length_append, List.length_cons] at htotal
  exact ⟨l₁, l₂, hwf.ring, by omega, _, d, l₁, l₂, hwf, rfl, rfl⟩

/-- `scheduler_tick` returns while a task is ready. -/
lemma Wf.tick_returns_of_ready (h : Wf s l d) (hy : s.OnRing y) (hst : s.status y = .ready)
    (f : StateFrame) : ∃ n s', s.schedulerTick n f = some s' := by
  obtain ⟨n, t, ht⟩ := h.tick_returns_iff.mpr (.inr (.inr ⟨y, hy, hst⟩))
  by_cases htc : t = s.currentTask
  · refine ⟨n, s.wakeIdleIfAlone, ?_⟩
    simp only [Sched.schedulerTick, ht, Option.bind_eq_bind, Option.bind_some, if_pos htc]
    rfl
  · obtain ⟨m, u, hu⟩ := h.wakeIdleIfAlone.tickLoad_returns (f := f) ht
      (by rwa [currentTask_wakeIdleIfAlone])
    have ht' : nextTask (max n m) s.wakeIdleIfAlone = some t := walk_mono (Nat.le_max_left n m) ht
    have hu' : nextTask (max n m) (s.wakeIdleIfAlone.tickSuspend.saveContext (some f)) = some u :=
      walk_mono (Nat.le_max_right n m) hu
    refine ⟨max n m, (s.wakeIdleIfAlone.tickSuspend.saveContext (some f)).dispatch u, ?_⟩
    simp only [Sched.schedulerTick, ht', loadContext, hu', Option.map_some, Option.bind_eq_bind,
      Option.bind_some, if_neg htc]

/-- The timer interrupt returns while a task waits. -/
lemma TimedInv.timer_returns (h : s.TimedInv) (hy : s.Waits y) (f : StateFrame) :
    ∃ s', s.TimedStep (.timer f) s' := by
  obtain ⟨⟨l, d, hwf⟩, -⟩ := h
  by_cases h5 : 5 ≤ s.countTick.quantumTick
  · have hwf' : Wf s.quantumOver l d := hwf.clock _ _
    obtain ⟨n, s', hs⟩ := hwf'.tick_returns_of_ready hy.1 hy.2.1 f
    exact ⟨s', trivial, n, (if_pos h5).trans hs⟩
  · exact ⟨s.countTick, trivial, 0, if_neg h5⟩

/-- **Bounded waiting.** In every run of timer interrupts and other events of the scheduler, while a
task waits, the timer interrupt returns, and the number of interrupts is bounded by the place of the
task when its wait began: it is less than five for each task between the running task and it, and
five more, less the interrupts already counted.

**Proof sketch.** No event brings another task before `y`, and every dispatch of another task takes
at least one away (`Between.step`). As `y` is ready, the fifth interrupt dispatches a task. So five
times the number of tasks before `y`, plus what is left of the current five, goes down with every
interrupt (`Between.timedStep`), and it is positive. -/
theorem bounded_waiting {N : ℕ} {τ : ℕ → Sched} {a : ℕ → TimedEvent}
    (h : Transition.Run TimedInit TimedStep N τ a) {y : Word} {i j : ℕ} (hij : i ≤ j) (hj : j ≤ N)
    (hy : ∀ m, i ≤ m → m ≤ j → (τ m).Waits y) :
    (∀ f, ∃ s', (τ j).TimedStep (.timer f) s') ∧
      ∃ l₁ l₂, Ring (τ i).next (τ i).currentTask (l₁ ++ y :: l₂) ∧ l₁.length ≤ (τ i).taskTotal ∧
        interrupts a i j + (τ i).quantumTick < 5 * (l₁.length + 1) := by
  refine ⟨(timedInv_of_run h hj).timer_returns (hy j hij (Nat.le_refl j)), ?_⟩
  obtain ⟨l₁, l₂, hring, hlen, hbetween⟩ :=
    (timedInv_of_run h (by omega)).between (hy i (Nat.le_refl i) hij)
  refine ⟨l₁, l₂, hring, hlen, ?_⟩
  have hbudget : ∀ m, i + m ≤ j → ∃ k, (τ (i + m)).Between y k ∧
      5 * k + (5 - (τ (i + m)).quantumTick) + interrupts a i (i + m) ≤
        5 * l₁.length + (5 - (τ i).quantumTick) := by
    intro m
    induction m with
    | zero =>
      intro _
      exact ⟨l₁.length, hbetween, by rw [Nat.add_zero, interrupts_self, Nat.add_zero]⟩
    | succ m ih =>
      intro hm
      obtain ⟨k, hk, hle⟩ := ih (by omega)
      have hnext := hy (i + m + 1) (by omega) (by omega)
      obtain ⟨k', hk', hle'⟩ := hk.timedStep (timedInv_of_run h (by omega)).2 (h.step _ (by omega))
        (hy (i + m) (by omega) (by omega)).2.1 hnext.2.2.symm
      refine ⟨k', hk', ?_⟩
      rw [← Nat.add_assoc, interrupts_succ a (by omega)]
      omega
  obtain ⟨k, -, hle⟩ := hbudget (j - i) (by omega)
  rw [show i + (j - i) = j by omega] at hle
  have hq := (timedInv_of_run h hj).2
  have hq' := (timedInv_of_run h (show i ≤ N by omega)).2
  omega

/-! ## Two slices -/

namespace Hang

/-- The fifth interrupt after the creation of two tasks dispatches the first. -/
def first : Sched := ticked (countTick^[4] both).quantumOver 0x3000#32

/-- The fifth interrupt after that dispatches the second. -/
def second : Sched := ticked (countTick^[4] first).quantumOver 0x4000#32

/-- Two creations and ten timer interrupts. -/
def slices (i : ℕ) : Sched :=
  if i = 0 then s₀ else if i = 1 then s₁ else if i < 7 then countTick^[i - 2] both
  else if i < 12 then countTick^[i - 7] first else second

/-- The events of the run. -/
def sliceEvents (i : ℕ) : TimedEvent := if i < 2 then .other (events i) else .timer default

/-- An interrupt that is only counted. -/
lemma timedStep_count {s : Sched} {f : StateFrame} (h : ¬5 ≤ s.countTick.quantumTick) :
    TimedStep s (.timer f) s.countTick := ⟨trivial, 0, if_neg h⟩

/-- An interrupt that dispatches another task. -/
lemma timedStep_tick {s : Sched} {t : Word} {n : ℕ} (h : 5 ≤ s.countTick.quantumTick)
    (hne : t ≠ s.currentTask) (h₁ : nextTask n s.quantumOver.wakeIdleIfAlone = some t)
    (h₂ : nextTask n (s.quantumOver.wakeIdleIfAlone.tickSuspend.saveContext (some default)) =
      some t) :
    TimedStep s (.timer default) (ticked s.quantumOver t) :=
  ⟨trivial, n, (if_pos h).trans (exec_tick (s := s.quantumOver) hne h₁ h₂)⟩

/-- The run is one of the timed scheduler. -/
lemma run_slices : Transition.Run TimedInit TimedStep 12 slices sliceEvents where
  start := ⟨init_s₀, rfl, rfl⟩
  step := by
    have hcreate : ∀ i < 2, TimedStep (states i) (.other (events i)) (states (i + 1)) := by
      intro i hi
      obtain ⟨hen, hexec⟩ := run_states.step i (by omega)
      refine ⟨⟨hen, fun f => ?_⟩, hexec⟩
      obtain rfl | rfl : i = 0 ∨ i = 1 := by omega
      · exact nofun
      · exact nofun
    intro i hi
    obtain rfl | rfl | rfl | rfl | rfl | rfl | rfl | rfl | rfl | rfl | rfl | rfl :
        i = 0 ∨ i = 1 ∨ i = 2 ∨
      i = 3 ∨ i = 4 ∨ i = 5 ∨ i = 6 ∨ i = 7 ∨ i = 8 ∨ i = 9 ∨ i = 10 ∨ i = 11 := by omega
    · exact hcreate 0 (by omega)
    · exact hcreate 1 (by omega)
    · exact timedStep_count (s := both) (by decide +kernel)
    · exact timedStep_count (s := countTick^[1] both) (by decide +kernel)
    · exact timedStep_count (s := countTick^[2] both) (by decide +kernel)
    · exact timedStep_count (s := countTick^[3] both) (by decide +kernel)
    · exact timedStep_tick (s := countTick^[4] both) (t := 0x3000#32) (n := 5) (by decide +kernel)
        (by decide +kernel) (by decide +kernel) (by decide +kernel)
    · exact timedStep_count (s := first) (by decide +kernel)
    · exact timedStep_count (s := countTick^[1] first) (by decide +kernel)
    · exact timedStep_count (s := countTick^[2] first) (by decide +kernel)
    · exact timedStep_count (s := countTick^[3] first) (by decide +kernel)
    · exact timedStep_tick (s := countTick^[4] first) (t := 0x4000#32) (n := 5) (by decide +kernel)
        (by decide +kernel) (by decide +kernel) (by decide +kernel)

/-- The fifth interrupt calls `load_context`. -/
lemma loads_first : (countTick^[4] both).TimedLoads (.timer default) :=
  ⟨by decide +kernel, 5, 0x3000#32, by decide +kernel, by decide +kernel⟩

/-- Counted interrupts leave a task waiting. -/
lemma waits_iterate {s : Sched} {y : Word} (h : s.Waits y) (m : ℕ) : (countTick^[m] s).Waits y := by
  induction m with
  | zero => exact h
  | succ m ih =>
    rw [Function.iterate_succ_apply']
    exact ih

/-- The second task waits from its creation to its dispatch. -/
lemma waits_slices (m : ℕ) (h₁ : 2 ≤ m) (h₂ : m ≤ 11) : (slices m).Waits 0x4000#32 := by
  unfold slices
  rw [if_neg (by omega), if_neg (by omega)]
  by_cases h : m < 7
  · rw [if_pos h]
    exact waits_iterate ⟨⟨3, rfl⟩, rfl, by decide +kernel⟩ _
  · rw [if_neg h, if_pos (by omega)]
    exact waits_iterate ⟨⟨1, rfl⟩, rfl, by decide +kernel⟩ _

end Hang

/-- The first task has the processor for five interrupts. -/
theorem full_slice_slices : 5 ≤ interrupts Hang.sliceEvents 7 12 := by
  exact full_slice Hang.run_slices (i := 6) (j := 11) (by decide) (by decide) Hang.loads_first rfl
    (by decide +kernel)

/-- The second task waits for less than fifteen interrupts. -/
theorem bounded_waiting_slices :
    ∃ l₁ l₂, Ring Hang.both.next Hang.both.currentTask (l₁ ++ 0x4000#32 :: l₂) ∧
    interrupts Hang.sliceEvents 2 11 < 5 * (l₁.length + 1) := by
  obtain ⟨-, l₁, l₂, hring, -, hlt⟩ :=
    bounded_waiting Hang.run_slices (i := 2) (j := 11) (by decide)
    (by decide) Hang.waits_slices
  exact ⟨l₁, l₂, hring, by omega⟩

end Sched

end AlphaOS
