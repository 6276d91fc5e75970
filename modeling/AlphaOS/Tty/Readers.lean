import AlphaOS.Sched.RoundRobin
import AlphaOS.Tty.Console

set_option relaxedAutoImplicit false
set_option autoImplicit false

/-!
# Tasks waiting for input

A user task that calls `SYS_READ` without a line in the buffer goes to sleep in `await_stdin` and is
recorded in `awaiting_stdin`; the keyboard wakes the recorded task when a line ends. The record has
room for one task: a second reader replaces the first one, which nothing wakes any more. This file
runs the scheduler and the terminal together and says which runs lose no reader.

## Main definitions

* `AlphaOS.Console.Event`, `AlphaOS.Console.Step` — reads, key presses and the scheduler's other
  events.
* `AlphaOS.Sched.Found` — every user task of the ring that sleeps is the recorded one.
* `AlphaOS.Console.Alone` — a reader goes to sleep only when no other one is recorded.

## Main results

* `AlphaOS.Sched.Found.step` — the scheduler's events keep every sleeper recorded.
* `AlphaOS.Console.no_lost_sleeper` — in every run whose readers sleep alone, every sleeping user
  task is recorded and the next newline makes it ready.
* `AlphaOS.Console.sleeper_lost` — two readers, of which the first is lost.
-/

namespace AlphaOS

namespace Sched

open Linked

variable {s s' s'' : Sched} {l l' d : List Word} {t : Word} {n : ℕ} {e : Event}

/-! ## Sleepers -/

/-- From `s` to `s'` no user task goes to sleep and the recorded reader is the same. -/
structure Rouses (s s' : Sched) : Prop where
  idleTask : s'.idleTask = s.idleTask
  reaperTask : s'.reaperTask = s.reaperTask
  awaitingStdin : s'.awaitingStdin = s.awaitingStdin
  sleepers : ∀ t, s.IsUser t → s'.status t = .sleep → s.status t = .sleep

/-- Nothing has changed. -/
lemma Rouses.refl (s : Sched) : Rouses s s := ⟨rfl, rfl, rfl, fun _ _ h => h⟩

/-- The user tasks stay user tasks. -/
lemma Rouses.isUser (h : Rouses s s') : s'.IsUser t ↔ s.IsUser t := by
  unfold IsUser
  rw [h.idleTask, h.reaperTask]

/-- One change after another. -/
lemma Rouses.trans (h : Rouses s s') (h' : Rouses s' s'') : Rouses s s'' where
  idleTask := h'.idleTask.trans h.idleTask
  reaperTask := h'.reaperTask.trans h.reaperTask
  awaitingStdin := h'.awaitingStdin.trans h.awaitingStdin
  sleepers t ht hst := h.sleepers t ht (h'.sleepers t (h.isUser.mpr ht) hst)

/-- Setting a status rouses, unless it puts a user task to sleep. -/
lemma rouses_setStatus (s : Sched) {u : Word} {st : TaskStatus} (h : st = .sleep → ¬ s.IsUser u) :
    Rouses s (s.setStatus u st) := by
  refine ⟨rfl, rfl, rfl, fun t ht hst => ?_⟩
  rw [status_setStatus, Function.update_apply] at hst
  split_ifs at hst with htu
  · exact absurd ht (htu ▸ h hst)
  · exact hst

/-- Writing a link puts no task to sleep. -/
lemma rouses_setNext (s : Sched) (u v : Word) : Rouses s (s.setNext u v) :=
  ⟨rfl, rfl, rfl, fun t _ hst => by rwa [status_setNext] at hst⟩

/-- Waking the idle task puts no task to sleep. -/
lemma rouses_wakeIdleIfAlone (s : Sched) : Rouses s s.wakeIdleIfAlone := by
  unfold wakeIdleIfAlone
  split_ifs
  · exact s.rouses_setStatus (by simp)
  · exact Rouses.refl s

/-- The tick puts no task to sleep. -/
lemma rouses_tickSuspend (s : Sched) : Rouses s s.tickSuspend := by
  unfold tickSuspend
  split_ifs
  · exact s.rouses_setStatus (by simp)
  · exact Rouses.refl s

/-- A completed `load_context` rouses. -/
lemma rouses_loadContext {f : Option StateFrame} (hs : s.loadContext n f = some s') :
    Rouses s s' := by
  obtain ⟨u, -, rfl⟩ := Option.map_eq_some_iff.mp hs
  have hsave : Rouses s (s.saveContext f) := by
    cases f with
    | none => exact Rouses.refl s
    | some f => exact ⟨rfl, rfl, rfl, fun t _ hst => by rwa [status_saveContext] at hst⟩
  obtain ⟨-, hidle, hreaper, -, hawait, -, -⟩ := (s.saveContext f).fields_dispatch u
  refine hsave.trans ⟨hidle, hreaper, hawait, fun t _ hst => ?_⟩
  rw [status_dispatch] at hst
  split_ifs at hst
  · rw [Function.update_apply] at hst
    split_ifs at hst
    exact hst
  · exact hst

/-- Taking a task off the ring puts no task to sleep. -/
lemma rouses_exitPrepare (hs : s.exitPrepare n = some s') : Rouses s s' := by
  obtain ⟨p, -, rfl⟩ := Option.map_eq_some_iff.mp hs
  have h : Rouses s s.countOut := ⟨rfl, rfl, rfl, fun _ _ hst => hst⟩
  exact (h.trans (rouses_wakeIdleIfAlone _)).trans (rouses_setNext _ _ _)

/-- `push_dead_queue` puts no task to sleep. -/
lemma rouses_pushDeadQueue (hs : s.pushDeadQueue n t = some s') : Rouses s s' := by
  unfold pushDeadQueue at hs
  split_ifs at hs
  · rw [← Option.some.inj hs]
    exact ⟨rfl, rfl, rfl, (s.rouses_setNext t 0).sleepers⟩
  · obtain ⟨last, -, rfl⟩ := Option.map_eq_some_iff.mp hs
    exact (s.rouses_setNext t 0).trans (rouses_setNext _ _ _)

/-- A tick rouses. -/
lemma rouses_schedulerTick {f : StateFrame} (hs : s.schedulerTick n f = some s') : Rouses s s' := by
  simp only [schedulerTick, Option.bind_eq_bind, Option.bind_eq_some_iff] at hs
  obtain ⟨u, -, hs⟩ := hs
  split_ifs at hs
  · obtain rfl : s.wakeIdleIfAlone = s' := by simpa using hs
    exact s.rouses_wakeIdleIfAlone
  · exact (s.rouses_wakeIdleIfAlone.trans (rouses_tickSuspend _)).trans (rouses_loadContext hs)

/-- `task_exit` rouses. -/
lemma rouses_taskExit (hs : s.taskExit n = some s') : Rouses s s' := by
  simp only [taskExit, Option.bind_eq_bind, Option.bind_eq_some_iff] at hs
  obtain ⟨s₁, h₁, s₂, h₂, s₃, h₃, hs⟩ := hs
  obtain rfl : s₃.wakeReaperTask = s' := by simpa using hs
  exact (((rouses_exitPrepare h₁).trans (rouses_loadContext h₂)).trans
    (rouses_pushDeadQueue h₃)).trans (s₃.rouses_setStatus (by simp))

/-- A pass of the reaper rouses: the reaper, which goes to sleep, is not a user task. -/
lemma rouses_reaperTaskLoop (h : Wf s l d) (hs : s.reaperTaskLoop n = some s') : Rouses s s' := by
  simp only [reaperTaskLoop, Option.bind_eq_bind, Option.bind_eq_some_iff] at hs
  obtain ⟨s₁, h₁, hs⟩ := hs
  obtain ⟨-, heq⟩ := h.drainDeadQueue h₁
  have hdrain : Rouses s s₁ := by
    rw [heq]
    exact ⟨rfl, rfl, rfl, fun _ _ hst => hst⟩
  have hsleep : Rouses s₁ s₁.sleepReaperTask := s₁.rouses_setStatus fun _ hu => hu.2 rfl
  exact (hdrain.trans hsleep).trans (rouses_loadContext hs)

/-- Creating a task and linking it in rouses, as far as the other tasks are concerned. -/
lemma rouses_enqueueTask {g : Grant} {entry : Word} {type : TaskType}
    (hs : s.enqueueTask n g entry type = some s') :
    Rouses s s' ∧ (s.IsUser g.task → s'.status g.task = .ready) := by
  obtain ⟨p, -, rfl⟩ := Option.map_eq_some_iff.mp hs
  have hst : ∀ u, s.IsUser u → ((s.createTask g entry type).linkNew p g.task).status u =
      Function.update s.status g.task .ready u := by
    intro u hu
    have hlink : ((s.createTask g entry type).linkNew p g.task).status u =
        Function.update (s.createTask g entry type).status s.idleTask .sleep u := by
      unfold linkNew sleepIdleTask
      rw [status_setStatus]
      change Function.update (((s.createTask g entry type).setNext p g.task).setNext g.task
        s.currentTask).status s.idleTask .sleep u = _
      rw [status_setNext, status_setNext]
    rw [hlink, Function.update_of_ne hu.1, status_createTask]
  refine ⟨⟨rfl, rfl, rfl, fun t ht hsleep => ?_⟩, fun hu => ?_⟩
  · rw [hst t ht, Function.update_apply] at hsleep
    split_ifs at hsleep
    exact hsleep
  · rw [hst _ hu, Function.update_self]

/-! ## Every sleeper is recorded -/

/-- Every user task of the ring that sleeps is the one recorded in `awaiting_stdin`. -/
def Found (s : Sched) (l : List Word) : Prop :=
  ∀ t ∈ s.currentTask :: l, s.IsUser t → s.status t = .sleep → t = s.awaitingStdin

/-- An event that rouses keeps every sleeper recorded. -/
lemma Found.of_rouses (h : Found s l) (hr : Rouses s s')
    (hmem : ∀ t ∈ s'.currentTask :: l', s.IsUser t → s'.status t = .sleep →
      t ∈ s.currentTask :: l) : Found s' l' := by
  intro t ht hu hst
  have hu' := hr.isUser.mp hu
  rw [hr.awaitingStdin]
  exact h t (hmem t ht hu' hst) hu' (hr.sleepers t hu' hst)

/-- **The scheduler's events keep every sleeper recorded**, as long as a reader goes to sleep only
when no other one is recorded.

**Proof sketch.** Every event but two rouses (`Rouses`). `await_stdin` puts the current task to
sleep and records it: no other user task slept, because none was recorded. `wake_stdin_task` makes
the recorded task ready, and no other user task slept. -/
theorem Found.step (h : Wf s l d) (hf : Found s l) (hs : s.Step e s')
    (hok : ∀ f, e = .await f → s.awaitingStdin = 0) : ∃ l' d', Wf s' l' d' ∧ Found s' l' := by
  obtain ⟨hen, n, hs⟩ := hs
  cases e with
  | enqueue g entry type =>
    obtain ⟨hr, hnew⟩ := rouses_enqueueTask hs
    refine ⟨_, d, h.enqueueTask hen hs, hf.of_rouses hr fun t ht hu hst => ?_⟩
    rw [currentTask_enqueueTask hs, List.mem_cons, List.mem_append, List.mem_singleton] at ht
    rcases ht with rfl | ht | rfl
    · exact List.mem_cons_self
    · exact List.mem_cons_of_mem _ ht
    · rw [hnew hu] at hst
      exact absurd hst (by simp)
  | tick f =>
    have hr := rouses_schedulerTick hs
    rcases h.schedulerTick hs with ⟨-, hcur, hwf⟩ | ⟨-, l₁, l₂, hpass, hwf⟩
    · exact ⟨l, d, hwf, hf.of_rouses hr fun t ht _ _ => hcur ▸ ht⟩
    · exact ⟨_, d, hwf, hf.of_rouses hr fun t ht _ _ => hpass.perm.mem_iff.mp ht⟩
  | await f =>
    obtain ⟨l₁, l₂, hpass, hwf⟩ := h.awaitStdin hen hs
    refine ⟨_, d, hwf, fun t ht hu hst => ?_⟩
    have hr := rouses_loadContext hs
    have hfields : s.awaitPrepare.awaitingStdin = s.currentTask ∧
        (s.awaitPrepare.IsUser t ↔ s.IsUser t) := by
      unfold awaitPrepare
      split_ifs <;> exact ⟨rfl, Iff.rfl⟩
    have hu' := hr.isUser.mp hu
    rw [hr.awaitingStdin, hfields.1]
    rcases status_awaitPrepare hen t with ⟨rfl, -⟩ | ⟨-, hcase⟩
    · rfl
    · -- another sleeper would have been recorded
      have hsleep := hr.sleepers t hu' hst
      have hold : s.status t = .sleep := by
        rcases hcase with he | he
        · rw [he] at hsleep
          exact absurd hsleep (by simp)
        · exact he.symm.trans hsleep
      have hmem := hpass.perm.mem_iff.mp ht
      have hzero := (hf t hmem (hfields.2.mp hu') hold).trans (hok f rfl)
      exact absurd hzero (h.core.notNull t (List.mem_append_left _ hmem))
  | wake =>
    obtain rfl : s.wakeStdinTask = s' := by simpa [exec] using hs
    refine ⟨l, d, h.wakeStdinTask, ?_⟩
    unfold Sched.wakeStdinTask
    split_ifs with ha
    · intro t ht hu hst
      have hst' : Function.update s.status s.awaitingStdin .ready t = .sleep := by
        rw [← status_setStatus]
        exact hst
      rw [Function.update_apply] at hst'
      split_ifs at hst' with hta
      exact absurd (hf t ht hu hst') hta
    · exact hf
  | exit =>
    obtain ⟨l₁, l₂, hpass, hwf⟩ := h.taskExit hen hs
    refine ⟨_, _, hwf, hf.of_rouses (rouses_taskExit hs) fun t ht _ _ => ?_⟩
    refine hpass.perm.mem_iff.mp ?_
    simp only [List.mem_cons, List.mem_append] at ht ⊢
    tauto
  | reap =>
    obtain ⟨l₁, l₂, hpass, hwf⟩ := h.reaperTaskLoop hen hs
    exact ⟨_, _, hwf, hf.of_rouses (rouses_reaperTaskLoop h hs)
      fun t ht _ _ => hpass.perm.mem_iff.mp ht⟩

end Sched

/-! ## The scheduler and the terminal together -/

namespace Console

open Sched

variable {k k' : Console} {c : UInt8} {n fd len : ℕ}

/-- `sys_read`: `none` for the error `-1`, else the bytes read. Every open file is the terminal,
whose `read` is `tty_read`. -/
def sysRead (fd len : ℕ) (k : Console) : Option (List UInt8) × Console :=
  if (k.sched.file ((k.sched.task k.sched.currentTask).fds fd)).flags &&& ~~~ronlyFlag ≠ 0 then
    (none, k)
  else (some (k.ttyRead len).1, (k.ttyRead len).2)

/-- `syscall_handler` for `SYS_READ`: without a line in the buffer the caller goes to sleep, and the
call is made again when it is resumed. -/
def syscallRead (n : ℕ) (f : StateFrame) (fd len : ℕ) (k : Console) : Option Console :=
  if k.stdinBufferHasLine then some (k.sysRead fd len).2
  else (k.sched.awaitStdin n f).map fun s => { k with sched := s }

/-- What can happen: the running task reads, a key is pressed, or the scheduler is called for
another reason. -/
inductive Event
  | read (f : StateFrame) (fd len : ℕ)
  | key (c : UInt8)
  | sched (e : Sched.Event)

/-- When an event can happen: a read is made by a user task, and tasks sleep and wake through reads
and keys only. -/
def Enabled (k : Console) : Event → Prop
  | .read _ _ _ => k.sched.IsUser k.sched.currentTask
  | .key _ => True
  | .sched e => k.sched.Enabled e ∧ e ≠ .wake ∧ ∀ f, e ≠ .await f

/-- What an event does, each loop of the scheduler running at most `n` times. -/
def exec (n : ℕ) (k : Console) : Event → Option Console
  | .read f fd len => k.syscallRead n f fd len
  | .key c => some (k.writeTtyBuffer c)
  | .sched e => (k.sched.exec n e).map fun s => { k with sched := s }

/-- An enabled event happens and all its loops return. -/
def Step (k : Console) (e : Event) (k' : Console) : Prop := k.Enabled e ∧ ∃ n, k.exec n e = some k'

/-- The state after `init_scheduler`, with an empty buffer. -/
def Init (k : Console) : Prop := Sched.Init k.sched ∧ k.bufferHead = 0 ∧ k.bufferTail = 0

/-- A reader that goes to sleep is the only one recorded: a read finds a line in the buffer or no
task in `awaiting_stdin`. -/
def Alone (k : Console) : Event → Prop
  | .read _ _ _ => k.stdinBufferHasLine = true ∨ k.sched.awaitingStdin = 0
  | .key _ => True
  | .sched _ => True

/-- A read does not concern the scheduler. -/
@[simp] lemma sched_ttyRead (k : Console) (len : ℕ) : (k.ttyRead len).2.sched = k.sched := by
  induction len generalizing k with
  | zero => rfl
  | succ len ih =>
    rw [ttyRead]
    split_ifs
    · rfl
    · exact ih { k with bufferHead := k.readIndex + 1 }

/-- `sys_read` does not concern the scheduler. -/
@[simp] lemma sched_sysRead (k : Console) (fd len : ℕ) : (k.sysRead fd len).2.sched = k.sched := by
  unfold sysRead
  split_ifs
  · rfl
  · exact sched_ttyRead k len

/-- A key wakes the recorded reader, or leaves the scheduler alone. -/
lemma sched_writeTtyBuffer (k : Console) (c : UInt8) : (k.writeTtyBuffer c).sched =
    if k.sched.awaitingStdin ≠ 0 ∧ c = newline then k.sched.wakeStdinTask else k.sched := by
  have hstore : (((k.echo c).store c).storeWrapped c).sched = k.sched := by
    rw [← sched_echo (k := k) (c := c)]
    unfold storeWrapped Console.store
    split_ifs <;> rfl
  by_cases ha : k.sched.awaitingStdin = 0
  · rw [if_neg (fun h => h.1 ha)]
    unfold writeTtyBuffer
    rw [if_pos (by rwa [sched_echo])]
    exact sched_echo
  · rw [writeTtyBuffer_of_awaiting ha]
    unfold wakeReader
    split_ifs with hc hw hw
    · exact congrArg Sched.wakeStdinTask hstore
    · exact absurd ⟨ha, hc⟩ hw
    · exact absurd hw.2 hc
    · exact hstore

/-- **One event** of the scheduler and the terminal is an event of the scheduler or leaves it alone.
-/
lemma Step.sched_step {e : Event} (hs : k.Step e k') : k'.sched = k.sched ∨
    ∃ e', k.sched.Step e' k'.sched ∧
      ∀ f, e' = .await f → k.Alone e → k.sched.awaitingStdin = 0 := by
  obtain ⟨hen, n, hs⟩ := hs
  cases e with
  | read f fd len =>
    simp only [exec, syscallRead] at hs
    split_ifs at hs with hline
    · obtain rfl := Option.some.inj hs
      exact .inl (sched_sysRead k fd len)
    · obtain ⟨s, hawait, rfl⟩ := Option.map_eq_some_iff.mp hs
      refine .inr ⟨.await f, ⟨hen, n, hawait⟩, fun _ _ halone => halone.resolve_left hline⟩
  | key c =>
    obtain rfl := Option.some.inj hs
    rw [sched_writeTtyBuffer]
    split_ifs
    · exact .inr ⟨.wake, ⟨trivial, n, rfl⟩, fun f hf => by simp at hf⟩
    · exact .inl rfl
  | sched e =>
    obtain ⟨s, hexec, rfl⟩ := Option.map_eq_some_iff.mp hs
    exact .inr ⟨e, ⟨hen.1, n, hexec⟩, fun f hf => absurd hf (hen.2.2 f)⟩

/-- In every run whose readers sleep alone every sleeper is recorded. -/
lemma found_of_reach (h : Transition.Reach Init Step Alone k) :
    ∃ l d, Wf k.sched l d ∧ Found k.sched l := by
  refine h.invariant (I := fun k => ∃ l d, Wf k.sched l d ∧ Found k.sched l) ?_ ?_
  · rintro k ⟨hinit, -, -⟩
    have hstart : Transition.Reach Sched.Init Sched.Step (fun _ _ => True) k.sched := .start hinit
    obtain ⟨l, d, hwf⟩ := wf_of_reach hstart
    refine ⟨l, d, hwf, fun t ht hu _ => ?_⟩
    obtain ⟨us, hperm, hlen, -⟩ := hwf.users
    obtain ⟨s₀, g₁, g₂, htotal, -, -, -, -, -, heq⟩ := hinit
    have hnil : us = [] := List.eq_nil_of_length_eq_zero (hlen.trans (by rw [heq]; exact htotal))
    have hmem := hperm.mem_iff.mp ht
    rw [hnil] at hmem
    have hcases : t = k.sched.idleTask ∨ t = k.sched.reaperTask := by simpa using hmem
    exact absurd hcases (not_or.mpr hu)
  · rintro k e k' ⟨l, d, hwf, hfound⟩ hok hs
    rcases hs.sched_step with heq | ⟨e', hstep, hawait⟩
    · exact ⟨l, d, heq ▸ hwf, heq ▸ hfound⟩
    · exact hfound.step hwf hstep fun f hf => hawait f hf hok

/-- **No lost sleeper.** In every state reached by reads of any user tasks, key presses, ticks,
creations, exits and passes of the reaper, in which a read without a line in the buffer is made only
while no task is recorded, every user task of the ring that sleeps is the one recorded in
`awaiting_stdin`, and the next newline makes it ready.

**Proof sketch.** Induction on the run: the only step that puts a user task of the ring to sleep is
a read, which records it; the record is overwritten by no other read, and is cleared when the task
is woken. -/
theorem no_lost_sleeper {k : Console} (h : Transition.Reach Init Step Alone k) {t : Word}
    (hring : k.sched.OnRing t) (huser : k.sched.IsUser t) (hsleep : k.sched.status t = .sleep) :
    t = k.sched.awaitingStdin ∧ (k.writeTtyBuffer newline).sched.status t = .ready := by
  obtain ⟨l, d, hwf, hfound⟩ := found_of_reach h
  have hmem := hwf.onRing_iff.mp hring
  have hta := hfound t hmem huser hsleep
  have hne : k.sched.awaitingStdin ≠ 0 :=
    hta ▸ hwf.core.notNull t (List.mem_append_left _ hmem)
  refine ⟨hta, ?_⟩
  rw [sched_writeTtyBuffer, if_pos ⟨hne, rfl⟩, Sched.wakeStdinTask, if_pos hne, hta]
  change (k.sched.setStatus k.sched.awaitingStdin .ready).status k.sched.awaitingStdin = _
  rw [status_setStatus, Function.update_self]

end Console

/-! ## Two readers -/

namespace Sched.Hang

/-- The first task waits for input and the second one is dispatched. -/
def oneReader : Sched :=
  ((states 3).awaitPrepare.saveContext (some (awaitFrame default))).dispatch 0x4000#32

/-- The second task waits for input too and the idle task is dispatched. -/
def twoReaders : Sched :=
  (oneReader.awaitPrepare.saveContext (some (awaitFrame default))).dispatch 0x1000#32

/-- A console with an empty buffer beside a state of the scheduler. -/
def console (s : Sched) : Console := ⟨s, fun _ => 0, 0, 0, 0#32, []⟩

/-- Two creations and a tick, in front of an empty buffer. -/
lemma reach_console (ok : Console → Console.Event → Prop) (hok : ∀ k e, ok k (.sched e)) :
    Transition.Reach Console.Init Console.Step ok (console (states 3)) := by
  have hstep : ∀ i < 3, Console.Step (console (states i)) (.sched (events i))
      (console (states (i + 1))) := by
    intro i hi
    obtain ⟨hen, n, hs⟩ := run_states.step i (by omega)
    refine ⟨⟨hen, ?_⟩, n, by simp only [Console.exec, console, hs, Option.map_some]⟩
    obtain rfl | rfl | rfl : i = 0 ∨ i = 1 ∨ i = 2 := by omega
    · exact ⟨by simp [events], by simp [events]⟩
    · exact ⟨by simp [events], by simp [events]⟩
    · exact ⟨by simp [events], by simp [events]⟩
  have hinit : Console.Init (console (states 0)) := ⟨init_s₀, rfl, rfl⟩
  exact (((Transition.Reach.start hinit).next (hok _ _) (hstep 0 (by decide))).next (hok _ _)
    (hstep 1 (by decide))).next (hok _ _) (hstep 2 (by decide))

/-- The first task reads. -/
lemma step_oneReader : Console.Step (console (states 3)) (.read default 0 1) (console oneReader) :=
  ⟨⟨by decide +kernel, by decide +kernel⟩, 5, rfl⟩

/-- The second task reads. -/
lemma step_twoReaders : Console.Step (console oneReader) (.read default 0 1) (console twoReaders) :=
  ⟨⟨by decide +kernel, by decide +kernel⟩, 5, rfl⟩

end Sched.Hang

/-- **The first of two readers is lost.** Both user tasks read from an empty buffer: the second one
is recorded in the place of the first one, which sleeps on the ring. -/
theorem Console.sleeper_lost :
    ¬ ∀ k, Transition.Reach Console.Init Console.Step (fun _ _ => True) k → ∀ t,
      k.sched.OnRing t → k.sched.IsUser t → k.sched.status t = .sleep →
        t = k.sched.awaitingStdin := by
  intro hall
  have hreach := Sched.Hang.reach_console (fun _ _ => True) fun _ _ => trivial
  have htwo :=
    (hreach.next trivial Sched.Hang.step_oneReader).next trivial Sched.Hang.step_twoReaders
  have heq := hall _ htwo 0x3000#32 ⟨2, rfl⟩ ⟨by decide +kernel, by decide +kernel⟩ rfl
  exact absurd heq (by decide +kernel)

/-- A single reader is recorded, and the next newline makes it ready. -/
theorem Console.no_lost_sleeper_oneReader :
    0x3000#32 = Sched.Hang.oneReader.awaitingStdin ∧
      ((Sched.Hang.console Sched.Hang.oneReader).writeTtyBuffer newline).sched.status 0x3000#32 =
        .ready := by
  have hreach := Sched.Hang.reach_console Console.Alone fun _ _ => trivial
  have hone : Transition.Reach Console.Init Console.Step Console.Alone
      (Sched.Hang.console Sched.Hang.oneReader) :=
    hreach.next (a := .read default 0 1) (Or.inr rfl) Sched.Hang.step_oneReader
  exact Console.no_lost_sleeper hone ⟨3, rfl⟩ ⟨by decide +kernel, by decide +kernel⟩ rfl

end AlphaOS
