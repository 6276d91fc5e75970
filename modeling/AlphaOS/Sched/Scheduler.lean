import AlphaOS.Lib.Reach
import AlphaOS.Sched.Task

set_option relaxedAutoImplicit false
set_option autoImplicit false

/-!
# The scheduler

The functions of `kernel/scheduler/scheduler.c` as functions on `AlphaOS.Sched`. A `while` loop
of the source is bounded by a number `n` of iterations, and a function returns `none` when a
loop is still running after them; the loop of the source returns when some `n` suffices.

## Main definitions

* `AlphaOS.Sched.nextTask`, `loadContext`, `schedulerTick`, `awaitStdin`, `wakeStdinTask`,
  `taskExit`, `createTask`, `enqueueTask`, `reaperTaskLoop`, `initScheduler` — the functions of
  the source.
* `AlphaOS.Sched.Event`, `AlphaOS.Sched.Step` — the events that drive the scheduler and what
  they do.
* `AlphaOS.Sched.CallsNextTask` — the states in which an event calls `next_task`.
* `AlphaOS.Sched.Dispatches` — the task an event dispatches through `load_context`.

## Design

`reaperTaskLoop` is one pass of the reaper's endless loop. `pic_send_eoi` and the interrupt
flag have no counterpart: an event is one uninterrupted run of kernel code.
-/

namespace AlphaOS

/-- The blocks the allocators hand to one call of `create_task`: the task block, the three
file blocks, the ring-0 stack and, for a ring-3 task, the page directory. -/
structure Grant where
  task : Word
  stdin : Word
  stdout : Word
  stderr : Word
  stack : Word
  pd : Word
deriving DecidableEq, Repr, Inhabited

/-- The blocks of a grant that come from `kmalloc`. -/
def Grant.blocks (g : Grant) : List Word := [g.task, g.stdin, g.stdout, g.stderr, g.stack]

namespace Sched

/-! ## Allocation -/

/-- `kfree(p)`. -/
def kfree (s : Sched) (p : Word) : Sched := { s with heap := s.heap.erase p }

/-- `unmmap_ring3(pd)`. -/
def unmmapRing3 (s : Sched) (pd : Word) : Sched := { s with spaces := s.spaces.erase pd }

/-- `open_file(global_tty, flags)`, with the block `kmalloc` returns. The vnode is that of
`init_vfs`; no code of the repository calls that function, and while `global_tty` is `NULL` the read
of its name faults instead. -/
def openFile (s : Sched) (blk flags : Word) : Sched :=
  { s with
    heap := blk :: s.heap
    file := Function.update s.file blk ⟨s.layout.ttyName, s.layout.ttyOps, flags⟩ }

/-- What the allocators promise about the blocks they hand out: distinct, not `NULL`, and not
in use. -/
structure Fresh (s : Sched) (g : Grant) : Prop where
  nodup : g.blocks.Nodup
  notHeap : ∀ b ∈ g.blocks, b ∉ s.heap
  notNull : ∀ b ∈ g.blocks, b ≠ 0
  notSpace : g.pd ∉ s.spaces
  notKernel : g.pd ≠ s.layout.kernelPageDirectory

/-! ## The idle and the reaper task -/

/-- `wake_idle_task`. -/
def wakeIdleTask (s : Sched) : Sched := s.setStatus s.idleTask .schedulerIdle

/-- `sleep_idle_task`. -/
def sleepIdleTask (s : Sched) : Sched := s.setStatus s.idleTask .sleep

/-- `wake_reaper_task`. -/
def wakeReaperTask (s : Sched) : Sched := s.setStatus s.reaperTask .ready

/-- `sleep_reaper_task`. -/
def sleepReaperTask (s : Sched) : Sched := s.setStatus s.reaperTask .sleep

/-! ## Choosing and dispatching a task -/

/-- The statuses at which the loop of `next_task` stops. -/
def selectable (st : TaskStatus) : Bool := st == .ready || st == .schedulerIdle

/-- `next_task`, looking at no more than `n` tasks. -/
def nextTask (n : ℕ) (s : Sched) : Option Word :=
  Linked.walk s.next (fun t => selectable (s.status t)) n (s.next s.currentTask)

/-- `next_task` returns, after some number of iterations. -/
def NextTaskReturns (s : Sched) : Prop := ∃ n t, nextTask n s = some t

/-- The context `load_context` makes of a frame. A ring-0 frame has no `useresp` of its own, so
the address of that field, just above the frame, is the stack pointer. -/
def savedContext (f : StateFrame) : CpuTaskState :=
  if f.regs.cs = userCs then { f.regs with esp := f.regs.useresp }
  else { f.regs with esp := f.addr + 48#32 }

/-- The first half of `load_context`: save the interrupted state in the current task. -/
def saveContext (s : Sched) : Option StateFrame → Sched
  | none => s
  | some f => s.setContext s.currentTask (savedContext f)

/-- `if (t->pid != IDLE_PID) t->status = TASK_RUNNING`. -/
def markRunning (s : Sched) (t : Word) : Sched :=
  if s.pid t ≠ 0 then s.setStatus t .running else s

/-- The second half of `load_context`: make `t` the current task. -/
def dispatch (s : Sched) (t : Word) : Sched :=
  { s.markRunning t with
    currentTask := t
    quantumTick := 0
    esp0 := (s.task t).ring0StackBase + BitVec.ofNat 32 pageSize
    cr3 := (s.task t).cr3 }

/-- `load_context`. -/
def loadContext (n : ℕ) (state : Option StateFrame) (s : Sched) : Option Sched :=
  (nextTask n (s.saveContext state)).map (s.saveContext state).dispatch

/-! ## Sleeping and waking -/

/-- `await_stdin` up to its call of `load_context`: the caller sleeps, its saved `eip` is moved
back to the `int` instruction, and the idle task is woken if the caller is the only task. -/
def awaitPrepare (s : Sched) : Sched :=
  { (if s.taskTotal = 1 then (s.setStatus s.currentTask .sleep).wakeIdleTask
      else s.setStatus s.currentTask .sleep) with
    awaitingStdin := s.currentTask }

/-- The frame `await_stdin` saves: `state->eip -= 2`. -/
def awaitFrame (f : StateFrame) : StateFrame :=
  { f with regs := { f.regs with eip := f.regs.eip - 2#32 } }

/-- `await_stdin`. -/
def awaitStdin (n : ℕ) (f : StateFrame) (s : Sched) : Option Sched :=
  loadContext n (some (awaitFrame f)) s.awaitPrepare

/-- `wake_stdin_task`. -/
def wakeStdinTask (s : Sched) : Sched :=
  if s.awaitingStdin ≠ 0 then { s.setStatus s.awaitingStdin .ready with awaitingStdin := 0 } else s

/-! ## Exiting -/

/-- The last task of the dead queue. -/
def lastDead (n : ℕ) (s : Sched) : Option Word :=
  Linked.walk s.next (fun u => s.next u == 0) n s.deadQueue

/-- `push_dead_queue`. -/
def pushDeadQueue (n : ℕ) (t : Word) (s : Sched) : Option Sched :=
  if s.deadQueue = 0 then some { s.setNext t 0 with deadQueue := t }
  else ((s.setNext t 0).lastDead n).map fun last => (s.setNext t 0).setNext last t

/-- `pop_dead_queue` on a nonempty queue: the rest of the queue. -/
def popDeadQueue (s : Sched) : Sched := { s with deadQueue := s.next s.deadQueue }

/-- The node before the current task on the ring. -/
def predecessor (n : ℕ) (s : Sched) : Option Word :=
  Linked.walk s.next (fun t => s.next t == s.currentTask) n s.currentTask

/-- `--task_total`, on a `uint64_t`. -/
def countOut (s : Sched) : Sched :=
  { s with taskTotal := if s.taskTotal = 0 then 2 ^ 64 - 1 else s.taskTotal - 1 }

/-- `if (task_total == 0) wake_idle_task()`. -/
def wakeIdleIfAlone (s : Sched) : Sched := if s.taskTotal = 0 then s.wakeIdleTask else s

/-- Take the current task off the ring: the node before it links to the node after it. -/
def unlinkCurrent (n : ℕ) (s : Sched) : Option Sched :=
  (s.predecessor n).map fun p => s.setNext p (s.next s.currentTask)

/-- `task_exit` up to its call of `load_context`: count the task out, wake the idle task if it
was the last one, and take the task off the ring. -/
def exitPrepare (n : ℕ) (s : Sched) : Option Sched := s.countOut.wakeIdleIfAlone.unlinkCurrent n

/-- `task_exit`. -/
def taskExit (n : ℕ) (s : Sched) : Option Sched := do
  let deadTask := s.currentTask
  let s ← s.exitPrepare n
  let s ← loadContext n none s
  let s ← s.pushDeadQueue n deadTask
  return s.wakeReaperTask

/-! ## Creating tasks -/

/-- The saved context `create_task` builds in the block `old`. -/
def initialContext (s : Sched) (g : Grant) (old : CpuTaskState) : TaskType → CpuTaskState
  | .ring0 =>
    { old with
      edi := 0, esi := 0, ebp := 0, ebx := 0, edx := 0, ecx := 0, eax := 0, eflags := 0x202#32
      cs := kernelCs, ds := kernelDs
      esp := g.stack + BitVec.ofNat 32 pageSize
      eip := s.layout.taskTrampoline }
  | .ring3 =>
    { old with
      edi := 0, esi := 0, ebp := 0, ebx := 0, edx := 0, ecx := 0, eax := 0, eflags := 0x202#32
      cs := userCs, ds := userDs
      esp := userStack + BitVec.ofNat 32 pageSize
      eip := userCode }

/-- The task block `create_task` fills in: fields it does not assign keep what the memory
held. -/
def newTask (s : Sched) (g : Grant) (entry : Word) (type : TaskType) : Task :=
  { pid := s.nextPid
    context := s.initialContext g (s.task g.task).context type
    cr3 := match type with
      | .ring0 => s.layout.kernelPageDirectory
      | .ring3 => g.pd
    fds := fun i => if i = 0 then g.stdin else if i = 1 then g.stdout
      else if i = 2 then g.stderr else (s.task g.task).fds i
    totalFds := 3
    ring0StackBase := g.stack
    ring0StackSize := pageSize
    ring3StackBase := match type with
      | .ring0 => (s.task g.task).ring3StackBase
      | .ring3 => userStack
    ring3StackSize := match type with
      | .ring0 => (s.task g.task).ring3StackSize
      | .ring3 => pageSize
    entry := match type with
      | .ring0 => entry
      | .ring3 => (s.task g.task).entry
    status := .ready
    type := type
    next := 0 }

/-- The allocations of `create_task` before the task block is filled in. -/
def openFiles (s : Sched) (g : Grant) : Sched :=
  ((({ s with heap := g.task :: s.heap }).openFile g.stdin ronlyFlag).openFile g.stdout
    wonlyFlag).openFile g.stderr wonlyFlag

/-- `create_task`. -/
def createTask (s : Sched) (g : Grant) (entry : Word) (type : TaskType) : Sched :=
  { s.openFiles g with
    task := Function.update s.task g.task (s.newTask g entry type)
    nextPid := (s.nextPid + 1) % 2 ^ 64
    heap := g.stack :: (s.openFiles g).heap
    spaces := match type with
      | .ring0 => s.spaces
      | .ring3 => g.pd :: s.spaces }

/-- The end of `enqueue_task`: link the new task in between `p` and the current task. -/
def linkNew (s : Sched) (p new : Word) : Sched :=
  sleepIdleTask { (s.setNext p new).setNext new s.currentTask with
    taskTotal := (s.taskTotal + 1) % 2 ^ 64 }

/-- `enqueue_task`. -/
def enqueueTask (n : ℕ) (g : Grant) (entry : Word) (type : TaskType) (s : Sched) : Option Sched :=
  ((s.createTask g entry type).predecessor n).map fun p =>
    (s.createTask g entry type).linkNew p g.task

/-! ## The reaper -/

/-- `if (t->type == RING3_TASK) unmmap_ring3(t->cr3)`. -/
def freeSpace (s : Sched) (t : Word) : Sched :=
  if (s.task t).type = .ring3 then s.unmmapRing3 (s.task t).cr3 else s

/-- What `reaper_task_loop` gives back for one dead task: the address space, the files, the
ring-0 stack and the task block. -/
def reapTask (s : Sched) (t : Word) : Sched :=
  ((((List.range (s.task t).totalFds).map (s.task t).fds).foldl kfree (s.freeSpace t)).kfree
    (s.task t).ring0StackBase).kfree t

/-- The blocks `reaper_task_loop` passes to `kfree` for the task at `t`, in order. -/
def kfreed (s : Sched) (t : Word) : List Word :=
  (List.range (s.task t).totalFds).map (s.task t).fds ++ [(s.task t).ring0StackBase, t]

/-- The inner loop of `reaper_task_loop`. -/
def drainDeadQueue : ℕ → Sched → Option Sched
  | 0, _ => none
  | n + 1, s =>
    if s.deadQueue = 0 then some s
    else drainDeadQueue n (s.popDeadQueue.reapTask s.deadQueue)

/-- One pass of `reaper_task_loop`. -/
def reaperTaskLoop (n : ℕ) (s : Sched) : Option Sched := do
  let s ← drainDeadQueue n s
  loadContext n none s.sleepReaperTask

/-! ## Initialization and the timer -/

/-- `idle_task = create_task(&idle_task_loop, RING0_TASK)` and its status. -/
def createIdle (s : Sched) (g : Grant) : Sched :=
  { (s.createTask g s.layout.idleTaskLoop .ring0).setStatus g.task .schedulerIdle with
    idleTask := g.task }

/-- `reaper_task = create_task(&reaper_task_loop, RING0_TASK)` and its status. -/
def createReaper (s : Sched) (g : Grant) : Sched :=
  { (s.createTask g s.layout.reaperTaskLoop .ring0).setStatus g.task .sleep with
    reaperTask := g.task }

/-- `init_scheduler`, on the state the boot code leaves. -/
def initScheduler (s : Sched) (g₁ g₂ : Grant) : Sched :=
  { (((s.createIdle g₁).createReaper g₂).setNext g₁.task g₂.task).setNext g₂.task g₁.task with
    currentTask := g₁.task }

/-- `scheduler_tick` between its own call of `next_task` and `load_context`: the interrupted
task is ready again, unless it idles. -/
def tickSuspend (s : Sched) : Sched :=
  if s.status s.currentTask ≠ .schedulerIdle then s.setStatus s.currentTask .ready else s

/-- `scheduler_tick`. -/
def schedulerTick (n : ℕ) (f : StateFrame) (s : Sched) : Option Sched := do
  let t ← nextTask n s.wakeIdleIfAlone
  if t = s.currentTask then return s.wakeIdleIfAlone
  else loadContext n (some f) s.wakeIdleIfAlone.tickSuspend

/-- The counters `timer_interrupt_handler` advances. -/
def countTick (s : Sched) : Sched :=
  { s with ticks := (s.ticks + 1) % 2 ^ 64, quantumTick := (s.quantumTick + 1) % 2 ^ 8 }

/-- `timer_interrupt_handler`, with `SCHEDULER_QUANTUM` equal to `5`. -/
def timerInterruptHandler (n : ℕ) (f : StateFrame) (s : Sched) : Option Sched :=
  if 5 ≤ s.countTick.quantumTick then schedulerTick n f { s.countTick with quantumTick := 0 }
  else some s.countTick

/-! ## The scheduler as a transition system -/

/-- What can happen to the scheduler. -/
inductive Event
  | enqueue (g : Grant) (entry : Word) (type : TaskType)
  | tick (f : StateFrame)
  | await (f : StateFrame)
  | wake
  | exit
  | reap
deriving DecidableEq, Repr

/-- The task at `t` is neither the idle task nor the reaper. -/
def IsUser (s : Sched) (t : Word) : Prop := t ≠ s.idleTask ∧ t ≠ s.reaperTask

/-- When an event can happen: a creation gets fresh blocks, a user task is running when it
sleeps or exits, and the reaper is running when it reaps. -/
def Enabled (s : Sched) : Event → Prop
  | .enqueue g _ _ => s.Fresh g
  | .tick _ => True
  | .await _ => s.IsUser s.currentTask
  | .wake => True
  | .exit => s.IsUser s.currentTask
  | .reap => s.currentTask = s.reaperTask

/-- What an event does, each loop running at most `n` times. -/
def exec (n : ℕ) (s : Sched) : Event → Option Sched
  | .enqueue g entry type => s.enqueueTask n g entry type
  | .tick f => s.schedulerTick n f
  | .await f => s.awaitStdin n f
  | .wake => some s.wakeStdinTask
  | .exit => s.taskExit n
  | .reap => s.reaperTaskLoop n

/-- An enabled event happens and all its loops return. -/
def Step (s : Sched) (e : Event) (s' : Sched) : Prop := s.Enabled e ∧ ∃ n, s.exec n e = some s'

/-- The states `init_scheduler` leaves, whatever the memory held before. -/
def Init (s : Sched) : Prop :=
  ∃ (s₀ : Sched) (g₁ g₂ : Grant), s₀.taskTotal = 0 ∧ s₀.nextPid = 0 ∧ s₀.deadQueue = 0 ∧
    s₀.awaitingStdin = 0 ∧ s₀.Fresh g₁ ∧
    (s₀.createIdle g₁).Fresh g₂ ∧ s = s₀.initScheduler g₁ g₂

/-- From `s`, the event calls `load_context`: the tick only when its own call of `next_task` has
found another task. -/
def LoadsContext (s : Sched) : Event → Prop
  | .enqueue _ _ _ => False
  | .tick _ => ∃ n t, nextTask n s.wakeIdleIfAlone = some t ∧ t ≠ s.currentTask
  | .await _ => True
  | .wake => False
  | .exit => True
  | .reap => True

/-- The event leads from `s` to `s'` and its `load_context` dispatches `t`. -/
def Dispatches (s : Sched) (e : Event) (s' : Sched) (t : Word) : Prop :=
  s.LoadsContext e ∧ s'.currentTask = t

/-- `CallsNextTask s e c`: from `s`, the event `e` calls `next_task` in the state `c`. -/
inductive CallsNextTask : Sched → Event → Sched → Prop
  | tick {s : Sched} (f : StateFrame) : CallsNextTask s (.tick f) s.wakeIdleIfAlone
  | tickLoad {s : Sched} (f : StateFrame) {n : ℕ} {t : Word}
      (h : nextTask n s.wakeIdleIfAlone = some t)
      (hne : t ≠ s.currentTask) :
      CallsNextTask s (.tick f) (s.wakeIdleIfAlone.tickSuspend.saveContext (some f))
  | await {s : Sched} (f : StateFrame) :
      CallsNextTask s (.await f) (s.awaitPrepare.saveContext (some (awaitFrame f)))
  | exit {s s' : Sched} {n : ℕ} (h : s.exitPrepare n = some s') : CallsNextTask s .exit s'
  | reap {s s' : Sched} {n : ℕ} (h : drainDeadQueue n s = some s') :
      CallsNextTask s .reap s'.sleepReaperTask

end Sched

end AlphaOS
