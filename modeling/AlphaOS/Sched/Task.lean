import Mathlib.Logic.Function.Basic
import AlphaOS.Lib.Lseg
import Mathlib.Algebra.Group.Nat.Defs

set_option relaxedAutoImplicit false
set_option autoImplicit false

/-!
# Tasks and the scheduler's data

The data of `kernel/include/scheduler.h` and the static variables of
`kernel/scheduler/scheduler.c`: the saved CPU state, the task block, and the scheduler's
pointers into the task blocks. Pointers are 32-bit words and `NULL` is `0`.

## Main definitions

* `AlphaOS.CpuTaskState` — `struct cpu_task_state`, the frame the interrupt stubs lay out and
  the saved context of a task.
* `AlphaOS.Task` — `struct task`.
* `AlphaOS.Sched` — the scheduler's variables with the task and file blocks they point to, the
  `tss.esp0` and `cr3` registers it loads, and the blocks and address spaces it holds.

## Design

The task blocks are one function from addresses to blocks: a pointer that is not a live block
reads whatever the memory holds. The allocators `kmalloc`, `kfree`, `mmap_ring3` and
`unmmap_ring3` are seen from outside: `heap` lists the blocks obtained and not yet given back,
`spaces` the page directories, and a creation is handed its blocks by a `Grant`.
-/

namespace AlphaOS

/-- A 32-bit machine word, also the type of addresses. -/
abbrev Word := BitVec 32

/-- `PAGE_SIZE`. -/
def pageSize : ℕ := 4096

/-- `KERNEL_CS`. -/
def kernelCs : Word := 0x08#32

/-- `KERNEL_DS`. -/
def kernelDs : Word := 0x10#32

/-- `USER_CS`. -/
def userCs : Word := 0x23#32

/-- `USER_DS`. -/
def userDs : Word := 0x1B#32

/-- `USER_CODE`. -/
def userCode : Word := 0x00001000#32

/-- `USER_STACK`. -/
def userStack : Word := 0x00002000#32

/-- `RONLY_FLAG`. -/
def ronlyFlag : Word := 1#32

/-- `WONLY_FLAG`. -/
def wonlyFlag : Word := 0#32

/-- `struct cpu_task_state`, fourteen words from offset `0`. -/
structure CpuTaskState where
  ds : Word
  edi : Word
  esi : Word
  ebp : Word
  esp : Word
  ebx : Word
  edx : Word
  ecx : Word
  eax : Word
  eip : Word
  cs : Word
  eflags : Word
  useresp : Word
  userss : Word
deriving DecidableEq, Repr, Inhabited

/-- A `cpu_task_state_t *` with what it points to: the address is needed because a ring-0
context keeps `&state->useresp` as its stack pointer. -/
structure StateFrame where
  addr : Word
  regs : CpuTaskState
deriving DecidableEq, Repr, Inhabited

/-- `enum task_status`. -/
inductive TaskStatus
  | schedulerIdle
  | ready
  | running
  | sleep
deriving DecidableEq, Repr, Inhabited

/-- `enum task_type`. -/
inductive TaskType
  | ring0
  | ring3
deriving DecidableEq, Repr, Inhabited

/-- `struct task`. The `uint64_t` pid is a number below `2^64`; `fds` is the array of file
pointers. -/
structure Task where
  pid : ℕ
  context : CpuTaskState
  cr3 : Word
  fds : ℕ → Word
  totalFds : ℕ
  ring0StackBase : Word
  ring0StackSize : ℕ
  ring3StackBase : Word
  ring3StackSize : ℕ
  entry : Word
  status : TaskStatus
  type : TaskType
  next : Word
deriving Inhabited

/-- The fields of `struct file` and of the `struct vnode` it is opened from. -/
structure File where
  name : Word
  ops : Word
  flags : Word
deriving DecidableEq, Repr, Inhabited

/-- Addresses fixed by the linker and by the file system's initialization. -/
structure Layout where
  /-- The physical address of `kernel_page_directory`. -/
  kernelPageDirectory : Word
  taskTrampoline : Word
  idleTaskLoop : Word
  reaperTaskLoop : Word
  /-- `name` and `ops` of `global_tty`. -/
  ttyName : Word
  ttyOps : Word
deriving DecidableEq, Repr, Inhabited

/-- The scheduler's state. -/
structure Sched where
  /-- The task blocks. -/
  task : Word → Task
  /-- The file blocks. -/
  file : Word → File
  currentTask : Word
  idleTask : Word
  reaperTask : Word
  deadQueue : Word
  awaitingStdin : Word
  /-- `task_total`, a `uint64_t`. -/
  taskTotal : ℕ
  /-- `next_pid`, a `uint64_t`. -/
  nextPid : ℕ
  /-- `tss.esp0`. -/
  esp0 : Word
  /-- The loaded `cr3`. -/
  cr3 : Word
  /-- `ticks` of the timer, a `uint64_t`. -/
  ticks : ℕ
  /-- `quantum_tick` of the timer, a `uint8_t`. -/
  quantumTick : ℕ
  layout : Layout
  /-- The blocks obtained from `kmalloc` and not yet passed to `kfree`. -/
  heap : List Word
  /-- The directories obtained from `mmap_ring3` and not yet passed to `unmmap_ring3`. -/
  spaces : List Word
deriving Inhabited

namespace Sched

/-- The `next` field of the task at `t`. -/
def next (s : Sched) (t : Word) : Word := (s.task t).next

/-- The `status` field of the task at `t`. -/
def status (s : Sched) (t : Word) : TaskStatus := (s.task t).status

/-- The `pid` field of the task at `t`. -/
def pid (s : Sched) (t : Word) : ℕ := (s.task t).pid

/-- The saved context of the task at `t`. -/
def context (s : Sched) (t : Word) : CpuTaskState := (s.task t).context

/-- The blocks `create_task` obtained from `kmalloc` for the task at `t`: the task block, its
open files and its ring-0 stack. -/
def blocks (s : Sched) (t : Word) : List Word :=
  t :: (List.range (s.task t).totalFds).map (s.task t).fds ++ [(s.task t).ring0StackBase]

/-- The page directory `create_task` obtained from `mmap_ring3` for the task at `t`, if it is a
ring-3 task. -/
def directory (s : Sched) (t : Word) : List Word :=
  match (s.task t).type with
  | .ring0 => []
  | .ring3 => [(s.task t).cr3]

/-- Rewrite the task block at `t`. -/
def modify (s : Sched) (t : Word) (f : Task → Task) : Sched :=
  { s with task := Function.update s.task t (f (s.task t)) }

/-- `t->status = st`. -/
def setStatus (s : Sched) (t : Word) (st : TaskStatus) : Sched :=
  s.modify t fun k => { k with status := st }

/-- `t->next = v`. -/
def setNext (s : Sched) (t v : Word) : Sched := s.modify t fun k => { k with next := v }

/-- `t->context = c`. -/
def setContext (s : Sched) (t : Word) (c : CpuTaskState) : Sched :=
  s.modify t fun k => { k with context := c }

section Lemmas

variable (s : Sched) (t v : Word) (st : TaskStatus) (c : CpuTaskState)

/-- A field that a rewrite of one block keeps is kept in every block. -/
lemma task_modify_proj {β : Type*} (g : Task → β) {f : Task → Task} (h : ∀ k, g (f k) = g k)
    (u : Word) : g ((s.modify t f).task u) = g (s.task u) := by
  by_cases hu : u = t
  · subst hu; simp [modify, h]
  · simp [modify, hu]

/-- A field that a rewrite sets to a fixed value is updated at that block only. -/
lemma task_modify_set {β : Type*} (g : Task → β) {f : Task → Task} {b : β}
    (h : ∀ k, g (f k) = b) :
    (fun u => g ((s.modify t f).task u)) = Function.update (fun u => g (s.task u)) t b := by
  funext u
  by_cases hu : u = t
  · subst hu; simp [modify, h]
  · simp [modify, hu]

/-- Rewrites of two blocks by commuting functions commute. -/
lemma modify_comm (u : Word) {f g : Task → Task} (h : ∀ k, f (g k) = g (f k)) :
    (s.modify t f).modify u g = (s.modify u g).modify t f := by
  by_cases hu : u = t
  · subst hu
    simp [modify, h]
  · simp [modify, hu, Ne.symm hu, Function.update_comm hu]

/-- Setting a link and setting a status commute. -/
lemma setNext_setStatus (u : Word) :
    (s.setStatus u st).setNext t v = (s.setNext t v).setStatus u st :=
  s.modify_comm u t fun _ => rfl

/-- Writing a status does not switch tasks. -/
@[simp] lemma currentTask_setStatus : (s.setStatus t st).currentTask = s.currentTask := rfl

/-- Writing a link does not switch tasks. -/
@[simp] lemma currentTask_setNext : (s.setNext t v).currentTask = s.currentTask := rfl

/-- Writing a status changes no link. -/
@[simp] lemma next_setStatus : (s.setStatus t st).next = s.next :=
  funext (s.task_modify_proj t Task.next fun _ => rfl)

/-- Writing a context changes no link. -/
@[simp] lemma next_setContext : (s.setContext t c).next = s.next :=
  funext (s.task_modify_proj t Task.next fun _ => rfl)

/-- The link that is written. -/
@[simp] lemma next_setNext : (s.setNext t v).next = Function.update s.next t v :=
  s.task_modify_set t Task.next fun _ => rfl

/-- The status that is written. -/
@[simp] lemma status_setStatus : (s.setStatus t st).status = Function.update s.status t st :=
  s.task_modify_set t Task.status fun _ => rfl

/-- Writing a link changes no status. -/
@[simp] lemma status_setNext : (s.setNext t v).status = s.status :=
  funext (s.task_modify_proj t Task.status fun _ => rfl)

/-- Writing a context changes no status. -/
@[simp] lemma status_setContext : (s.setContext t c).status = s.status :=
  funext (s.task_modify_proj t Task.status fun _ => rfl)

/-- Writing a status changes no pid. -/
@[simp] lemma pid_setStatus : (s.setStatus t st).pid = s.pid :=
  funext (s.task_modify_proj t Task.pid fun _ => rfl)

/-- Writing a link changes no pid. -/
@[simp] lemma pid_setNext : (s.setNext t v).pid = s.pid :=
  funext (s.task_modify_proj t Task.pid fun _ => rfl)

/-- Writing a context changes no pid. -/
@[simp] lemma pid_setContext : (s.setContext t c).pid = s.pid :=
  funext (s.task_modify_proj t Task.pid fun _ => rfl)

/-- Rewrites that keep `fds`, `total_fds` and the ring-0 stack keep the blocks of every task. -/
lemma blocks_modify {f : Task → Task}
    (h : ∀ k, ((f k).totalFds, (f k).fds, (f k).ring0StackBase) =
      (k.totalFds, k.fds, k.ring0StackBase)) : (s.modify t f).blocks = s.blocks := by
  funext u
  have hu := s.task_modify_proj t (fun k => (k.totalFds, k.fds, k.ring0StackBase)) h u
  simp only [Prod.mk.injEq] at hu
  simp only [blocks, hu]

/-- Writing a status changes no blocks. -/
@[simp] lemma blocks_setStatus : (s.setStatus t st).blocks = s.blocks :=
  s.blocks_modify t fun _ => rfl

/-- Writing a link changes no blocks. -/
@[simp] lemma blocks_setNext : (s.setNext t v).blocks = s.blocks :=
  s.blocks_modify t fun _ => rfl

/-- Writing a context changes no blocks. -/
@[simp] lemma blocks_setContext : (s.setContext t c).blocks = s.blocks :=
  s.blocks_modify t fun _ => rfl

end Lemmas

end Sched

end AlphaOS
