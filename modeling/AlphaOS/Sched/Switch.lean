import AlphaOS.Lib.X86
import AlphaOS.Sched.Progress

set_option relaxedAutoImplicit false
set_option autoImplicit false

/-!
# Switching contexts

From the interruption of a task by the timer to its resumption: `irq0_stub` lays out a frame on
the ring-0 stack, `load_context` copies it into the task block, other tasks run, and
`restore_task_context` rebuilds an `iret` frame from the copy. That frame holds the wrong stack
pointer: `pushl %esp` runs after `%ss` has been pushed, so it stores the task's stack pointer less
four, and an `iret` that does not change the privilege level pops three of the five words.

## Main definitions

* `AlphaOS.irq0Stub`, `AlphaOS.restoreTaskContext` — the assembly routines.
* `AlphaOS.timerFrame` — the frame `irq0_stub` passes to `timer_interrupt_handler`.
* `AlphaOS.Resumes` — a task interrupted in one machine state is about to be resumed in another,
  after any run of the scheduler.

## Main results

* `AlphaOS.Sched.Step.context` — the context of a suspended task is left alone by every event.
* `AlphaOS.Resumes.saves` — at the resumption the task block holds every register of the
  interruption, the stack pointer included.
* `AlphaOS.iret_restoreTaskContext` — what the task is resumed with.
* `AlphaOS.resume_not_transparent` — no resumption gives the stack pointer back.
-/

namespace AlphaOS

open X86

/-! ## The context of a suspended task -/

namespace Sched

variable {s s' : Sched} {l d : List Word} {t : Word} {n : ℕ} {e : Event}

/-- Writing a status changes no context. -/
@[simp] lemma context_setStatus (s : Sched) (u : Word) (st : TaskStatus) :
    (s.setStatus u st).context = s.context :=
  funext (s.task_modify_proj u Task.context fun _ => rfl)

/-- Writing a link changes no context. -/
@[simp] lemma context_setNext (s : Sched) (u v : Word) : (s.setNext u v).context = s.context :=
  funext (s.task_modify_proj u Task.context fun _ => rfl)

/-- The context that is written. -/
@[simp] lemma context_setContext (s : Sched) (u : Word) (c : CpuTaskState) :
    (s.setContext u c).context = Function.update s.context u c :=
  s.task_modify_set u Task.context fun _ => rfl

/-- Dispatching a task changes no context. -/
@[simp] lemma context_dispatch (s : Sched) (u : Word) : (s.dispatch u).context = s.context := by
  change (s.markRunning u).context = s.context
  unfold markRunning
  split_ifs <;> simp

/-- Waking the idle task changes no context. -/
@[simp] lemma context_wakeIdleIfAlone (s : Sched) : s.wakeIdleIfAlone.context = s.context := by
  unfold wakeIdleIfAlone wakeIdleTask
  split_ifs <;> simp

/-- The tick changes no context before it switches. -/
@[simp] lemma context_tickSuspend (s : Sched) : s.tickSuspend.context = s.context := by
  unfold tickSuspend
  split_ifs <;> simp

/-- Waiting for input changes no context before it switches. -/
@[simp] lemma context_awaitPrepare (s : Sched) : s.awaitPrepare.context = s.context := by
  unfold awaitPrepare wakeIdleTask
  split_ifs
  · change ((s.setStatus s.currentTask .sleep).setStatus _ .schedulerIdle).context = _
    simp
  · exact context_setStatus _ _ _

/-- Saving a context touches the current task only. -/
lemma context_saveContext_of_ne (f : Option StateFrame) (h : t ≠ s.currentTask) :
    (s.saveContext f).context t = s.context t := by
  cases f with
  | none => rfl
  | some f => simp [saveContext, h]

/-- `load_context` touches the context of the current task only. -/
lemma context_loadContext {f : Option StateFrame} (hs : s.loadContext n f = some s')
    (h : t ≠ s.currentTask) : s'.context t = s.context t := by
  obtain ⟨u, -, rfl⟩ := Option.map_eq_some_iff.mp hs
  rw [context_dispatch, context_saveContext_of_ne f h]

/-- Appending to the dead queue leaves every context alone. -/
lemma context_pushDeadQueue {u : Word} (hs : s.pushDeadQueue n u = some s') :
    s'.context = s.context := by
  unfold pushDeadQueue at hs
  split_ifs at hs
  · rw [← Option.some.inj hs]
    exact context_setNext _ _ _
  · obtain ⟨last, -, rfl⟩ := Option.map_eq_some_iff.mp hs
    rw [context_setNext, context_setNext]

/-- `task_exit` leaves every context alone before its `load_context`. -/
lemma context_exitPrepare (hs : s.exitPrepare n = some s') : s'.context = s.context := by
  obtain ⟨p, -, rfl⟩ := Option.map_eq_some_iff.mp hs
  rw [context_setNext, context_wakeIdleIfAlone]
  rfl

/-- `task_exit` leaves the current task in place until its `load_context`. -/
lemma currentTask_exitPrepare (hs : s.exitPrepare n = some s') :
    s'.currentTask = s.currentTask := by
  obtain ⟨p, -, rfl⟩ := Option.map_eq_some_iff.mp hs
  rw [currentTask_setNext, currentTask_wakeIdleIfAlone]
  rfl

/-- **Every event leaves the context of a suspended task alone.** -/
theorem Step.context (hwf : Wf s l d) (hs : s.Step e s') (ht : t ∈ l) :
    s'.context t = s.context t := by
  have hne : t ≠ s.currentTask := fun he => (List.nodup_cons.mp hwf.ring.1).1 (he ▸ ht)
  obtain ⟨hen, n, hs⟩ := hs
  cases e with
  | enqueue g entry type =>
    obtain ⟨p, -, rfl⟩ := Option.map_eq_some_iff.mp hs
    have hnew : t ≠ g.task := by
      rintro rfl
      exact hwf.core.fresh_notMem hen (List.mem_append_left _ (List.mem_cons_of_mem _ ht))
    have hctx : ((s.createTask g entry type).linkNew p g.task).context =
        (s.createTask g entry type).context := by
      unfold linkNew sleepIdleTask
      rw [context_setStatus]
      exact (context_setNext _ _ _).trans (context_setNext _ _ _)
    rw [hctx]
    simp [Sched.context, createTask, hnew]
  | tick f =>
    simp only [exec, schedulerTick, Option.bind_eq_bind, Option.bind_eq_some_iff] at hs
    obtain ⟨u, -, hs⟩ := hs
    split_ifs at hs
    · obtain rfl : s.wakeIdleIfAlone = s' := by simpa using hs
      simp
    · rw [context_loadContext hs (by simpa using hne)]
      simp
  | await f =>
    rw [context_loadContext hs (by simpa using hne), context_awaitPrepare]
  | wake =>
    obtain rfl : s.wakeStdinTask = s' := by simpa [exec] using hs
    unfold wakeStdinTask
    split_ifs
    · exact congrFun (context_setStatus _ _ _) t
    · rfl
  | exit =>
    simp only [exec, taskExit, Option.bind_eq_bind, Option.bind_eq_some_iff] at hs
    obtain ⟨s₁, h₁, s₂, h₂, s₃, h₃, hs⟩ := hs
    obtain rfl : s₃.wakeReaperTask = s' := by simpa using hs
    rw [wakeReaperTask, context_setStatus, context_pushDeadQueue h₃, context_loadContext h₂ ?_,
      context_exitPrepare h₁]
    rwa [currentTask_exitPrepare h₁]
  | reap =>
    simp only [exec, reaperTaskLoop, Option.bind_eq_bind, Option.bind_eq_some_iff] at hs
    obtain ⟨s₁, h₁, hs⟩ := hs
    obtain ⟨-, rfl⟩ := hwf.drainDeadQueue h₁
    rw [context_loadContext hs (by exact hne)]
    exact congrFun (context_setStatus _ _ _) t

end Sched

/-! ## The assembly routines -/

/-- `irq0_stub` up to its call of `timer_interrupt_handler`. -/
def irq0Stub : List Instr :=
  [.pusha,
    .xorSelf .eax, .movFromSeg .ds .eax, .pushReg .eax,
    .pushReg .esp]

/-- `restore_task_context` up to its `iret`. -/
def restoreTaskContext : List Instr :=
  [.movLoad 4#32 .esp .eax, .movLoad 16#32 .eax .esp,
    .movwLoad 0#32 .eax .ecx, .movToSeg .ecx .ds, .movToSeg .ecx .es, .movToSeg .ecx .fs,
    .movToSeg .ecx .gs,
    .pushLoad 0#32 .eax, .pushReg .esp, .pushLoad 44#32 .eax, .pushLoad 40#32 .eax,
    .pushLoad 36#32 .eax,
    .movLoad 4#32 .eax .edi, .movLoad 8#32 .eax .esi, .movLoad 12#32 .eax .ebp,
    .movLoad 20#32 .eax .ebx, .movLoad 24#32 .eax .edx, .movLoad 28#32 .eax .ecx,
    .movLoad 32#32 .eax .eax]

/-- The `cpu_task_state_t` at an address. -/
def readState (m : Memory) (a : Word) : CpuTaskState where
  ds := load32 m a
  edi := load32 m (a + 4#32)
  esi := load32 m (a + 8#32)
  ebp := load32 m (a + 12#32)
  esp := load32 m (a + 16#32)
  ebx := load32 m (a + 20#32)
  edx := load32 m (a + 24#32)
  ecx := load32 m (a + 28#32)
  eax := load32 m (a + 32#32)
  eip := load32 m (a + 36#32)
  cs := load32 m (a + 40#32)
  eflags := load32 m (a + 44#32)
  useresp := load32 m (a + 48#32)
  userss := load32 m (a + 52#32)

/-- The timer interrupt, up to the call of `timer_interrupt_handler`: `esp0` is `tss.esp0`, and
`irq0` the address of `irq0_stub`. -/
def timerInterrupt (m : Machine) (esp0 irq0 : Word) : Machine :=
  run (interrupt m esp0 0x10#16 0x08#16 irq0) irq0Stub

/-- The argument `irq0_stub` passes to `timer_interrupt_handler`, with what it points to. -/
def timerFrame (m : Machine) (esp0 irq0 : Word) : StateFrame where
  addr := load32 (timerInterrupt m esp0 irq0).mem ((timerInterrupt m esp0 irq0).reg .esp)
  regs := readState (timerInterrupt m esp0 irq0).mem
    (load32 (timerInterrupt m esp0 irq0).mem ((timerInterrupt m esp0 irq0).reg .esp))

/-- The words on the ring-0 stack below the frame of the interrupted code: what the processor
pushes, what `pusha` pushes, and `%ds`. `top` is the stack pointer `pusha` saves. -/
def pushedWords (m : Machine) (top : Word) : List Word :=
  [m.eflags, (m.seg .cs).setWidth 32, m.eip, m.reg .eax, m.reg .ecx, m.reg .edx, m.reg .ebx, top,
    m.reg .ebp, m.reg .esi, m.reg .edi, (m.seg .ds).setWidth 32]

/-- The instructions that `irq0_stub` and `syscall_stub` begin with. -/
def saveRegisters : List Instr := [.pusha, .xorSelf .eax, .movFromSeg .ds .eax, .pushReg .eax]

/-- An interrupt whose handler begins so pushes the interrupted state. -/
lemma run_saveRegisters (m : Machine) (esp0 handler : Word) :
    ∃ top, (run (interrupt m esp0 0x10#16 0x08#16 handler) saveRegisters).mem =
        ((enterStack m esp0 0x10#16).pushAll (pushedWords m top)).mem ∧
      (run (interrupt m esp0 0x10#16 0x08#16 handler) saveRegisters).reg .esp =
        (enterStack m esp0 0x10#16).reg .esp - 48#32 ∧
      (run (interrupt m esp0 0x10#16 0x08#16 handler) saveRegisters).reg .eax =
        (m.seg .ds).setWidth 32 ∧
      ∀ r, r ≠ .ss → r ≠ .cs →
        (run (interrupt m esp0 0x10#16 0x08#16 handler) saveRegisters).seg r = m.seg r := by
  obtain ⟨hImem, hIesp, hIreg, hIseg⟩ := interrupt_fields m esp0 0x10#16 0x08#16 handler
  set base := enterStack m esp0 0x10#16
  set I := interrupt m esp0 0x10#16 0x08#16 handler with hI
  -- `pusha`
  set P := I.pushAll [m.reg .eax, m.reg .ecx, m.reg .edx, m.reg .ebx, I.reg .esp, m.reg .ebp,
      m.reg .esi, m.reg .edi] with hP
  have hpusha : exec I .pusha = P := by
    simp only [exec, hP, hIreg .eax (by decide), hIreg .ecx (by decide), hIreg .edx (by decide),
      hIreg .ebx (by decide), hIreg .ebp (by decide), hIreg .esi (by decide),
      hIreg .edi (by decide)]
  have hPesp : P.reg .esp = base.reg .esp - 44#32 := by
    rw [hP, Machine.reg_pushAll, Function.update_self, hIesp]
    simp only [List.length_cons, List.length_nil]
    bv_omega
  have hPseg : ∀ r, r ≠ .ss → r ≠ .cs → P.seg r = m.seg r := by
    intro r h₁ h₂
    rw [hP, (Machine.fields_pushAll _ _).1]
    exact hIseg r h₁ h₂
  -- `%ds` in `%eax`
  set X := exec (exec P (.xorSelf .eax)) (.movFromSeg .ds .eax) with hX
  have hXeax : X.reg .eax = (m.seg .ds).setWidth 32 := by
    rw [← zero_append, ← hPseg .ds (by decide) (by decide)]
    simp [hX, exec, Machine.setLow, Machine.setReg]
  have hXesp : X.reg .esp = base.reg .esp - 44#32 := by
    rw [← hPesp]
    simp [hX, exec, Machine.setLow, Machine.setReg]
  have hrun : run I saveRegisters = X.pushAll [(m.seg .ds).setWidth 32] := by
    rw [← hXeax, hX, ← hpusha]
    rfl
  rw [hrun]
  refine ⟨I.reg .esp, ?_, ?_, ?_, ?_⟩
  · have hpush : (X.pushAll [(m.seg .ds).setWidth 32]).mem =
        (P.pushAll [(m.seg .ds).setWidth 32]).mem :=
      Machine.mem_pushAll_congr _ (hXesp.trans hPesp.symm) rfl
    have hint : ∀ vs, (I.pushAll vs).mem =
        ((base.pushAll [m.eflags, (m.seg .cs).setWidth 32, m.eip]).pushAll vs).mem := by
      refine fun vs => Machine.mem_pushAll_congr vs ?_ hImem
      rw [hIesp, Machine.reg_pushAll, Function.update_self]
      rfl
    rw [hpush, hP, Machine.pushAll_append, hint, Machine.pushAll_append]
    rfl
  · rw [Machine.reg_pushAll, Function.update_self, hXesp]
    simp only [List.length_cons, List.length_nil]
    bv_omega
  · rw [Machine.reg_pushAll, Function.update_of_ne (by decide), hXeax]
  · intro r h₁ h₂
    rw [(Machine.fields_pushAll _ _).1]
    exact hPseg r h₁ h₂

/-- The frame `f` is what an interruption of `m` has left on the ring-0 stack, perhaps with a few
words pushed after it. -/
structure FrameOf (m : Machine) (esp0 : Word) (f : StateFrame) : Prop where
  addr : f.addr = (enterStack m esp0 0x10#16).reg .esp - 48#32
  regs : ∃ top rest, rest.length ≤ 4 ∧ f.regs = readState ((enterStack m esp0 0x10#16).pushAll
    (pushedWords m top ++ rest)).mem f.addr

/-- **`irq0_stub` passes the frame of the interruption.** -/
lemma frameOf_timerFrame (m : Machine) (esp0 irq0 : Word) :
    FrameOf m esp0 (timerFrame m esp0 irq0) := by
  obtain ⟨top, hmem, hesp, -, -⟩ := run_saveRegisters m esp0 irq0
  set E := run (interrupt m esp0 0x10#16 0x08#16 irq0) saveRegisters
  set base := enterStack m esp0 0x10#16
  have hrun : timerInterrupt m esp0 irq0 = E.pushAll [E.reg .esp] := rfl
  have hpush : (timerInterrupt m esp0 irq0).mem =
      (base.pushAll (pushedWords m top ++ [E.reg .esp])).mem := by
    rw [hrun, ← Machine.pushAll_append]
    refine Machine.mem_pushAll_congr _ ?_ hmem
    rw [hesp, Machine.reg_pushAll, Function.update_self]
    rfl
  have haddr : (timerFrame m esp0 irq0).addr = base.reg .esp - 48#32 := by
    change load32 (timerInterrupt m esp0 irq0).mem ((timerInterrupt m esp0 irq0).reg .esp) = _
    rw [hrun, ← hesp]
    refine Machine.load32_pushAll (i := 0) rfl ?_ (by simp)
    rw [Machine.reg_pushAll, Function.update_self]
    simp only [List.length_cons, List.length_nil]
    bv_omega
  refine ⟨haddr, top, [E.reg .esp], by simp, ?_⟩
  rw [← hpush]
  rfl

/-- A saved context holds the registers of an interrupted machine. -/
structure Saves (m : Machine) (c : CpuTaskState) : Prop where
  ds : c.ds = (m.seg .ds).setWidth 32
  edi : c.edi = m.reg .edi
  esi : c.esi = m.reg .esi
  ebp : c.ebp = m.reg .ebp
  esp : c.esp = m.reg .esp
  ebx : c.ebx = m.reg .ebx
  edx : c.edx = m.reg .edx
  ecx : c.ecx = m.reg .ecx
  eax : c.eax = m.reg .eax
  eip : c.eip = m.eip
  cs : c.cs = (m.seg .cs).setWidth 32
  eflags : c.eflags = m.eflags

/-- The machine runs code of a task: in ring 3 or in ring 0. -/
def InTask (m : Machine) : Prop := m.seg .cs = 0x23#16 ∨ m.seg .cs = 0x08#16

/-- A word of the frame is a word that was pushed. -/
lemma load32_frame {m base : Machine} {top : Word} {rest : List Word} (hrest : rest.length ≤ 4)
    {i : ℕ} {a w : Word} (hw : (pushedWords m top)[i]? = some w)
    (ha : a + BitVec.ofNat 32 (4 * (i + 1)) = base.reg .esp) :
    load32 (base.pushAll (pushedWords m top ++ rest)).mem a = w := by
  refine Machine.load32_pushAll ?_ ha ?_
  · obtain ⟨hi, -⟩ := List.getElem?_eq_some_iff.mp hw
    rw [List.getElem?_append_left hi]
    exact hw
  · rw [List.length_append]
    simp only [pushedWords, List.length_cons, List.length_nil]
    omega

/-- A context changed in its stack pointer only keeps the other registers of the machine. -/
lemma FrameOf.saves_of_esp {m : Machine} {esp0 : Word} {f : StateFrame} (h : FrameOf m esp0 f) :
    Saves m { f.regs with esp := m.reg .esp } := by
  obtain ⟨haddr, top, rest, hrest, hregs⟩ := h
  -- word `11 - i` of the frame is the `i`-th word pushed
  have h (i : ℕ) (k w : Word) (hw : (pushedWords m top)[i]? = some w)
      (hk : k + BitVec.ofNat 32 (4 * (i + 1)) = 48#32) :
      load32 ((enterStack m esp0 0x10#16).pushAll (pushedWords m top ++ rest)).mem
        (f.addr + k) = w := by
    refine load32_frame hrest hw ?_
    rw [haddr, BitVec.add_assoc, hk]
    bv_omega
  have h0 := h 11 0#32 _ rfl rfl
  rw [BitVec.add_zero] at h0
  rw [hregs]
  exact ⟨h0, h 10 4#32 _ rfl rfl, h 9 8#32 _ rfl rfl, h 8 12#32 _ rfl rfl, rfl,
    h 6 20#32 _ rfl rfl, h 5 24#32 _ rfl rfl, h 4 28#32 _ rfl rfl, h 3 32#32 _ rfl rfl,
    h 2 36#32 _ rfl rfl, h 1 40#32 _ rfl rfl, h 0 44#32 _ rfl rfl⟩

/-- In ring 3 the word above the frame is the user's stack pointer. -/
lemma FrameOf.useresp {m : Machine} {esp0 : Word} {f : StateFrame} (h : FrameOf m esp0 f)
    (hm : m.cpl ≠ 0#2) : f.regs.useresp = m.reg .esp := by
  obtain ⟨haddr, top, rest, hrest, hregs⟩ := h
  have hbase : enterStack m esp0 0x10#16 = ((m.setReg .esp esp0).setSeg .ss 0x10#16).pushAll
      [(m.seg .ss).setWidth 32, m.reg .esp] := if_neg hm
  have hesp : (enterStack m esp0 0x10#16).reg .esp = esp0 - 8#32 := by
    rw [hbase, Machine.reg_pushAll, Function.update_self]
    simp [Machine.setReg, Machine.setSeg]
  rw [hregs]
  change load32 _ (f.addr + 48#32) = _
  rw [haddr, hesp, hbase, Machine.pushAll_append]
  refine Machine.load32_pushAll (i := 1) rfl ?_ ?_
  · simp only [Machine.setReg, Machine.setSeg, Function.update_self]
    bv_omega
  · simp only [pushedWords, List.length_append, List.length_cons, List.length_nil]
    omega

/-- **What `load_context` saves of an interrupted task is its registers**, in either ring. -/
lemma FrameOf.saves {m : Machine} {esp0 : Word} {f : StateFrame} (h : FrameOf m esp0 f)
    (hm : InTask m) :
    Saves m (Sched.savedContext f) := by
  have hcs : f.regs.cs = (m.seg .cs).setWidth 32 := h.saves_of_esp.cs
  unfold Sched.savedContext
  rcases hm with hm | hm
  · have hcpl : m.cpl ≠ 0#2 := by
      rw [Machine.cpl, hm]
      decide
    rw [if_pos (by rw [hcs, hm]; rfl), h.useresp hcpl]
    exact h.saves_of_esp
  · have hcpl : m.cpl = 0#2 := by
      rw [Machine.cpl, hm]
      decide
    have hbase : enterStack m esp0 0x10#16 = m := if_pos hcpl
    have haddr : f.addr + 48#32 = m.reg .esp := by
      rw [h.addr, hbase]
      bv_omega
    rw [if_neg (by rw [hcs, hm]; decide), haddr]
    exact h.saves_of_esp

/-! ## What `restore_task_context` does -/

/-- The context at `a` is out of reach of the five words pushed below the stack pointer `esp`. -/
def ContextApart (a esp : Word) : Prop :=
  ∀ i < 12, ∀ j < 5, Apart (esp - BitVec.ofNat 32 (4 * (j + 1))) (a + BitVec.ofNat 32 (4 * i))

/-- The `iret` frame `restore_task_context` builds for the context `c`. -/
def iretFrame (c : CpuTaskState) : List Word := [c.ds, c.esp - 4#32, c.eflags, c.cs, c.eip]

/-- `restore_task_context` before its first push. -/
def onTaskStack (m : Machine) : Machine := run m (restoreTaskContext.take 7)

/-- What the first instructions of `restore_task_context` load. -/
lemma onTaskStack_fields (m : Machine) {a : Word} (ha : load32 m.mem (m.reg .esp + 4#32) = a) :
    (onTaskStack m).mem = m.mem ∧ (onTaskStack m).reg .eax = a ∧
      (onTaskStack m).reg .esp = load32 m.mem (a + 16#32) ∧ (onTaskStack m).seg .cs = m.seg .cs ∧
      (onTaskStack m).seg .ds = (load32 m.mem a).setWidth 16 := by
  subst ha
  refine ⟨rfl, rfl, rfl, rfl, ?_⟩
  rw [← BitVec.add_zero (load32 m.mem (m.reg .esp + 4#32))]
  exact setWidth_append _ _

/-- The stack of the task, whatever it overlaps: five words are pushed on it, the second of them the
stack pointer less four. -/
lemma restoreTaskContext_mem (m : Machine) :
    ∃ v₀ v₂ v₃ v₄, (run m restoreTaskContext).mem = ((onTaskStack m).pushAll
        [v₀, (onTaskStack m).reg .esp - 4#32, v₂, v₃, v₄]).mem ∧
      (run m restoreTaskContext).reg .esp = (onTaskStack m).reg .esp - 20#32 ∧
      (run m restoreTaskContext).seg = (onTaskStack m).seg := by
  refine ⟨_, _, _, _, rfl, ?_, rfl⟩
  change (onTaskStack m).reg .esp - 4#32 - 4#32 - 4#32 - 4#32 - 4#32 = _
  bv_omega

/-- **The stack pointer a task is resumed with**, whatever its stack overlaps: four or eight below
the saved one, according to the level the `iret` returns to. -/
lemma esp_iret_restoreTaskContext {m : Machine} {a : Word}
    (ha : load32 m.mem (m.reg .esp + 4#32) = a) (hcpl : m.cpl = 0#2) :
    ∃ m', iret (run m restoreTaskContext) = some m' ∧
      (m'.reg .esp = (readState m.mem a).esp - 4#32 ∨
        m'.reg .esp = (readState m.mem a).esp - 8#32) := by
  obtain ⟨v₀, v₂, v₃, v₄, hmem, hesp, hseg⟩ := restoreTaskContext_mem m
  obtain ⟨-, -, hstack, hcs, -⟩ := onTaskStack_fields m ha
  change _ = (readState m.mem a).esp at hstack
  have hcpl' : (run m restoreTaskContext).cpl = 0#2 := by
    rw [Machine.cpl, hseg, hcs]
    exact hcpl
  obtain ⟨m', hret, -, -, -, hesp', -, -⟩ := iret_of_cpl_zero hcpl'
  refine ⟨m', hret, ?_⟩
  rw [hesp', hesp, hmem, ← hstack]
  split_ifs
  · right
    bv_omega
  · left
    exact Machine.load32_pushAll (i := 1) rfl (by bv_omega) (by simp)

/-- Words of the context, read while the frame is being pushed. -/
lemma load32_context {m : Machine} {a : Word} (ha : load32 m.mem (m.reg .esp + 4#32) = a)
    (h : ContextApart a (readState m.mem a).esp) {vs : List Word} (hvs : vs.length ≤ 5) {i : ℕ}
    (hi : i < 12) :
    load32 ((onTaskStack m).pushAll vs).mem (a + BitVec.ofNat 32 (4 * i)) =
      load32 m.mem (a + BitVec.ofNat 32 (4 * i)) := by
  obtain ⟨hmem, -, hesp, -, -⟩ := onTaskStack_fields m ha
  rw [Machine.load32_pushAll_of_apart, hmem]
  intro j hj
  rw [hesp]
  exact h i hi j (by omega)

/-- One push from the context. -/
lemma exec_pushLoad_context {m : Machine} {a : Word}
    (ha : load32 m.mem (m.reg .esp + 4#32) = a) (h : ContextApart a (readState m.mem a).esp)
    {vs : List Word} (hvs : vs.length ≤ 5) {i : ℕ} (hi : i < 12) :
    exec ((onTaskStack m).pushAll vs) (.pushLoad (BitVec.ofNat 32 (4 * i)) .eax) =
      (onTaskStack m).pushAll (vs ++ [load32 m.mem (a + BitVec.ofNat 32 (4 * i))]) := by
  obtain ⟨-, heax, -, -, -⟩ := onTaskStack_fields m ha
  rw [← Machine.pushAll_append, ← load32_context ha h hvs hi, exec, Machine.reg_pushAll,
    Function.update_of_ne (by decide), heax]
  rfl

/-- The five pushes, when the context is out of their reach. -/
lemma run_pushes {m : Machine} {a : Word} (ha : load32 m.mem (m.reg .esp + 4#32) = a)
    (h : ContextApart a (readState m.mem a).esp) :
    run (onTaskStack m) ((restoreTaskContext.drop 7).take 5) =
      (onTaskStack m).pushAll (iretFrame (readState m.mem a)) := by
  have hesp : (onTaskStack m).reg .esp = (readState m.mem a).esp := (onTaskStack_fields m ha).2.2.1
  have hpush (vs : List Word) (hvs : vs.length ≤ 5) {i : ℕ} (hi : i < 12) :=
    exec_pushLoad_context ha h hvs hi
  have h₀ : exec (onTaskStack m) (.pushLoad 0#32 .eax) =
      (onTaskStack m).pushAll [(readState m.mem a).ds] := by
    have := hpush [] (by simp) (i := 0) (by simp)
    rw [Nat.mul_zero, BitVec.add_zero] at this
    exact this
  have h₁ (v : Word) : exec ((onTaskStack m).pushAll [v]) (.pushReg .esp) =
      (onTaskStack m).pushAll [v, (readState m.mem a).esp - 4#32] := by
    rw [← hesp]
    rfl
  have h₂ (v w : Word) : exec ((onTaskStack m).pushAll [v, w]) (.pushLoad 44#32 .eax) =
      (onTaskStack m).pushAll [v, w, (readState m.mem a).eflags] :=
    hpush [v, w] (by simp) (i := 11) (by simp)
  have h₃ (v w x : Word) : exec ((onTaskStack m).pushAll [v, w, x]) (.pushLoad 40#32 .eax) =
      (onTaskStack m).pushAll [v, w, x, (readState m.mem a).cs] :=
    hpush [v, w, x] (by simp) (i := 10) (by simp)
  have h₄ (v w x y : Word) : exec ((onTaskStack m).pushAll [v, w, x, y]) (.pushLoad 36#32 .eax) =
      (onTaskStack m).pushAll [v, w, x, y, (readState m.mem a).eip] :=
    hpush [v, w, x, y] (by simp) (i := 9) (by simp)
  change exec (exec (exec (exec (exec (onTaskStack m) (.pushLoad 0#32 .eax)) (.pushReg .esp))
    (.pushLoad 44#32 .eax)) (.pushLoad 40#32 .eax)) (.pushLoad 36#32 .eax) = _
  rw [h₀, h₁, h₂, h₃, h₄]
  rfl

/-- The registers `restore_task_context` loads after its pushes, and what it leaves of them. -/
lemma regs_restoreTaskContext {m : Machine} {a : Word} {c : CpuTaskState}
    (ha : load32 m.mem (m.reg .esp + 4#32) = a) (hc : readState m.mem a = c)
    (h : ContextApart a c.esp) :
    (run m restoreTaskContext).mem = ((onTaskStack m).pushAll (iretFrame c)).mem ∧
      (run m restoreTaskContext).reg .edi = c.edi ∧ (run m restoreTaskContext).reg .esi = c.esi ∧
      (run m restoreTaskContext).reg .ebp = c.ebp ∧ (run m restoreTaskContext).reg .ebx = c.ebx ∧
      (run m restoreTaskContext).reg .edx = c.edx ∧ (run m restoreTaskContext).reg .ecx = c.ecx ∧
      (run m restoreTaskContext).reg .eax = c.eax := by
  subst hc
  have hrun : run m restoreTaskContext =
      run ((onTaskStack m).pushAll (iretFrame (readState m.mem a)))
        (restoreTaskContext.drop 12) := by
    rw [← run_pushes ha h]
    rfl
  have hword {i : ℕ} (hi : i < 12) :
      load32 ((onTaskStack m).pushAll (iretFrame (readState m.mem a))).mem
        (((onTaskStack m).pushAll (iretFrame (readState m.mem a))).reg .eax +
          BitVec.ofNat 32 (4 * i)) = load32 m.mem (a + BitVec.ofNat 32 (4 * i)) := by
    rw [Machine.reg_pushAll, Function.update_of_ne (by decide), (onTaskStack_fields m ha).2.1]
    exact load32_context ha h (by simp [iretFrame]) hi
  rw [hrun]
  generalize (onTaskStack m).pushAll (iretFrame (readState m.mem a)) = F at hword
  refine ⟨rfl, ?_, ?_, ?_, ?_, ?_, ?_, ?_⟩
  · exact hword (i := 1) (by omega)
  · exact hword (i := 2) (by omega)
  · exact hword (i := 3) (by omega)
  · exact hword (i := 5) (by omega)
  · exact hword (i := 6) (by omega)
  · exact hword (i := 7) (by omega)
  · exact hword (i := 8) (by omega)

/-! ## From the interruption to the resumption -/

/-- What context switching has to give back. -/
structure Agrees (m m' : Machine) : Prop where
  eip : m'.eip = m.eip
  cs : m'.seg .cs = m.seg .cs
  eflags : m'.eflags = m.eflags
  esp : m'.reg .esp = m.reg .esp
  ds : m'.seg .ds = m.seg .ds
  edi : m'.reg .edi = m.reg .edi
  esi : m'.reg .esi = m.reg .esi
  ebp : m'.reg .ebp = m.reg .ebp
  ebx : m'.reg .ebx = m.reg .ebx
  edx : m'.reg .edx = m.reg .edx
  ecx : m'.reg .ecx = m.reg .ecx
  eax : m'.reg .eax = m.reg .eax

/-- A run of the scheduler from `s₁` in which the task at `t` is never running. -/
inductive Away (t : Word) (s₁ : Sched) : Sched → Prop
  | start (h : s₁.currentTask ≠ t) : Away t s₁ s₁
  | next {s s' : Sched} {e : Sched.Event} (h : Away t s₁ s) (hs : s.Step e s')
      (hne : s'.currentTask ≠ t) : Away t s₁ s'

/-- The task running in `s`, interrupted in the machine state `m`, is about to be resumed in the
state `m'`: the timer interrupt took it off the processor, the scheduler ran other tasks, an event
dispatched it again, and `restore_task_context` is entered with the address of its context. -/
structure Resumes (s : Sched) (m m' : Machine) : Prop where
  reach : Transition.Reach Sched.Init Sched.Step (fun _ _ => True) s
  kernel : m'.seg .cs = 0x08#16
  arg : load32 m'.mem (m'.reg .esp + 4#32) = s.currentTask + 8#32
  history : ∃ irq0 s₁ s₂ e s₃, s.Step (.tick (timerFrame m s.esp0 irq0)) s₁ ∧
    Away s.currentTask s₁ s₂ ∧ s₂.Step e s₃ ∧ s₃.currentTask = s.currentTask ∧
    readState m'.mem (s.currentTask + 8#32) = s₃.context s.currentTask

namespace Sched

variable {s s' : Sched} {l d : List Word} {t : Word} {c : CpuTaskState}

/-- The task at `t` is suspended on the ring with the context `c`. -/
def Parked (s : Sched) (t : Word) (c : CpuTaskState) : Prop :=
  ∃ l d, Wf s l d ∧ t ∈ l ∧ s.context t = c

/-- A tick that switches away parks the interrupted task with the frame it was passed. -/
lemma parked_of_tick {f : StateFrame} (hwf : Wf s l d) (hs : s.Step (.tick f) s')
    (hne : s'.currentTask ≠ s.currentTask) : s'.Parked s.currentTask (savedContext f) := by
  obtain ⟨-, n, hs⟩ := hs
  rcases hwf.schedulerTick hs with ⟨-, hcur, -⟩ | ⟨-, l₁, l₂, -, hwf'⟩
  · exact absurd hcur hne
  · refine ⟨_, d, hwf', by simp, ?_⟩
    simp only [exec, schedulerTick, Option.bind_eq_bind, Option.bind_eq_some_iff] at hs
    obtain ⟨u, -, hs⟩ := hs
    split_ifs at hs
    · obtain rfl : s.wakeIdleIfAlone = s' := by simpa using hs
      exact absurd (currentTask_wakeIdleIfAlone s) hne
    · obtain ⟨v, -, rfl⟩ := Option.map_eq_some_iff.mp hs
      simp [saveContext]

/-- While other tasks run, a parked task stays parked with its context. -/
lemma Parked.away {s₁ : Sched} (h : Away t s₁ s) (hp : s₁.Parked t c) : s.Parked t c := by
  induction h with
  | start => exact hp
  | next _ hs hne ih =>
    obtain ⟨l, d, hwf, ht, hc⟩ := ih
    obtain ⟨l', d', hwf', heff⟩ := hwf.step hs
    exact ⟨l', d', hwf', (List.mem_cons.mp (heff.mem ht)).resolve_left hne.symm,
      (Step.context hwf hs ht).trans hc⟩

end Sched

/-- A run in which a task is away starts without it. -/
lemma Away.start_ne {t : Word} {s₁ s₂ : Sched} (h : Away t s₁ s₂) : s₁.currentTask ≠ t := by
  induction h with
  | start h => exact h
  | next _ _ _ ih => exact ih

/-- **At the resumption the task block holds every register of the interruption.** -/
theorem Resumes.saves {s : Sched} {m m' : Machine} (h : Resumes s m m') (hm : InTask m) :
    Saves m (readState m'.mem (s.currentTask + 8#32)) := by
  obtain ⟨irq0, s₁, s₂, e, s₃, htick, haway, hstep, -, hread⟩ := h.history
  obtain ⟨l, d, hwf⟩ := Sched.wf_of_reach h.reach
  obtain ⟨l₂, d₂, hwf₂, ht, hc⟩ :=
    (Sched.parked_of_tick hwf htick haway.start_ne).away haway
  rw [hread, Sched.Step.context hwf₂ hstep ht, hc]
  exact (frameOf_timerFrame m s.esp0 irq0).saves hm

/-- The words of the `iret` frame. -/
lemma load32_iretFrame {m : Machine} {a : Word} {c : CpuTaskState}
    (ha : load32 m.mem (m.reg .esp + 4#32) = a) (hc : readState m.mem a = c)
    (h : ContextApart a c.esp) {i : ℕ} {b w : Word} (hw : (iretFrame c)[i]? = some w)
    (hb : b + BitVec.ofNat 32 (4 * (i + 1)) = c.esp) :
    load32 (run m restoreTaskContext).mem b = w := by
  have hstack : (onTaskStack m).reg .esp = c.esp := by
    subst hc
    exact (onTaskStack_fields m ha).2.2.1
  rw [(regs_restoreTaskContext ha hc h).1]
  exact Machine.load32_pushAll hw (by rw [hb, hstack]) (by simp [iretFrame])

/-- **What `restore_task_context` resumes** from a context that holds the registers of an
interruption and is out of reach of the five words pushed on the task's stack: every register, but
the stack pointer four bytes lower in ring 3 and eight bytes lower in ring 0. -/
theorem registers_of_saves {m m' : Machine} {a : Word}
    (harg : load32 m'.mem (m'.reg .esp + 4#32) = a) (hkernel : m'.seg .cs = 0x08#16)
    (hs : Saves m (readState m'.mem a)) (hm : InTask m) (hapart : ContextApart a (m.reg .esp)) :
    ∃ m'', iret (run m' restoreTaskContext) = some m'' ∧
      m''.reg .esp = (if m.seg .cs = 0x23#16 then m.reg .esp - 4#32 else m.reg .esp - 8#32) ∧
      Agrees { m with reg := Function.update m.reg .esp (m''.reg .esp) } m'' := by
  set c := readState m'.mem a with hc
  rw [← hs.esp] at hapart
  obtain ⟨-, hedi, hesi, hebp, hebx, hedx, hecx, heax⟩ :=
    regs_restoreTaskContext harg hc.symm hapart
  obtain ⟨-, -, -, -, -, hesp, hseg⟩ := restoreTaskContext_mem m'
  obtain ⟨-, -, hstack, hcs, hds⟩ := onTaskStack_fields m' harg
  change _ = c.esp at hstack
  rw [hstack] at hesp
  have hcpl : (run m' restoreTaskContext).cpl = 0#2 := by
    rw [Machine.cpl, hseg, hcs, hkernel]
    rfl
  obtain ⟨m'', hret, heip', hcs', heflags', hesp', hreg', hseg'⟩ := iret_of_cpl_zero hcpl
  have hpop {i : ℕ} {b w : Word} (hw : (iretFrame c)[i]? = some w)
      (hb : b + BitVec.ofNat 32 (4 * (i + 1)) = c.esp) :=
    load32_iretFrame harg hc.symm hapart hw hb
  rw [hesp] at heip' hcs' heflags' hesp'
  rw [hpop (i := 4) rfl (by bv_omega)] at heip'
  rw [hpop (i := 3) rfl (by bv_omega)] at hcs' hesp'
  rw [hpop (i := 2) rfl (by bv_omega)] at heflags'
  rw [hpop (i := 1) rfl (by bv_omega)] at hesp'
  refine ⟨m'', hret, ?_, ?_⟩
  · rw [hesp', hs.cs, hs.esp]
    rcases hm with hm | hm
    · rw [hm, if_neg (by decide), if_pos rfl]
    · rw [hm, if_pos (by decide), if_neg (by decide)]
      bv_omega
  · have hlow (v : BitVec 16) : (v.setWidth 32).setWidth 16 = v := by simp
    refine ⟨?_, ?_, ?_, by simp, ?_, ?_, ?_, ?_, ?_, ?_, ?_, ?_⟩
    · rw [heip', hs.eip]
    · rw [hcs', hs.cs, hlow]
    · rw [heflags', hs.eflags]
    · rw [hseg' .ds (by decide) (by decide), hseg, hds]
      exact (congrArg (BitVec.setWidth 16) hs.ds).trans (hlow _)
    · rw [hreg' .edi (by decide), hedi, hs.edi]; rfl
    · rw [hreg' .esi (by decide), hesi, hs.esi]; rfl
    · rw [hreg' .ebp (by decide), hebp, hs.ebp]; rfl
    · rw [hreg' .ebx (by decide), hebx, hs.ebx]; rfl
    · rw [hreg' .edx (by decide), hedx, hs.edx]; rfl
    · rw [hreg' .ecx (by decide), hecx, hs.ecx]; rfl
    · rw [hreg' .eax (by decide), heax, hs.eax]; rfl

/-- `restore_task_context` loads four segment registers from the saved `%ds`. -/
lemma seg_onTaskStack (m : Machine) {a : Word} (ha : load32 m.mem (m.reg .esp + 4#32) = a) {q : Seg}
    (hq : q = .ds ∨ q = .es ∨ q = .fs ∨ q = .gs) :
    (onTaskStack m).seg q = (load32 m.mem a).setWidth 16 := by
  subst ha
  rw [← BitVec.add_zero (load32 m.mem (m.reg .esp + 4#32))]
  rcases hq with rfl | rfl | rfl | rfl <;> exact setWidth_append _ _

/-- **What the segment registers are resumed with** in ring 3: all of them but `%cs` have what `%ds`
had. -/
theorem segments_of_saves {m m' m'' : Machine} {a : Word}
    (harg : load32 m'.mem (m'.reg .esp + 4#32) = a) (hkernel : m'.seg .cs = 0x08#16)
    (hs : Saves m (readState m'.mem a)) (huser : m.seg .cs = 0x23#16)
    (hapart : ContextApart a (m.reg .esp)) (hret : iret (run m' restoreTaskContext) = some m'')
    (q : Seg) (hq : q ≠ .cs) : m''.seg q = m.seg .ds := by
  rw [← hs.esp] at hapart
  obtain ⟨-, -, -, -, -, hesp, hseg⟩ := restoreTaskContext_mem m'
  obtain ⟨-, -, hstack, hcs, -⟩ := onTaskStack_fields m' harg
  change _ = (readState m'.mem a).esp at hstack
  rw [hstack] at hesp
  have hcpl : (run m' restoreTaskContext).cpl = 0#2 := by
    rw [Machine.cpl, hseg, hcs, hkernel]
    rfl
  have hlow (v : BitVec 16) : (v.setWidth 32).setWidth 16 = v := by simp
  have hds : ((readState m'.mem a).ds).setWidth 16 = m.seg .ds :=
    (congrArg (BitVec.setWidth 16) hs.ds).trans (hlow _)
  by_cases hss : q = .ss
  · have hlevel :=
      load32_iretFrame harg rfl hapart (i := 3) (b := (readState m'.mem a).esp - 20#32 + 4#32)
      rfl (by bv_omega)
    have hword :=
      load32_iretFrame harg rfl hapart (i := 0) (b := (readState m'.mem a).esp - 20#32 + 16#32)
      rfl (by bv_omega)
    rw [hss, ss_of_iret hret ?_, hesp, hword]
    · exact hds
    · rw [hcpl, hesp, hlevel, hs.cs, huser]
      decide
  · obtain ⟨m₁, hret₁, -, -, -, -, -, hseg'⟩ := iret_of_cpl_zero hcpl
    rw [hret₁, Option.some.injEq] at hret
    subst hret
    have hfour : q = .ds ∨ q = .es ∨ q = .fs ∨ q = .gs := by
      cases q <;> simp at hq hss ⊢
    rw [hseg' q hq hss, hseg, seg_onTaskStack m' harg hfour]
    exact hds

/-- **What a task is resumed with**, when its context is out of reach of the five words pushed on
its stack: every register of the interruption, but the stack pointer four bytes lower in ring 3
and eight bytes lower in ring 0. -/
theorem Resumes.registers {s : Sched} {m m' : Machine} (h : Resumes s m m') (hm : InTask m)
    (hapart : ContextApart (s.currentTask + 8#32) (m.reg .esp)) :
    ∃ m'', iret (run m' restoreTaskContext) = some m'' ∧
      m''.reg .esp = (if m.seg .cs = 0x23#16 then m.reg .esp - 4#32 else m.reg .esp - 8#32) ∧
      Agrees { m with reg := Function.update m.reg .esp (m''.reg .esp) } m'' :=
  registers_of_saves h.arg h.kernel (h.saves hm) hm hapart

/-- `k` times in a row, a task is interrupted and resumed before it runs another instruction. -/
inductive Preempted : ℕ → Machine → Machine → Prop
  | zero (m : Machine) : Preempted 0 m m
  | succ {k : ℕ} {m₀ m m' m'' : Machine} {s : Sched} (h : Preempted k m₀ m) (hr : Resumes s m m')
      (hapart : ContextApart (s.currentTask + 8#32) (m.reg .esp))
      (hret : iret (run m' restoreTaskContext) = some m'') : Preempted (k + 1) m₀ m''

/-- **The stack pointer drifts** with every preemption, by four bytes in ring 3 and by eight in
ring 0, and the task stays in its ring. -/
theorem Preempted.esp {k : ℕ} {m m' : Machine} (h : Preempted k m m') (hm : InTask m) :
    m'.seg .cs = m.seg .cs ∧ m'.reg .esp = m.reg .esp -
      BitVec.ofNat 32 (k * if m.seg .cs = 0x23#16 then 4 else 8) := by
  induction h with
  | zero => simp
  | @succ k m₀ m m' m'' s _ hr hapart hret ih =>
    obtain ⟨hcs, hesp⟩ := ih hm
    have hm₁ : InTask m := by
      unfold InTask
      rw [hcs]
      exact hm
    obtain ⟨m₁, hret₁, hesp₁, hagree⟩ := hr.registers hm₁ hapart
    rw [hret₁, Option.some.injEq] at hret
    subst hret
    refine ⟨hagree.cs.trans hcs, ?_⟩
    rw [hesp₁, hesp, hcs, Nat.add_mul, Nat.one_mul, BitVec.ofNat_add]
    generalize BitVec.ofNat 32 (k * if m₀.seg .cs = 0x23#16 then 4 else 8) = w
    split_ifs
    · bv_omega
    · bv_omega

/-- The stack pointer is not given back. -/
lemma Resumes.esp_ne {s : Sched} {m m' : Machine} (h : Resumes s m m') (hm : InTask m) :
    ∃ m'', iret (run m' restoreTaskContext) = some m'' ∧ m''.reg .esp ≠ m.reg .esp := by
  have hcpl : m'.cpl = 0#2 := by
    rw [Machine.cpl, h.kernel]
    rfl
  obtain ⟨m'', hret, hesp⟩ := esp_iret_restoreTaskContext h.arg hcpl
  rw [(h.saves hm).esp] at hesp
  refine ⟨m'', hret, ?_⟩
  rcases hesp with hesp | hesp
  · rw [hesp]
    bv_omega
  · rw [hesp]
    bv_omega

/-- **No context switch is transparent.** Whatever task is interrupted, in either ring, whatever
its registers, and whatever runs before it is resumed, it does not get its stack pointer back.

**Proof sketch.** The frame the stub lays out and the copy in the task block are right
(`Resumes.saves`). `restore_task_context` loads the saved stack pointer, pushes `%ss` and then
`%esp`, which by now is four less: an `iret` to ring 3 pops that value, and an `iret` to ring 0
leaves the two words on the stack. -/
theorem resume_not_transparent {s : Sched} {m m' : Machine} (h : Resumes s m m')
    (hm : InTask m) :
    ¬ ∃ m'', iret (run m' restoreTaskContext) = some m'' ∧ Agrees m m'' := by
  rintro ⟨m'', hret, hagree⟩
  obtain ⟨m₁, hret₁, hne⟩ := h.esp_ne hm
  rw [hret₁, Option.some.injEq] at hret
  exact hne (hret ▸ hagree.esp)

/-! ## A resumed idle task -/

namespace SwitchRun

open Sched

/-- The idle task interrupted in its loop. -/
def interrupted : Machine where
  reg := fun r => if r = .esp then 0x9000#32 else 0#32
  seg := fun _ => 0x08#16
  eip := 0x100000#32
  eflags := 0x202#32
  mem := fun _ => 0#8

/-- The frame of that interruption, in the state with one user task ready. -/
def frame : StateFrame := timerFrame interrupted Hang.s₁.esp0 0#32

/-- The user task is dispatched. -/
def s₂ : Sched := (Hang.s₁.wakeIdleIfAlone.tickSuspend.saveContext (some frame)).dispatch 0x3000#32

/-- The next tick dispatches the idle task again. -/
def s₃ : Sched := (s₂.wakeIdleIfAlone.tickSuspend.saveContext (some default)).dispatch 0x1000#32

/-- The words of a context, the last one first. -/
def words (c : CpuTaskState) : List Word :=
  [c.userss, c.useresp, c.eflags, c.cs, c.eip, c.eax, c.ecx, c.edx, c.ebx, c.esp, c.ebp, c.esi,
    c.edi, c.ds]

/-- The kernel about to resume the idle task: its context at `0x1008`, and that address above the
return address on the stack. -/
def resuming : Machine :=
  (((interrupted.setReg .esp 0x1040#32).pushAll (words (s₃.context 0x1000#32))).setReg .esp
    0x9000#32).pushAll [0x1008#32, 0#32]

/-- The context `c`, pushed below `a + 56`, is in memory after two more words have been pushed at a
distance. -/
lemma readState_pushed (m : Machine) (a esp : Word) (c : CpuTaskState) (ws : List Word)
    (hws : ws.length ≤ 2) (ha : a.toNat + 56 ≤ 2 ^ 32) (hesp : 8 ≤ esp.toNat)
    (hfar : esp.toNat ≤ a.toNat ∨ a.toNat + 64 ≤ esp.toNat) :
    readState ((((m.setReg .esp (a + 56#32)).pushAll (words c)).setReg .esp esp).pushAll ws).mem a =
      c := by
  have hword (i : ℕ) (hi : i < 14) (x w : Word) (hw : (words c)[i]? = some w)
      (hx : x + BitVec.ofNat 32 (4 * (i + 1)) = a + 56#32) :
      load32 ((((m.setReg .esp (a + 56#32)).pushAll (words c)).setReg .esp esp).pushAll ws).mem x =
        w := by
    have hk : (BitVec.ofNat 32 (4 * (i + 1))).toNat = 4 * (i + 1) := by
      rw [BitVec.toNat_ofNat, Nat.mod_eq_of_lt (by omega)]
    have htop := hx
    generalize BitVec.ofNat 32 (4 * (i + 1)) = u at hx hk
    have happ :
        load32 ((((m.setReg .esp (a + 56#32)).pushAll (words c)).setReg .esp esp).pushAll ws).mem
          x =
        load32 ((m.setReg .esp (a + 56#32)).pushAll (words c)).mem x := by
      refine Machine.load32_pushAll_of_apart fun j hj => ?_
      have hreg :
          (((m.setReg .esp (a + 56#32)).pushAll (words c)).setReg .esp esp).reg .esp = esp := by
        simp [Machine.setReg]
      rw [hreg]
      obtain rfl | rfl : j = 0 ∨ j = 1 := by omega
      · constructor <;> bv_omega
      · constructor <;> bv_omega
    rw [happ]
    refine Machine.load32_pushAll hw ?_ (by simp [words])
    have hreg : (m.setReg .esp (a + 56#32)).reg .esp = a + 56#32 := by simp [Machine.setReg]
    rw [hreg, htop]
  obtain ⟨c₀, c₁, c₂, c₃, c₄, c₅, c₆, c₇, c₈, c₉, c₁₀, c₁₁, c₁₂, c₁₃⟩ := c
  rw [readState]
  congr 1
  · exact hword 13 (by omega) _ _ rfl rfl
  · exact hword 12 (by omega) _ _ rfl (by bv_omega)
  · exact hword 11 (by omega) _ _ rfl (by bv_omega)
  · exact hword 10 (by omega) _ _ rfl (by bv_omega)
  · exact hword 9 (by omega) _ _ rfl (by bv_omega)
  · exact hword 8 (by omega) _ _ rfl (by bv_omega)
  · exact hword 7 (by omega) _ _ rfl (by bv_omega)
  · exact hword 6 (by omega) _ _ rfl (by bv_omega)
  · exact hword 5 (by omega) _ _ rfl (by bv_omega)
  · exact hword 4 (by omega) _ _ rfl (by bv_omega)
  · exact hword 3 (by omega) _ _ rfl (by bv_omega)
  · exact hword 2 (by omega) _ _ rfl (by bv_omega)
  · exact hword 1 (by omega) _ _ rfl (by bv_omega)
  · exact hword 0 (by omega) _ _ rfl (by bv_omega)

/-- The context is in memory. -/
lemma readState_resuming : readState resuming.mem 0x1008#32 = s₃.context 0x1000#32 := by
  rw [resuming]
  generalize s₃.context 0x1000#32 = c
  exact readState_pushed interrupted 0x1008#32 0x9000#32 c [0x1008#32, 0#32] (by decide) (by decide)
    (by decide) (by decide)

/-- The idle task is interrupted, and resumed after the user task ran. -/
lemma resumes : Resumes Hang.s₁ interrupted resuming where
  reach := Hang.reach_s₁
  kernel := by
    rw [resuming, (Machine.fields_pushAll _ _).1]
    change ((interrupted.setReg .esp 0x1040#32).pushAll (words (s₃.context 0x1000#32))).seg .cs = _
    rw [(Machine.fields_pushAll _ _).1]
    rfl
  arg := by
    have hesp : resuming.reg .esp + 4#32 = 0x8FFC#32 := by
      rw [resuming, Machine.reg_pushAll, Function.update_self]
      simp [Machine.setReg]
    rw [hesp]
    refine Machine.load32_pushAll (i := 0) rfl ?_ (by simp)
    simp [Machine.setReg]
  history := by
    refine ⟨0#32, s₂, s₂, .tick default, s₃, ?_, .start (by decide +kernel), ?_, rfl,
      readState_resuming⟩
    · exact Hang.step_tick (n := 4) (t := 0x3000#32) (by decide +kernel) rfl rfl
    · exact Hang.step_tick (n := 4) (t := 0x1000#32) (by decide +kernel) rfl rfl

end SwitchRun

/-- **A switch that is not transparent**: the idle task, interrupted at stack pointer `0x9000` and
resumed after one user task ran, goes on at another one. -/
theorem switch_changes_esp :
    ¬ ∀ (s : Sched) (m m' : Machine), Resumes s m m' → InTask m →
      ∃ m'', iret (run m' restoreTaskContext) = some m'' ∧ Agrees m m'' := by
  intro hall
  obtain ⟨m'', hret, hagree⟩ := hall _ _ _ SwitchRun.resumes (.inr rfl)
  obtain ⟨m₁, hret₁, hne⟩ := SwitchRun.resumes.esp_ne (.inr rfl)
  rw [hret₁, Option.some.injEq] at hret
  exact hne (hret ▸ hagree.esp)

/-- The theorem at the idle task's interruption. -/
theorem resume_not_transparent_idle :
    ¬ ∃ m'', iret (run SwitchRun.resuming restoreTaskContext) = some m'' ∧
      Agrees SwitchRun.interrupted m'' :=
  resume_not_transparent SwitchRun.resumes (.inr rfl)

end AlphaOS
