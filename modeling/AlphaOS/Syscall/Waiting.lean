import AlphaOS.Idt.Stubs

set_option relaxedAutoImplicit false
set_option autoImplicit false

/-!
# A read that waits

`syscall_handler` makes a `read` wait when there is no line: `await_stdin` moves the saved
instruction pointer back by the two bytes of `int $0x80`, takes the task off the processor and never
returns. The task makes the call again when it is resumed, and perhaps waits again; in front of the
instruction it may also be taken off the processor by the timer. This file follows it to the read
that finds a line.

## Main definitions

* `AlphaOS.trapped` — the machine when the processor has fetched `int $0x80`.
* `AlphaOS.Waits` — a task that waits in a `read` is about to be resumed.
* `AlphaOS.Retried` — a task that has been taken off the processor and resumed some times in front
  of its call.

## Main results

* `AlphaOS.Retried.resumed` — it stands in front of the same call, with its stack pointer four bytes
  lower for each time and its data segments loaded from `%ds`.
* `AlphaOS.read_of_retried` — the call returns its result at last, with the stack pointer so much
  lower.

## Design

The machine has all of memory. `Restores` asks for the bytes that `restore_task_context` stores to:
where one of them is not mapped the kernel faults at the resumption, and the task does not come
back.
-/

namespace AlphaOS

open X86

/-- The machine in front of `int $0x80`, when the processor has fetched it. -/
def trapped (m : Machine) : Machine := { m with eip := m.eip + 2#32 }

/-- The ring-3 task running in `s`, in front of its `int $0x80` in the machine state `m`, is about
to be resumed in the state `m'`: its call waits in `await_stdin`, the scheduler runs other tasks, an
event dispatches it again, and `restore_task_context` is entered with the address of its context. -/
structure Waits (s : Sched) (m m' : Machine) : Prop where
  reach : Transition.Reach Sched.Init Sched.Step (fun _ _ => True) s
  user : m.seg .cs = 0x23#16
  kernel : m'.seg .cs = 0x08#16
  arg : load32 m'.mem (m'.reg .esp + 4#32) = s.currentTask + 8#32
  history : ∃ stub s₁ s₂ e s₃, s.Step (.await (syscallFrame (trapped m) s.esp0 stub)) s₁ ∧
    Away s.currentTask s₁ s₂ ∧ s₂.Step e s₃ ∧ s₃.currentTask = s.currentTask ∧
    readState m'.mem (s.currentTask + 8#32) = s₃.context s.currentTask

/-- `await_stdin` saves the state in front of the call. -/
lemma saves_awaitFrame {m : Machine} {f : StateFrame}
    (h : Saves (trapped m) (Sched.savedContext f)) :
      Saves m (Sched.savedContext (Sched.awaitFrame f)) := by
  have heip : (Sched.savedContext f).eip - 2#32 = m.eip := by
    rw [h.eip, trapped]
    exact BitVec.add_sub_cancel _ _
  rw [Sched.savedContext_awaitFrame]
  exact { h with eip := heip }

/-- **At the resumption the task block holds the registers in front of the call.** -/
theorem Waits.saves {s : Sched} {m m' : Machine} (h : Waits s m m') :
    Saves m (readState m'.mem (s.currentTask + 8#32)) := by
  obtain ⟨stub, s₁, s₂, e, s₃, hawait, haway, hstep, -, hread⟩ := h.history
  obtain ⟨l, d, hwf⟩ := Sched.wf_of_reach h.reach
  obtain ⟨l₂, d₂, hwf₂, ht, hc⟩ := (Sched.parked_of_await hwf hawait).away haway
  rw [hread, Sched.Step.context hwf₂ hstep ht, hc]
  exact saves_awaitFrame ((frameOf_syscallFrame (trapped m) s.esp0 stub).saves (.inl h.user))

/-- `restore_task_context` resumes a task: every byte it stores to is mapped, so it comes to its
`iret`. -/
structure Restores (mapped : Word → Prop) (m m' : Machine) : Prop where
  mapped : ∀ b ∈ stores m restoreTaskContext, mapped b
  iret : iret (run m restoreTaskContext) = some m'

/-- `k` times in a row, a ring-3 task in front of `int $0x80` is taken off the processor and
resumed: by the timer, or by its call, which waits. Its saved context is out of reach of the pushes
below its stack pointer. -/
inductive Retried : ℕ → Machine → Machine → Prop
  | zero (m : Machine) : Retried 0 m m
  | timer {k : ℕ} {m₀ m m' m'' : Machine} {s : Sched} {mapped : Word → Prop} (h : Retried k m₀ m)
      (hr : Resumes s m m') (hapart : ContextApart (s.currentTask + 8#32) (m.reg .esp))
      (hret : Restores mapped m' m'') : Retried (k + 1) m₀ m''
  | read {k : ℕ} {m₀ m m' m'' : Machine} {s : Sched} {mapped : Word → Prop} (h : Retried k m₀ m)
      (hr : Waits s m m') (hapart : ContextApart (s.currentTask + 8#32) (m.reg .esp))
      (hret : Restores mapped m' m'') : Retried (k + 1) m₀ m''

/-- What `k` resumptions have made of the registers `m₀`: the stack pointer is four bytes lower for
each, and after the first of them the data segments and the stack segment are all what `%ds` was. -/
structure Resumed (k : ℕ) (m₀ m : Machine) : Prop where
  agrees : Agrees (m₀.setReg .esp (m₀.reg .esp - BitVec.ofNat 32 (4 * k))) m
  segs : ∀ q, q ≠ .cs → m.seg q = if k = 0 then m₀.seg q else m₀.seg .ds

/-- Before the first resumption nothing has changed. -/
lemma Resumed.zero (m : Machine) : Resumed 0 m m := by
  refine ⟨⟨rfl, rfl, rfl, ?_, rfl, rfl, rfl, rfl, rfl, rfl, rfl, rfl⟩, fun q _ => rfl⟩
  rw [Machine.reg_setReg_self, Nat.mul_zero]
  exact (BitVec.sub_zero _).symm

/-- Two machines that agree but for the stack pointer, and then again. -/
lemma Agrees.lower {m₀ m m' : Machine} {a b : Word}
    (h : Agrees (m₀.setReg .esp (m₀.reg .esp - a)) m)
    (h' : Agrees (m.setReg .esp (m.reg .esp - b)) m') :
    Agrees (m₀.setReg .esp (m₀.reg .esp - (a + b))) m' := by
  refine ⟨h'.eip.trans h.eip, h'.cs.trans h.cs, h'.eflags.trans h.eflags, ?_, h'.ds.trans h.ds,
    h'.edi.trans h.edi, h'.esi.trans h.esi, h'.ebp.trans h.ebp, h'.ebx.trans h.ebx,
      h'.edx.trans h.edx,
    h'.ecx.trans h.ecx, h'.eax.trans h.eax⟩
  rw [h'.esp, Machine.reg_setReg_self, h.esp, Machine.reg_setReg_self, Machine.reg_setReg_self]
  bv_omega

/-- **One more resumption** in ring 3. -/
lemma Resumed.succ {k : ℕ} {m₀ m m' m'' : Machine} {a : Word} {mapped : Word → Prop}
    (h : Resumed k m₀ m) (huser : m₀.seg .cs = 0x23#16)
    (harg : load32 m'.mem (m'.reg .esp + 4#32) = a) (hkernel : m'.seg .cs = 0x08#16)
    (hs : Saves m (readState m'.mem a)) (hapart : ContextApart a (m.reg .esp))
    (hret : Restores mapped m' m'') : Resumed (k + 1) m₀ m'' := by
  have hm : m.seg .cs = 0x23#16 := h.agrees.cs.trans huser
  obtain ⟨m₁, hret₁, hesp, hagree⟩ := registers_of_saves harg hkernel hs (.inl hm) hapart
  have hiret := hret.iret
  rw [hret₁, Option.some.injEq] at hiret
  subst hiret
  rw [if_pos hm] at hesp
  rw [hesp] at hagree
  refine ⟨?_, fun q hq => ?_⟩
  · rw [Nat.mul_succ, BitVec.ofNat_add]
    exact h.agrees.lower hagree
  · rw [if_neg (Nat.succ_ne_zero k), segments_of_saves harg hkernel hs hm hapart hret₁ q hq]
    exact h.agrees.ds

/-- **A call that is made again.** However often the task was taken off the processor in front of
its call, it stands in front of the same call with the registers it had, the number of the call and
its arguments among them, but for its stack pointer and the segment registers. -/
theorem Retried.resumed {k : ℕ} {m₀ m : Machine} (h : Retried k m₀ m)
    (huser : m₀.seg .cs = 0x23#16) :
    Resumed k m₀ m := by
  induction h with
  | zero m => exact .zero m
  | @timer k m₀ m m' m'' s mapped _ hr hapart hret ih =>
    have hm : m.seg .cs = 0x23#16 := (ih huser).agrees.cs.trans huser
    exact (ih huser).succ huser hr.arg hr.kernel (hr.saves (.inl hm)) hapart hret
  | @read k m₀ m m' m'' s mapped _ hr hapart hret ih =>
    exact (ih huser).succ huser hr.arg hr.kernel hr.saves hapart hret

/-- **When a task that waits is resumed**: exactly when the twenty bytes below its stack pointer are
mapped. -/
lemma Waits.restores_iff {s : Sched} {m m' : Machine} (h : Waits s m m')
    (hapart : ContextApart (s.currentTask + 8#32) (m.reg .esp)) (mapped : Word → Prop) :
    (∃ m'', Restores mapped m' m'') ↔ ∀ i < 5, ∀ r < 4, mapped (below (m.reg .esp) i r) := by
  have hesp : (onTaskStack m').reg .esp = m.reg .esp :=
    (onTaskStack_fields m' h.arg).2.2.1.trans h.saves.esp
  constructor
  · rintro ⟨m'', hret⟩ i hi r hr
    refine hret.mapped _ (mem_stores_restoreTaskContext.mpr ⟨i, hi, r, hr, ?_⟩)
    rw [hesp]
  · intro hall
    obtain ⟨m'', hret, -⟩ := registers_of_saves h.arg h.kernel h.saves (.inl h.user) hapart
    refine ⟨m'', fun b hb => ?_, hret⟩
    obtain ⟨i, hi, r, hr, rfl⟩ := mem_stores_restoreTaskContext.mp hb
    rw [hesp]
    exact hall i hi r hr

/-- A call from a machine that has been resumed, with the result `r`. -/
lemma Resumed.returned {k : ℕ} {m₀ m m' : Machine} {r : Word} (h : Resumed k m₀ m)
    (hsame : Same ((trapped m).setReg .eax r) m') : Resumed k ((trapped m₀).setReg .eax r) m' := by
  have ha := h.agrees
  have hreg {q : Reg} (hq : q ≠ .eax) (hq' : q ≠ .esp) (heq : m.reg q = m₀.reg q) :
      m'.reg q = (((trapped m₀).setReg .eax r).setReg .esp
        (((trapped m₀).setReg .eax r).reg .esp - BitVec.ofNat 32 (4 * k))).reg q := by
    rw [hsame.reg]
    refine (Function.update_of_ne hq _ _).trans (heq.trans ?_)
    exact ((Function.update_of_ne hq' _ _).trans (Function.update_of_ne hq _ _)).symm
  refine ⟨⟨?_, ?_, ?_, ?_, ?_, hreg (by decide) (by decide) ha.edi,
    hreg (by decide) (by decide) ha.esi,
    hreg (by decide) (by decide) ha.ebp, hreg (by decide) (by decide) ha.ebx,
    hreg (by decide) (by decide) ha.edx, hreg (by decide) (by decide) ha.ecx, ?_⟩, fun q hq => ?_⟩
  · rw [hsame.eip]
    exact congrArg (· + 2#32) ha.eip
  · rw [hsame.seg]
    exact ha.cs
  · rw [hsame.eflags]
    exact ha.eflags
  · rw [hsame.reg, Machine.reg_setReg_self]
    exact ha.esp
  · rw [hsame.seg]
    exact ha.ds
  · rw [hsame.reg]
    rfl
  · rw [hsame.seg]
    exact h.segs q hq

namespace WaitRun

open Sched UserRun

/-- The frame of the user task's call. -/
def frame : StateFrame := syscallFrame (trapped interrupted) UserRun.s₂.esp0 0#32

/-- The call waits, and the idle task is woken and dispatched. -/
def s₃ : Sched :=
  (UserRun.s₂.awaitPrepare.saveContext (some (awaitFrame frame))).dispatch 0xC0400000#32

/-- The tick after a line has come in dispatches the user task again. -/
def s₅ : Sched :=
  (s₃.wakeStdinTask.wakeIdleIfAlone.tickSuspend.saveContext (some default)).dispatch 0xC0420000#32

/-- The kernel about to resume the user task with the context `c`, on the stack of the idle task. -/
def resuming (c : CpuTaskState) : Machine :=
  (((({ interrupted with seg := fun _ => 0x08#16 } : Machine).setReg .esp
    (0xC0420008#32 + 56#32)).pushAll
    (SwitchRun.words c)).setReg .esp 0xC0404F08#32).pushAll [0xC0420008#32, 0#32]

/-- Its registers and its memory. -/
lemma resuming_fields (c : CpuTaskState) : (resuming c).seg .cs = 0x08#16 ∧
    load32 (resuming c).mem ((resuming c).reg .esp + 4#32) = 0xC0420008#32 ∧
    readState (resuming c).mem 0xC0420008#32 = c := by
  refine ⟨?_, ?_, ?_⟩
  · rw [resuming, (Machine.fields_pushAll _ _).1]
    generalize SwitchRun.words c = ws
    change (Machine.pushAll _ ws).seg .cs = _
    rw [(Machine.fields_pushAll _ _).1]
    rfl
  · have hesp : (resuming c).reg .esp + 4#32 = 0xC0404F04#32 := by
      rw [resuming, Machine.reg_pushAll, Function.update_self]
      simp [Machine.setReg]
    rw [hesp]
    refine Machine.load32_pushAll (i := 0) rfl ?_ (by simp)
    simp [Machine.setReg]
  · exact SwitchRun.readState_pushed _ 0xC0420008#32 0xC0404F08#32 c [0xC0420008#32, 0#32]
      (by decide)
      (by decide) (by decide) (by decide)

/-- The user task waits, a line comes in while the idle task runs, and the user task is resumed. -/
lemma waits : Waits UserRun.s₂ interrupted (resuming (s₅.context 0xC0420000#32)) := by
  obtain ⟨hcs, harg, hread⟩ := resuming_fields (s₅.context 0xC0420000#32)
  have hcur : UserRun.s₂.currentTask = 0xC0420000#32 := rfl
  have hback : s₅.currentTask = 0xC0420000#32 := rfl
  refine ⟨reach_s₂, rfl, hcs, ?_, ?_⟩
  · rw [harg, hcur]
    rfl
  rw [hcur]
  refine ⟨0#32, s₃, s₃.wakeStdinTask, .tick default, s₅, ?_, ?_, ?_, hback, hread⟩
  · exact Hang.step_await (n := 4) (t := 0xC0400000#32) ⟨by decide +kernel, by decide +kernel⟩ rfl
  · have hwake : s₃.Step .wake s₃.wakeStdinTask := ⟨trivial, 0, rfl⟩
    exact .next (.start (by decide +kernel)) hwake (by decide +kernel)
  · exact Hang.step_tick (n := 4) (t := 0xC0420000#32) (by decide +kernel) (by decide +kernel)
      (by decide +kernel)

/-- The stack of the user task does not reach its context. -/
lemma contextApart : ContextApart (UserRun.s₂.currentTask + 8#32) (interrupted.reg .esp) := by
  intro i hi j hj
  have hcur : UserRun.s₂.currentTask = 0xC0420000#32 := rfl
  have hesp : interrupted.reg .esp = 0x3000#32 := rfl
  have hi' : (BitVec.ofNat 32 (4 * i)).toNat = 4 * i := by
    rw [BitVec.toNat_ofNat, Nat.mod_eq_of_lt (by omega)]
  have hj' : (BitVec.ofNat 32 (4 * (j + 1))).toNat = 4 * (j + 1) := by
    rw [BitVec.toNat_ofNat, Nat.mod_eq_of_lt (by omega)]
  rw [hcur, hesp]
  generalize BitVec.ofNat 32 (4 * i) = u at hi'
  generalize BitVec.ofNat 32 (4 * (j + 1)) = v at hj'
  constructor <;> bv_omega

end WaitRun

end AlphaOS
