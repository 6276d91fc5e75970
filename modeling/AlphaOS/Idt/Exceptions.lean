import AlphaOS.Idt.Stubs
import AlphaOS.Mm.System

set_option relaxedAutoImplicit false
set_option autoImplicit false

/-!
# Exceptions

The stubs of the processor's exceptions, generated by two macros of `kernel/idt/idt.s`, and
`exception_handler` of `kernel/idt/idt.c`. The stubs made by `isr_err_stub` hand the handler the
address of the saved state, whose first word is the number of the exception. Those made by
`isr_no_err_stub` hand it the number itself, which the handler takes for that address; page 0 is not
mapped, so it faults, in the kernel.

## Main definitions

* `AlphaOS.isrErrStub`, `AlphaOS.isrNoErrStub`, `AlphaOS.exceptionHandler` — the code.
* `AlphaOS.Raised` — what comes of an exception, the page fault included that its handler raises.
* `AlphaOS.exceptionFate` — the same by the number and the error code alone.

## Main results

* `AlphaOS.exception_fate` — only a user's page fault ends a task; every exception whose stub is an
  `isr_no_err_stub` stops the kernel.
* `AlphaOS.isrErr_returns` — the stubs made by `isr_err_stub` leave the error code on the stack, and
  `iret` takes it for the address to return to.

## Design

The vectors 21 and 29 have an `isr_no_err_stub` although the processor pushes an error code. What
the handler writes is a list of texts: its one or two lines are drawn where the cursor is, which is
taken to be on the screen.
-/

namespace AlphaOS

open X86

/-! ## The stubs -/

/-- The vectors with which the processor pushes an error code. -/
def errorCodeVectors : List ℕ := [8, 10, 11, 12, 13, 14, 17, 21, 29, 30]

/-- The vectors whose stub is an `isr_err_stub`. -/
def isrErrVectors : List ℕ := [8, 10, 11, 12, 13, 14, 17, 30]

/-- `isr_err_stub` up to its call. -/
def isrErrStub (num : ℕ) : List Op :=
  [.instr .pusha, .pushImm (BitVec.ofNat 32 num), .instr (.pushReg .esp)]

/-- `isr_err_stub` after its call, before its `iret`. -/
def isrErrExit : List Op := [.addImm 8#32 .esp, .popa]

/-- `isr_no_err_stub` up to its call. -/
def isrNoErrStub (num : ℕ) : List Op := [.instr .pusha, .pushImm (BitVec.ofNat 32 num)]

/-- `isr_stub_table`. -/
def isrStub (num : ℕ) : List Op := if num ∈ isrErrVectors then isrErrStub num else isrNoErrStub num

/-- The machine when the processor has entered the stub of the exception `v`. -/
def enterException (m : Machine) (esp0 stub : Word) (v : ℕ) (err : Word) : Machine :=
  if v ∈ errorCodeVectors then (interrupt m esp0 0x10#16 0x08#16 stub).push err
  else interrupt m esp0 0x10#16 0x08#16 stub

/-- The machine when the stub calls `exception_handler`. -/
def exceptionCall (m : Machine) (esp0 stub : Word) (v : ℕ) (err : Word) : Machine :=
  runOps (enterException m esp0 stub v err) (isrStub v)

/-! ## The handler -/

/-- How `exception_handler` ends. -/
inductive HandlerEnd
  /-- It returns to the stub. -/
  | returns
  /-- It calls `task_exit`. -/
  | exits
  /-- It executes `cli; hlt`. -/
  | halts
  /-- It reads memory that is not mapped. -/
  | faults
deriving DecidableEq, Repr

/-- A word as the kernel reads it, if all of it is mapped. -/
def read32 (mapped : Word → Bool) (mem : Memory) (a : Word) : Option Word :=
  if mapped a && mapped (a + 1#32) && mapped (a + 2#32) && mapped (a + 3#32) then some
    (load32 mem a) else none

/-- `exception_handler`, with what it writes to the terminal. -/
def exceptionHandler (read : Word → Option Word) (state : Word) : List String × HandlerEnd :=
  match read state with
  | none => ([], .faults)
  | some exceptionCode =>
    if exceptionCode = 0#32 then (["Divided by 0!\n"], .returns)
    else if exceptionCode = 14#32 then
      match read (state + 36#32) with
      | none => (["Page Fault!\n"], .faults)
      | some errorCode =>
        if errorCode >>> 2 = 1#32 then
          (["Page Fault!\n", "Terminating userspace process...\n"], .exits)
        else (["Page Fault!\n", "Kernel crash\n"], .halts)
    else (["Exception handler called without error num\n"], .returns)

/-- The stack on which an interruption of `m` is handled has room for what the processor and the
stubs push. -/
def StackMapped (mapped : Word → Bool) (m : Machine) (esp0 : Word) : Prop :=
  ∀ k, 0 < k → k ≤ 64 → mapped (entryStack m esp0 - BitVec.ofNat 32 k) = true

/-- The exception `v` with the error code `err` in the state `m`: what is written to the terminal,
and how the last handler ends. A handler that reads memory that is not mapped is itself interrupted,
by the exception 14 with the error code of a read by the kernel from a page that is not present. -/
inductive Raised (mapped : Word → Bool) (esp0 stub : Word) :
    Machine → ℕ → Word → List String → HandlerEnd → Prop
  | handled {m : Machine} {v : ℕ} {err : Word} {text : List String} {e : HandlerEnd}
      (h : exceptionHandler (read32 mapped (exceptionCall m esp0 stub v err).mem)
        ((exceptionCall m esp0 stub v err).stackWord 0) = (text, e))
      (he : e ≠ .faults) : Raised mapped esp0 stub m v err text e
  | nested {m m' : Machine} {v : ℕ} {err : Word} {text text' : List String} {e : HandlerEnd}
      (h : exceptionHandler (read32 mapped (exceptionCall m esp0 stub v err).mem)
        ((exceptionCall m esp0 stub v err).stackWord 0) = (text, .faults))
      (hcpl : m'.cpl = 0#2) (hstack : StackMapped mapped m' esp0)
      (h' : Raised mapped esp0 stub m' 14 0#32 text' e) :
        Raised mapped esp0 stub m v err (text ++ text') e

/-- What comes of an exception. -/
def exceptionFate (v : ℕ) (err : Word) : List String × HandlerEnd :=
  if v = 14 then
    if err >>> 2 = 1#32 then (["Page Fault!\n", "Terminating userspace process...\n"], .exits)
    else (["Page Fault!\n", "Kernel crash\n"], .halts)
  else if v ∈ isrErrVectors then (["Exception handler called without error num\n"], .returns)
  else (["Page Fault!\n", "Kernel crash\n"], .halts)

/-! ## What the stubs hand over -/

variable {mapped : Word → Bool} {m m₂ : Machine} {esp0 stub err : Word} {v : ℕ}

/-- `pusha` in a stub that is entered with an error code. -/
lemma pusha_push_interrupt (m : Machine) (esp0 stub err : Word) : ∃ top : Word,
    exec ((interrupt m esp0 0x10#16 0x08#16 stub).push err) .pusha =
      (interrupt m esp0 0x10#16 0x08#16 stub).pushAll (err :: pushaWords m top) := by
  obtain ⟨-, -, hreg, -⟩ := interrupt_fields m esp0 0x10#16 0x08#16 stub
  generalize interrupt m esp0 0x10#16 0x08#16 stub = I at *
  have hkeep (r : Reg) (hr : r ≠ .esp) : (I.push err).reg r = m.reg r := by
    rw [← hreg r hr]
    exact Function.update_of_ne hr _ _
  refine ⟨(I.push err).reg .esp, ?_⟩
  rw [Machine.pushAll_cons, exec, hkeep .eax (by decide), hkeep .ecx (by decide),
    hkeep .edx (by decide),
    hkeep .ebx (by decide), hkeep .ebp (by decide), hkeep .esi (by decide), hkeep .edi (by decide)]
  rfl

/-- A stub with an error code pushes its number and the address of that. -/
lemma runOps_isrErrStub (I : Machine) (v : ℕ) : runOps I (isrErrStub v) =
    (exec I .pusha).pushAll [BitVec.ofNat 32 v, (runOps I (isrErrStub v)).reg .esp + 4#32] := by
  generalize hE : (exec I .pusha).push (BitVec.ofNat 32 v) = E
  have hrun : runOps I (isrErrStub v) = E.push (E.reg .esp) := by
    rw [← hE]
    rfl
  have hesp : (E.push (E.reg .esp)).reg .esp + 4#32 = E.reg .esp := by
    simp only [Machine.push, Function.update_self]
    exact BitVec.sub_add_cancel _ _
  rw [hrun, hesp, Machine.pushAll_cons, hE]
  rfl

/-- The stack of a handler that is called with an error code. -/
lemma exceptionCall_of_mem (m : Machine) (esp0 stub err : Word) (hv : v ∈ isrErrVectors) :
    ∃ top : Word,
    exceptionCall m esp0 stub v err = (interrupt m esp0 0x10#16 0x08#16 stub).pushAll
      (err :: pushaWords m top ++
        [BitVec.ofNat 32 v, (exceptionCall m esp0 stub v err).reg .esp + 4#32]) := by
  have hcode : v ∈ errorCodeVectors := by
    simp only [isrErrVectors, errorCodeVectors, List.mem_cons] at hv ⊢
    tauto
  obtain ⟨top, hpusha⟩ := pusha_push_interrupt m esp0 stub err
  have hcall := runOps_isrErrStub ((interrupt m esp0 0x10#16 0x08#16 stub).push err) v
  rw [hpusha, Machine.pushAll_append] at hcall
  rw [exceptionCall, enterException, isrStub, if_pos hcode, if_pos hv]
  exact ⟨top, hcall⟩

/-- The words it finds: the address of the number, the number, the saved registers, and the error
code where the processor left it, in front of the return address. -/
lemma exceptionCall_words (m : Machine) (esp0 stub err : Word) (hv : v ∈ isrErrVectors) : ∃ top :
    Word, ∀ i w,
    [(exceptionCall m esp0 stub v err).reg .esp + 4#32, BitVec.ofNat 32 v, m.reg .edi,
      m.reg .esi, m.reg .ebp,
      top, m.reg .ebx, m.reg .edx, m.reg .ecx, m.reg .eax, err, m.eip,
        (m.seg .cs).setWidth 32][i]? = some w →
    (exceptionCall m esp0 stub v err).stackWord i = w := by
  obtain ⟨top, hC⟩ := exceptionCall_of_mem m esp0 stub err hv
  refine ⟨top, fun i w hi => ?_⟩
  generalize (exceptionCall m esp0 stub v err).reg .esp + 4#32 = a at hC hi
  rw [hC]
  refine stackWord_interrupt ?_ (by simp [pushaWords])
  have hrev : (entryWords m ++ (err :: pushaWords m top ++ [BitVec.ofNat 32 v, a])).reverse =
      [a, BitVec.ofNat 32 v, m.reg .edi, m.reg .esi, m.reg .ebp, top, m.reg .ebx,
      m.reg .edx, m.reg .ecx,
        m.reg .eax, err, m.eip, (m.seg .cs).setWidth 32] ++ m.eflags ::
        if m.cpl = 0#2 then [] else [m.reg .esp, (m.seg .ss).setWidth 32] := by
    unfold entryWords
    split_ifs <;> rfl
  rw [hrev, List.getElem?_append_left (List.getElem?_eq_some_iff.mp hi).1]
  exact hi

/-- Where its stack pointer is. -/
lemma exceptionCall_esp (hv : v ∈ isrErrVectors) : (exceptionCall m esp0 stub v err).reg .esp =
    entryStack m esp0 - BitVec.ofNat 32 (4 * ((entryWords m).length + 11)) := by
  obtain ⟨top, hC⟩ := exceptionCall_of_mem m esp0 stub err hv
  rw [hC, (pushAll_interrupt ..).2, Machine.reg_pushAll, Function.update_self,
    Machine.reg_setReg_self,
    List.length_append]
  rfl

/-- The stubs without an error code hand over the number. -/
lemma exceptionCall_argument (hv : v ∉ isrErrVectors) :
    (exceptionCall m esp0 stub v err).stackWord 0 = BitVec.ofNat 32 v := by
  rw [exceptionCall, isrStub, if_neg hv]
  generalize enterException m esp0 stub v err = M
  have hrun : runOps M (isrNoErrStub v) = (exec M .pusha).pushAll [BitVec.ofNat 32 v] := rfl
  rw [hrun]
  exact Machine.stackWord_pushAll rfl (by simp)

/-- The kernel reads the words near its stack pointer. -/
lemma read32_of_stackMapped (h : StackMapped mapped m esp0) (mem : Memory) {k : ℕ} (h₁ : 4 ≤ k)
    (h₂ : k ≤ 64) :
    read32 mapped mem (entryStack m esp0 - BitVec.ofNat 32 k) =
      some (load32 mem (entryStack m esp0 - BitVec.ofNat 32 k)) := by
  have hbyte (r : ℕ) (hr : r < 4) :
      mapped (entryStack m esp0 - BitVec.ofNat 32 k + BitVec.ofNat 32 r) = true := by
    have hk := h (k - r) (by omega) (by omega)
    have hsplit : BitVec.ofNat 32 k = BitVec.ofNat 32 (k - r) + BitVec.ofNat 32 r := by
      rw [← BitVec.ofNat_add]
      congr 1
      omega
    have haddr : entryStack m esp0 - BitVec.ofNat 32 k + BitVec.ofNat 32 r =
        entryStack m esp0 - BitVec.ofNat 32 (k - r) := by
      rw [hsplit]
      bv_omega
    rw [haddr]
    exact hk
  have h0 := hbyte 0 (by omega)
  rw [BitVec.add_zero] at h0
  exact if_pos (by rw [h0, hbyte 1 (by omega), hbyte 2 (by omega), hbyte 3 (by omega)]; rfl)

/-! ## What comes of an exception -/

/-- **The handler with an error code** reads the number and the code from the stack. -/
lemma exceptionHandler_of_mem (stub err : Word) (hv : v ∈ isrErrVectors)
    (hstack : StackMapped mapped m esp0) :
    exceptionHandler (read32 mapped (exceptionCall m esp0 stub v err).mem)
      ((exceptionCall m esp0 stub v err).stackWord 0) = exceptionFate v err := by
  obtain ⟨top, hword⟩ := exceptionCall_words m esp0 stub err hv
  have hlen : (entryWords m).length ≤ 5 := by
    unfold entryWords
    split_ifs <;> simp
  have haddr {i k : ℕ} (hk : k + 4 * i = 4 * ((entryWords m).length + 11)) :
      (exceptionCall m esp0 stub v err).reg .esp + BitVec.ofNat 32 (4 * i) =
        entryStack m esp0 - BitVec.ofNat 32 k := by
    rw [exceptionCall_esp hv, ← hk, BitVec.ofNat_add]
    generalize BitVec.ofNat 32 (4 * i) = a
    generalize BitVec.ofNat 32 k = b
    bv_omega
  have hread {i : ℕ} (h₁ : 1 ≤ i) (h₂ : i ≤ 10) :
      read32 mapped (exceptionCall m esp0 stub v err).mem
      ((exceptionCall m esp0 stub v err).reg .esp + BitVec.ofNat 32 (4 * i)) =
        some ((exceptionCall m esp0 stub v err).stackWord i) := by
    have hk : 4 * ((entryWords m).length + 11) - 4 * i + 4 * i = 4 *
        ((entryWords m).length + 11) := by omega
    rw [Machine.stackWord, haddr hk]
    exact read32_of_stackMapped hstack _ (by omega) (by omega)
  have hnext : (exceptionCall m esp0 stub v err).reg .esp + 4#32 + 36#32 =
      (exceptionCall m esp0 stub v err).reg .esp + BitVec.ofNat 32 (4 * 10) := by
    bv_omega
  have hcode : read32 mapped (exceptionCall m esp0 stub v err).mem
      ((exceptionCall m esp0 stub v err).reg .esp + 4#32) = some (BitVec.ofNat 32 v) := by
    rw [← hword 1 _ rfl]
    exact hread (i := 1) (by omega) (by omega)
  have hnum : ∀ v ∈ isrErrVectors, BitVec.ofNat 32 v ≠ 0#32 ∧
      (BitVec.ofNat 32 v = 14#32 ↔ v = 14) := by
    decide
  obtain ⟨hne, h14⟩ := hnum v hv
  rw [exceptionHandler, hword 0 _ rfl, hcode, hnext, hread (i := 10) (by omega) (by omega),
    hword 10 _ rfl,
    exceptionFate]
  simp only [if_neg hne, h14, if_pos hv]

/-- **The handler without one** reads at the number of the exception, in page 0. -/
lemma exceptionHandler_of_notMem (m : Machine) (esp0 stub err : Word)
    (hnull : ∀ a : Word, a.toNat < 4096 → mapped a = false) (hlt : v < 32)
    (hv : v ∉ isrErrVectors) :
    exceptionHandler (read32 mapped (exceptionCall m esp0 stub v err).mem)
      ((exceptionCall m esp0 stub v err).stackWord 0) = ([], .faults) := by
  have hpage : mapped (BitVec.ofNat 32 v) = false := by
    apply hnull
    rw [BitVec.toNat_ofNat, Nat.mod_eq_of_lt (by omega)]
    omega
  have hread : read32 mapped (exceptionCall m esp0 stub v err).mem (BitVec.ofNat 32 v) = none := by
    rw [read32, hpage]
    rfl
  rw [exceptionCall_argument hv, exceptionHandler, hread]

/-- An exception with an error code does not raise another one. -/
lemma raised_of_mem (hv : v ∈ isrErrVectors) (hstack : StackMapped mapped m esp0)
    {text : List String} {e : HandlerEnd} : Raised mapped esp0 stub m v err text e ↔
      (text, e) = exceptionFate v err := by
  have hhandler := exceptionHandler_of_mem stub err hv hstack
  have hend : (exceptionFate v err).2 ≠ .faults := by
    unfold exceptionFate
    split_ifs <;> decide
  constructor
  · intro h
    cases h with
    | handled h he => rw [← h, hhandler]
    | nested h hcpl hstack' h' =>
      rw [hhandler] at h
      rw [h] at hend
      exact absurd rfl hend
  · intro h
    rw [← h] at hhandler hend
    exact .handled hhandler hend

/-- **What an exception leads to.** A page fault by user code ends its task; every other page fault
stops the kernel. So does, whoever raises it, every exception without an error code, a division by
zero for one: its handler faults, and "Divided by 0!" is never written. After the exceptions with an
error code, page faults apart, the handler returns.

**Proof sketch.** With an error code the handler is given the address of the saved state, whose
words are on the kernel's stack. Without one it reads in page 0, and that raises a page fault of the
kernel, which is one with an error code. -/
theorem raised_iff {mapped : Word → Bool} {m : Machine} {esp0 stub err : Word} {v : ℕ}
    {text : List String} {e : HandlerEnd} (hnull : ∀ a : Word, a.toNat < 4096 → mapped a = false)
    (hstack : StackMapped mapped m esp0)
    (hroom : ∃ m' : Machine, m'.cpl = 0#2 ∧ StackMapped mapped m' esp0) (hv : v < 32) :
    Raised mapped esp0 stub m v err text e ↔ (text, e) = exceptionFate v err := by
  by_cases hmem : v ∈ isrErrVectors
  · exact raised_of_mem hmem hstack
  have hhandler := exceptionHandler_of_notMem m esp0 stub err hnull hv hmem
  have hne : v ≠ 14 := by
    rintro rfl
    exact hmem (by decide)
  have hfate : exceptionFate v err = exceptionFate 14 0#32 := by
    rw [exceptionFate, if_neg hne, if_neg hmem]
    rfl
  have h14 : 14 ∈ isrErrVectors := by decide
  rw [hfate]
  constructor
  · intro h
    cases h with
    | handled h he =>
      rw [hhandler] at h
      exact absurd (Prod.ext_iff.mp h).2.symm he
    | nested h hcpl hstack' h' =>
      rw [hhandler] at h
      have htext := congrArg Prod.fst h
      dsimp only at htext
      rw [← htext, List.nil_append]
      exact (raised_of_mem h14 hstack').mp h'
  · intro h
    obtain ⟨m', hcpl, hstack'⟩ := hroom
    exact .nested hhandler hcpl hstack' ((raised_of_mem h14 hstack').mpr h)

/-- The addresses that are mapped while the task with page directory `d` runs: its pages, and in the
upper quarter those of the kernel. -/
def Sys.isMapped (s : Sys) (d : ℕ) (kernelHalf : Word → Bool) (a : Word) : Bool :=
  if a.toNat < 0xC0000000 then (s.own (Sys.userPage d (a.toNat / 4096))).isSome else kernelHalf a

/-- **Returning with the error code on the stack.** When the handler of an exception with an error
code returns, its stub gives the registers back but leaves the code on the stack: what `iret` takes
for the address, the code segment and the flags of the interrupted code are the error code, the
address and the code segment.

The processor may refuse the code segment; `iret` itself is not part of the statement. -/
theorem isrErr_returns {m m₂ : Machine} {esp0 stub err : Word} {v : ℕ} (hv : v ∈ isrErrVectors)
    (hret : Returned (exceptionCall m esp0 stub v err) m₂
      (exceptionCall m esp0 stub v err).stackWord 1 13) :
    (∀ r, r ≠ .esp → (runOps m₂ isrErrExit).reg r = m.reg r) ∧
      (runOps m₂ isrErrExit).stackWord 0 = err ∧ (runOps m₂ isrErrExit).stackWord 1 = m.eip ∧
      (runOps m₂ isrErrExit).stackWord 2 = (m.seg .cs).setWidth 32 := by
  obtain ⟨top, hword⟩ := exceptionCall_words m esp0 stub err hv
  set Y := execOp m₂ (.addImm 8#32 .esp) with hY
  have hrun : runOps m₂ isrErrExit = Y.popAll := rfl
  have hY (i : ℕ) (hi : i < 11) :
      Y.stackWord i = (exceptionCall m esp0 stub v err).stackWord (2 + i) := by
    rw [← hret.words (2 + i) (by omega) (by omega)]
    exact m₂.stackWord_dropWords 2 i
  obtain ⟨hmem, -, hesp, hedi, hesi, hebp, hebx, hedx, hecx, heax⟩ := popAll_fields Y
  have hpop (i : ℕ) : Y.popAll.stackWord i = Y.stackWord (8 + i) := by
    have hmem' : Y.popAll.mem = (Y.dropWords 8).mem := hmem
    have hesp' : Y.popAll.reg .esp = (Y.dropWords 8).reg .esp := hesp
    rw [← Y.stackWord_dropWords 8 i]
    exact Machine.stackWord_congr hmem' hesp' i
  rw [hrun]
  refine ⟨fun r hr => ?_, ?_, ?_, ?_⟩
  · cases r with
    | esp => exact absurd rfl hr
    | edi => rw [hedi, hY 0 (by omega), hword 2 _ rfl]
    | esi => rw [hesi, hY 1 (by omega), hword 3 _ rfl]
    | ebp => rw [hebp, hY 2 (by omega), hword 4 _ rfl]
    | ebx => rw [hebx, hY 4 (by omega), hword 6 _ rfl]
    | edx => rw [hedx, hY 5 (by omega), hword 7 _ rfl]
    | ecx => rw [hecx, hY 6 (by omega), hword 8 _ rfl]
    | eax => rw [heax, hY 7 (by omega), hword 9 _ rfl]
  · rw [hpop, hY 8 (by omega), hword 10 _ rfl]
  · rw [hpop, hY 9 (by omega), hword 11 _ rfl]
  · rw [hpop, hY 10 (by omega), hword 12 _ rfl]

/-- A general protection fault of user code, with the error code `0x402`. -/
theorem isrErr_returns_calling :
    (∀ r, r ≠ .esp →
      (runOps ((exceptionCall calling 0xC0404F44#32 0#32 13 0x402#32).setReg .eax 7#32)
      isrErrExit).reg r = calling.reg r) ∧
    (runOps ((exceptionCall calling 0xC0404F44#32 0#32 13 0x402#32).setReg .eax 7#32)
      isrErrExit).stackWord 0 =
      0x402#32 ∧
    (runOps ((exceptionCall calling 0xC0404F44#32 0#32 13 0x402#32).setReg .eax 7#32)
      isrErrExit).stackWord 1 =
      calling.eip ∧
    (runOps ((exceptionCall calling 0xC0404F44#32 0#32 13 0x402#32).setReg .eax 7#32)
      isrErrExit).stackWord 2 =
      (calling.seg .cs).setWidth 32 :=
  isrErr_returns (by decide)
    (returned_eax (exceptionCall calling 0xC0404F44#32 0#32 13 0x402#32) 7#32 1 13)

end AlphaOS
