import AlphaOS.Lib.X86Return
import AlphaOS.Sched.UserStack

set_option relaxedAutoImplicit false
set_option autoImplicit false

/-!
# The interrupt stubs

The stubs of `kernel/idt/idt.s` around the C functions they call, when these return: the keyboard's,
the timer's while no other task is dispatched, and that of the system calls. Each saves the
registers with `pusha`, pushes what its function is to be handed, and undoes all that before its
`iret`. The function keeps the calling convention, and changes in the words above its return address
at most the saved `%eax`, in which `syscall_handler` puts its result.

## Main definitions

* `AlphaOS.irq0Exit`, `AlphaOS.syscallEntry`, `AlphaOS.syscallExit` — the stubs' code before and
  after the call.
* `AlphaOS.Same` — two machines agree in every register.

## Main results

* `AlphaOS.irq1_transparent`, `AlphaOS.irq0_transparent` — the interrupted code goes on with the
  registers it had.
* `AlphaOS.syscall_returns` — a system call changes `%eax` only.
-/

namespace AlphaOS

open X86

variable {m m₂ : Machine} {esp0 stub : Word} {i : ℕ}

/-- Two machines agree in every register. -/
structure Same (m m' : Machine) : Prop where
  reg : m'.reg = m.reg
  seg : m'.seg = m.seg
  eip : m'.eip = m.eip
  eflags : m'.eflags = m.eflags

/-- The words of the frame that an interruption of `m` leaves: the saved registers, what the
processor pushes, and above that, for code in ring 3, its stack. -/
def frameWords (m : Machine) : ℕ := 11 + if m.cpl = 0#2 then 0 else 2

/-- The machine when a stub that begins with `pusha` has run it. -/
def saved (m : Machine) (esp0 stub : Word) : Machine :=
  exec (interrupt m esp0 0x10#16 0x08#16 stub) .pusha

/-- The registers of the kernel after `pusha`. -/
lemma saved_fields (m : Machine) (esp0 stub : Word) :
    (∀ r, r ≠ .cs → r ≠ .ss → (saved m esp0 stub).seg r = m.seg r) ∧ (saved m esp0 stub).cpl = 0#2 ∧
      (m.cpl = 0#2 → (saved m esp0 stub).seg .ss = m.seg .ss ∧
        (saved m esp0 stub).reg .esp + 44#32 = m.reg .esp) := by
  have hseg : (saved m esp0 stub).seg = (interrupt m esp0 0x10#16 0x08#16 stub).seg := rfl
  obtain ⟨-, hesp, -, hIseg⟩ := interrupt_fields m esp0 0x10#16 0x08#16 stub
  refine ⟨fun r h₁ h₂ => ?_, ?_, fun hcpl => ?_⟩
  · rw [hseg, hIseg r h₂ h₁]
  · have hcs : (interrupt m esp0 0x10#16 0x08#16 stub).seg .cs = 0x08#16 := by
      simp [interrupt, Machine.setSeg]
    rw [Machine.cpl, hseg, hcs]
    rfl
  · have hstack : enterStack m esp0 0x10#16 = m := if_pos hcpl
    refine ⟨?_, ?_⟩
    · change (enterStack m esp0 0x10#16).seg .ss = _
      rw [hstack]
    · rw [saved, exec_pusha_interrupt, Machine.reg_pushAll, Function.update_self, hesp, hstack]
      simp only [pushaWords, List.length_cons, List.length_nil]
      bv_omega

/-- Writing back what is there changes nothing. -/
lemma setReg_self (m : Machine) (r : Reg) : m.setReg r (m.reg r) = m := by
  rw [Machine.setReg, Function.update_eq_self]

/-- The saved `%eax`. -/
lemma stackWord_saved_eax (m : Machine) (esp0 stub : Word) :
    (saved m esp0 stub).stackWord 7 = m.reg .eax := by
  refine stackWord_frame esp0 0x10#16 0x08#16 stub ?_
  rw [List.reverse_append]
  rfl

/-- **Going on after a stub**: when the saved registers, of which `r` is the saved `%eax`, are on
top of the stack again and the segment registers are those of the interrupted code, `popa` and
`iret` lead back to it. -/
lemma same_of_frame {r : Word} (esp0 stub : Word)
    (hesp : m₂.reg .esp = (saved m esp0 stub).reg .esp)
    (hcs : m₂.cpl = 0#2) (hss : m.cpl = 0#2 → m₂.seg .ss = m.seg .ss)
    (hseg : ∀ q, q ≠ .cs → q ≠ .ss → m₂.seg q = m.seg q)
    (hwords : ∀ i < frameWords m,
      m₂.stackWord i = if i = 7 then r else (saved m esp0 stub).stackWord i) :
    ∃ m', iret m₂.popAll = some m' ∧ Same (m.setReg .eax r) m' := by
  obtain ⟨-, -, hring0⟩ := saved_fields m esp0 stub
  have hframe : OnFrame (m.setReg .eax r) m₂ := by
    refine ⟨hcs, ⟨(interrupt m esp0 0x10#16 0x08#16 stub).reg .esp, fun i w hw => ?_⟩,
      fun hcpl => ?_⟩
    · set top := (interrupt m esp0 0x10#16 0x08#16 stub).reg .esp with htop
      have hset : (entryWords (m.setReg .eax r) ++ pushaWords (m.setReg .eax r) top).reverse =
          (entryWords m ++ pushaWords m top).reverse.set 7 r := by
        have hentry : entryWords (m.setReg .eax r) = entryWords m := rfl
        rw [hentry, List.reverse_append, List.reverse_append]
        rfl
      have hlen : (entryWords m ++ pushaWords m top).reverse.length = frameWords m := by
        unfold entryWords frameWords
        split_ifs <;> rfl
      rw [hset] at hw
      have hi : i < frameWords m := by
        have := (List.getElem?_eq_some_iff.mp hw).1
        rwa [List.length_set, hlen] at this
      rw [hwords i hi]
      split_ifs with h7
      · subst h7
        rw [List.getElem?_set_self (by rw [hlen]; exact hi)] at hw
        exact Option.some.inj hw
      · rw [List.getElem?_set_ne (Ne.symm h7)] at hw
        exact stackWord_frame esp0 0x10#16 0x08#16 stub hw
    · rw [hesp]
      exact (hring0 hcpl).2
  obtain ⟨m', hret, hreg, heip, heflags, hcs', hss', hseg'⟩ := iret_popa hframe
  refine ⟨m', hret, hreg, ?_, heip, heflags⟩
  funext q
  by_cases h₁ : q = .cs
  · rw [h₁, hcs']
  by_cases h₂ : q = .ss
  · rw [h₂, hss']
    split_ifs with hcpl
    · exact hss hcpl
    · rfl
  · rw [hseg' q h₁ h₂]
    exact hseg q h₁ h₂

/-! ## The stubs -/

/-- `irq1_stub` after its call of `keyboard_interrupt_handler`, before its `iret`. -/
def irq1Exit : List Op := [.popa]

/-- `irq0_stub` after its call of `timer_interrupt_handler`. -/
def irq0Exit : List Op := [.addImm 8#32 .esp, .popa]

/-- `syscall_stub` up to its call of `syscall_handler`. -/
def syscallEntry : List Op :=
  syscallStub.map .instr ++
    [.movwImm 0x10#16 .eax, .instr (.movToSeg .eax .ds), .instr (.movToSeg .eax .es),
      .instr (.movToSeg .eax .fs), .instr (.movToSeg .eax .gs),
      .lea 12#32 .esp .eax, .instr (.pushReg .eax)]

/-- `syscall_stub` after its call of `syscall_handler`. -/
def syscallExit : List Op :=
  [.addImm 4#32 .esp,
    .pop .eax, .instr (.movToSeg .eax .gs), .pop .eax, .instr (.movToSeg .eax .fs),
    .pop .eax, .instr (.movToSeg .eax .es), .pop .eax, .instr (.movToSeg .eax .ds),
    .popa]

/-- What a stub has pushed after `pusha` lies above the frame, which is found again when it is
dropped. -/
lemma stackWord_of_pushed {P : Machine} {vs : List Word}
    (hmem : P.mem = ((saved m esp0 stub).pushAll vs).mem)
    (hesp : P.reg .esp = ((saved m esp0 stub).pushAll vs).reg .esp)
    (hlen : 4 * (vs.length + i + 1) ≤ 2 ^ 32) :
    P.stackWord (vs.length + i) = (saved m esp0 stub).stackWord i := by
  rw [Machine.stackWord_congr hmem hesp]
  exact Machine.stackWord_pushAll_add _ vs i hlen

/-- **The keyboard interrupt is transparent.** Whatever code is interrupted, in either ring: when
`keyboard_interrupt_handler` returns, the code goes on with every register it had. -/
theorem irq1_transparent {m m₂ : Machine} {esp0 stub : Word}
    (hret : Returned (saved m esp0 stub) m₂ (saved m esp0 stub).stackWord 0 (frameWords m)) :
    ∃ m', iret (runOps m₂ irq1Exit) = some m' ∧ Same m m' := by
  obtain ⟨hseg, hcpl, hring0⟩ := saved_fields m esp0 stub
  rw [← setReg_self m .eax]
  refine same_of_frame esp0 stub hret.esp ?_ ?_ ?_ ?_
  · rw [Machine.cpl, hret.seg]
    exact hcpl
  · rw [hret.seg]
    exact fun h => (hring0 h).1
  · rw [hret.seg]
    exact hseg
  · intro i hi
    rw [hret.words i (Nat.zero_le i) hi]
    split_ifs with h7
    · rw [h7, stackWord_saved_eax]
    · rfl

/-- What `irq0_stub` pushes after `pusha`. -/
lemma timerInterrupt_eq (m : Machine) (esp0 irq0 : Word) :
    timerInterrupt m esp0 irq0 = run (saved m esp0 irq0) (irq0Stub.drop 1) := by
  have hcode : irq0Stub = .pusha :: irq0Stub.drop 1 := rfl
  rw [timerInterrupt, hcode, saved, run, List.foldl_cons]
  rfl

/-- `irq0_stub` pushes two words after `pusha`. -/
lemma run_irq0Stub (m : Machine) : ∃ v₀ v₁ : Word,
    (run m (irq0Stub.drop 1)).mem = (m.pushAll [v₀, v₁]).mem ∧
      (run m (irq0Stub.drop 1)).reg .esp = (m.pushAll [v₀, v₁]).reg .esp ∧
      (run m (irq0Stub.drop 1)).seg = m.seg := by
  set X := exec (exec m (.xorSelf .eax)) (.movFromSeg .ds .eax) with hX
  have hesp : X.reg .esp = m.reg .esp := by
    simp [hX, exec, Machine.setLow, Machine.setReg]
  have hrun : run m (irq0Stub.drop 1) = X.pushAll [X.reg .eax, X.reg .esp - 4#32] := rfl
  rw [hrun]
  refine ⟨X.reg .eax, X.reg .esp - 4#32, Machine.mem_pushAll_congr _ hesp rfl, ?_, ?_⟩
  · rw [Machine.reg_pushAll, Machine.reg_pushAll, Function.update_self, Function.update_self, hesp]
  · rw [(Machine.fields_pushAll _ _).1]
    rfl

/-- **A timer interrupt that dispatches no other task is transparent.** When
`timer_interrupt_handler` returns, the interrupted code goes on with every register it had. -/
theorem irq0_transparent {m m₂ : Machine} {esp0 irq0 : Word}
    (hret : Returned (timerInterrupt m esp0 irq0) m₂ (timerInterrupt m esp0 irq0).stackWord 1
      (2 + frameWords m)) :
    ∃ m', iret (runOps m₂ irq0Exit) = some m' ∧ Same m m' := by
  obtain ⟨hseg, hcpl, hring0⟩ := saved_fields m esp0 irq0
  obtain ⟨v₀, v₁, hmem, hesp, hTseg⟩ := run_irq0Stub (saved m esp0 irq0)
  rw [← timerInterrupt_eq] at hmem hesp hTseg
  have hrun : runOps m₂ irq0Exit = (execOp m₂ (.addImm 8#32 .esp)).popAll := rfl
  have hseg₃ : (execOp m₂ (.addImm 8#32 .esp)).seg = (saved m esp0 irq0).seg := by
    rw [← hTseg, ← hret.seg]
    rfl
  have hesp₃ : (execOp m₂ (.addImm 8#32 .esp)).reg .esp = m₂.reg .esp + 8#32 :=
    m₂.reg_setReg_self .esp _
  rw [hrun, ← setReg_self m .eax]
  refine same_of_frame esp0 irq0 ?_ ?_ ?_ ?_ ?_
  · rw [hesp₃, hret.esp, hesp, Machine.reg_pushAll, Function.update_self]
    simp only [List.length_cons, List.length_nil]
    bv_omega
  · rw [Machine.cpl, hseg₃]
    exact hcpl
  · rw [hseg₃]
    exact fun h => (hring0 h).1
  · rw [hseg₃]
    exact hseg
  · intro i hi
    have hbound : frameWords m ≤ 13 := by
      unfold frameWords
      split_ifs <;> omega
    have hword : (execOp m₂ (.addImm 8#32 .esp)).stackWord i = m₂.stackWord (2 + i) :=
      m₂.stackWord_dropWords 2 i
    have hlen : [v₀, v₁].length = 2 := rfl
    have hframe := stackWord_of_pushed (i := i) hmem hesp (by rw [hlen]; omega)
    rw [hlen] at hframe
    rw [hword, hret.words (2 + i) (by omega) (by omega), hframe]
    split_ifs with h7
    · rw [h7, stackWord_saved_eax]
    · rfl

/-- User code in front of a system call, with its number in `%eax`. -/
def calling : Machine where
  reg := fun r => if r = .esp then 0x3000#32 else 4#32
  seg := fun r => if r = .cs then 0x23#16 else 0x1B#16
  eip := 0x1000#32
  eflags := 0x202#32
  mem := fun _ => 0#8

/-- A handler that leaves something in `%eax` and returns. -/
lemma returned_eax (m : Machine) (r : Word) (k n : ℕ) :
    Returned m (m.setReg .eax r) m.stackWord k n := by
  have hesp : (m.setReg .eax r).reg .esp = m.reg .esp := by simp [Machine.setReg]
  exact ⟨hesp, rfl, fun i _ _ => Machine.stackWord_congr rfl hesp i⟩

/-- The timer interrupts it. -/
theorem irq0_transparent_calling : ∃ m',
    iret (runOps ((timerInterrupt calling 0xC0404F44#32 0#32).setReg .eax 7#32) irq0Exit) =
      some m' ∧
      Same calling m' :=
  irq0_transparent
    (returned_eax (timerInterrupt calling 0xC0404F44#32 0#32) 7#32 1 (2 + frameWords calling))

/-! ## System calls -/

/-- The machine when `syscall_stub` calls `syscall_handler`. -/
def syscallCall (m : Machine) (esp0 stub : Word) : Machine :=
  runOps (interrupt m esp0 0x10#16 0x08#16 stub) syscallEntry

/-- The segment registers in the order in which `syscall_stub` pushes them. -/
def savedSegs : List Seg := [.ds, .es, .fs, .gs]

/-- The rest of `syscallEntry`: the kernel's data segments are loaded, and the argument is pushed.
-/
def syscallArgument : List Op :=
  [.movwImm 0x10#16 .eax, .instr (.movToSeg .eax .ds), .instr (.movToSeg .eax .es),
    .instr (.movToSeg .eax .fs), .instr (.movToSeg .eax .gs), .lea 12#32 .esp .eax,
      .instr (.pushReg .eax)]

/-- It pushes one word. -/
lemma runOps_syscallArgument (Y : Machine) : ∃ a : Word,
    (runOps Y syscallArgument).mem = (Y.push a).mem ∧
      (runOps Y syscallArgument).reg .esp = (Y.push a).reg .esp ∧
      (runOps Y syscallArgument).seg .cs = Y.seg .cs ∧
        (runOps Y syscallArgument).seg .ss = Y.seg .ss := by
  set Z := runOps Y (syscallArgument.take 6) with hZ
  have hesp : Z.reg .esp = Y.reg .esp := by
    simp [hZ, runOps, syscallArgument, execOp, exec, Machine.setLow, Machine.setReg, Machine.setSeg]
  have hseg (q : Seg) (h : q = .cs ∨ q = .ss) : Z.seg q = Y.seg q := by
    rcases h with rfl | rfl <;>
      simp [hZ, runOps, syscallArgument, execOp, exec, Machine.setLow, Machine.setReg,
        Machine.setSeg]
  have hrun : runOps Y syscallArgument = Z.push (Z.reg .eax) := rfl
  have hpush : (Z.push (Z.reg .eax)).seg = Z.seg := rfl
  rw [hrun, hpush]
  refine ⟨Z.reg .eax, Machine.mem_pushAll_congr [_] hesp rfl, ?_, hseg .cs (.inl rfl),
    hseg .ss (.inr rfl)⟩
  simp [Machine.push, hesp]

/-- `syscall_stub` in two steps. -/
lemma runOps_syscallEntry (I : Machine) : runOps I syscallEntry =
    runOps (run (exec (exec I .pusha) (.xorSelf .eax)) (pushSegs savedSegs)) syscallArgument := by
  have hsplit : syscallEntry = syscallStub.map .instr ++ syscallArgument := rfl
  have hcode : syscallStub = .pusha :: .xorSelf .eax :: pushSegs savedSegs := rfl
  have hrun : runOps I (syscallStub.map .instr) = run I syscallStub := List.foldl_map
  have happend : runOps I (syscallStub.map .instr ++ syscallArgument) =
      runOps (runOps I (syscallStub.map .instr)) syscallArgument := List.foldl_append
  rw [hsplit, happend, hrun, hcode, run, List.foldl_cons, List.foldl_cons]
  rfl

/-- The words that `syscall_stub` pushes after `pusha`: the segment registers and its argument. -/
lemma syscallCall_eq (m : Machine) (esp0 stub : Word) : ∃ a : Word,
    (syscallCall m esp0 stub).mem =
        ((saved m esp0 stub).pushAll
          (savedSegs.map (fun q => ((saved m esp0 stub).seg q).setWidth 32) ++ [a])).mem ∧
      (syscallCall m esp0 stub).reg .esp =
        ((saved m esp0 stub).pushAll
          (savedSegs.map (fun q => ((saved m esp0 stub).seg q).setWidth 32) ++ [a])).reg .esp ∧
      (syscallCall m esp0 stub).seg .cs = (saved m esp0 stub).seg .cs ∧
      (syscallCall m esp0 stub).seg .ss = (saved m esp0 stub).seg .ss := by
  unfold syscallCall saved
  generalize interrupt m esp0 0x10#16 0x08#16 stub = I
  rw [runOps_syscallEntry]
  generalize exec I .pusha = S
  have heax : ((exec S (.xorSelf .eax)).reg .eax).extractLsb' 16 16 = 0#16 := by
    simp [exec, Machine.setReg]
  have hesp : (exec S (.xorSelf .eax)).reg .esp = S.reg .esp := by
    simp [exec, Machine.setReg]
  have hXmem : (exec S (.xorSelf .eax)).mem = S.mem := rfl
  have hXseg : (exec S (.xorSelf .eax)).seg = S.seg := rfl
  obtain ⟨hmem, hsp, hseg⟩ := run_pushSegs savedSegs heax
  rw [hXseg] at hmem hsp hseg
  generalize exec S (.xorSelf .eax) = X at *
  generalize run X (pushSegs savedSegs) = Y at *
  obtain ⟨a, hmem', hsp', hcs, hss⟩ := runOps_syscallArgument Y
  refine ⟨a, ?_, ?_, ?_, ?_⟩
  · rw [hmem', ← Machine.pushAll_append]
    refine Machine.mem_pushAll_congr [a] ?_ ?_
    · rw [hsp, Machine.reg_pushAll, Machine.reg_pushAll, Function.update_self,
        Function.update_self, hesp]
    · rw [hmem]
      exact Machine.mem_pushAll_congr _ hesp hXmem
  · have hpush : (Y.push a).reg .esp = Y.reg .esp - 4#32 := by simp [Machine.push]
    rw [hsp', hpush, hsp, Machine.reg_pushAll, Machine.reg_pushAll, Function.update_self,
      Function.update_self,
      hesp]
    simp only [savedSegs, List.map_cons, List.map_nil, List.length_append, List.length_cons,
      List.length_nil]
    bv_omega
  · rw [hcs, hseg]
  · rw [hss, hseg]

/-- What the end of `syscall_stub` does before its `popa`: the argument is dropped, and each segment
register is loaded from the low half of its word. -/
lemma syscallExit_eq (m₂ : Machine) : ∃ Z : Machine, runOps m₂ syscallExit = Z.popAll ∧
    Z.reg .esp = m₂.reg .esp + 20#32 ∧ (∀ i, Z.stackWord i = m₂.stackWord (5 + i)) ∧
      Z.seg .cs = m₂.seg .cs ∧ Z.seg .ss = m₂.seg .ss ∧
      ∀ i q, savedSegs.reverse[i]? = some q → Z.seg q = (m₂.stackWord (1 + i)).setWidth 16 := by
  set Y := execOp m₂ (.addImm 4#32 .esp)
  have hYesp : Y.reg .esp = m₂.reg .esp + 4#32 := m₂.reg_setReg_self .esp _
  have hYword (i : ℕ) : Y.stackWord i = m₂.stackWord (1 + i) := m₂.stackWord_dropWords 1 i
  obtain ⟨hmem, hesp, hkeep, hload⟩ := runOps_popSegs savedSegs.reverse Y
  have hrun : runOps m₂ syscallExit = (runOps Y (popSegs savedSegs.reverse)).popAll := rfl
  refine ⟨_, hrun, ?_, fun i => ?_, hkeep .cs (by decide), hkeep .ss (by decide), fun i q hq => ?_⟩
  · rw [hesp, hYesp]
    simp only [savedSegs, List.length_reverse, List.length_cons, List.length_nil]
    bv_omega
  · have hmem' : (runOps Y (popSegs savedSegs.reverse)).mem = (Y.dropWords 4).mem := hmem
    have hesp' : (runOps Y (popSegs savedSegs.reverse)).reg .esp = (Y.dropWords 4).reg .esp := hesp
    rw [Machine.stackWord_congr hmem' hesp', Machine.stackWord_dropWords, hYword, ← Nat.add_assoc]
  · rw [hload (by decide) i q hq, hYword]

/-- **A system call changes `%eax` only.** When `syscall_handler` returns, having put `r` in place
of the saved `%eax`, the code that called goes on with `r` in `%eax` and every other register as it
was, the segment registers included. -/
theorem syscall_returns {m m₂ : Machine} {esp0 stub r : Word}
    (hret : Returned (syscallCall m esp0 stub) m₂
      (fun i => if i = 12 then r else (syscallCall m esp0 stub).stackWord i) 1 (5 + frameWords m)) :
    ∃ m', iret (runOps m₂ syscallExit) = some m' ∧ Same (m.setReg .eax r) m' := by
  obtain ⟨hseg, hcpl, hring0⟩ := saved_fields m esp0 stub
  obtain ⟨a, hmem, hesp, hcs, hss⟩ := syscallCall_eq m esp0 stub
  obtain ⟨Z, hrun, hZesp, hZword, hZcs, hZss, hZload⟩ := syscallExit_eq m₂
  generalize hvs : savedSegs.map (fun q => ((saved m esp0 stub).seg q).setWidth 32) ++ [a] = vs
    at hmem hesp
  have hlen : vs.length = 5 := by
    rw [← hvs]
    rfl
  have hbound : frameWords m ≤ 13 := by
    unfold frameWords
    split_ifs <;> omega
  -- a segment register is loaded from the word its selector was pushed as
  have hsaved {i : ℕ} {q : Seg} (hq : savedSegs.reverse[i]? = some q) (h₁ : q ≠ .cs)
      (h₂ : q ≠ .ss) :
      Z.seg q = m.seg q := by
    have hi : i < 4 := (List.getElem?_eq_some_iff.mp hq).1
    have hword : (syscallCall m esp0 stub).stackWord (1 + i) = (m.seg q).setWidth 32 := by
      rw [Machine.stackWord_congr hmem hesp]
      refine Machine.stackWord_pushAll ?_ (by rw [hlen]; omega)
      rw [← hvs, List.reverse_append, ← List.map_reverse, List.reverse_singleton,
        List.singleton_append,
        Nat.add_comm, List.getElem?_cons_succ, List.getElem?_map, hq, Option.map_some, hseg q h₁ h₂]
    have hne : 1 + i ≠ 12 := by omega
    rw [hZload i q hq, hret.words (1 + i) (by omega) (by omega), if_neg hne, hword]
    simp
  rw [hrun]
  refine same_of_frame esp0 stub ?_ ?_ ?_ ?_ ?_
  · rw [hZesp, hret.esp, hesp, Machine.reg_pushAll, Function.update_self, hlen]
    bv_omega
  · rw [Machine.cpl, hZcs, hret.seg, hcs]
    exact hcpl
  · rw [hZss, hret.seg, hss]
    exact fun h => (hring0 h).1
  · intro q h₁ h₂
    cases q with
    | gs => exact hsaved (i := 0) rfl h₁ h₂
    | fs => exact hsaved (i := 1) rfl h₁ h₂
    | es => exact hsaved (i := 2) rfl h₁ h₂
    | ds => exact hsaved (i := 3) rfl h₁ h₂
    | cs => exact absurd rfl h₁
    | ss => exact absurd rfl h₂
  · intro i hi
    have hframe := stackWord_of_pushed (i := i) hmem hesp (by rw [hlen]; omega)
    rw [hlen] at hframe
    have h7 : 5 + i = 12 ↔ i = 7 := by omega
    rw [hZword, hret.words (5 + i) (by omega) (by omega), hframe]
    simp only [h7]

/-- The call returns 5. -/
theorem syscall_returns_calling : ∃ m',
    iret (runOps
      { syscallCall calling 0xC0404F44#32 0#32 with
        mem := store32 (syscallCall calling 0xC0404F44#32 0#32).mem
          ((syscallCall calling 0xC0404F44#32 0#32).reg .esp + BitVec.ofNat 32 (4 * 12)) 5#32 }
            syscallExit) =
      some m' ∧ Same (calling.setReg .eax 5#32) m' := by
  have hret : Returned (syscallCall calling 0xC0404F44#32 0#32) _
      (fun i => if i = 12 then 5#32 else (syscallCall calling 0xC0404F44#32 0#32).stackWord i) 1
      (5 + frameWords calling) := returned_store (by decide)
  exact syscall_returns hret

end AlphaOS
