import AlphaOS.Lib.X86
import Mathlib.Tactic.Set

set_option relaxedAutoImplicit false
set_option autoImplicit false

/-!
# Interrupt handlers that return

The other half of an interrupt handler's code: it calls a function, takes what it has pushed off the
stack again and returns with `iret`. The function is any code that keeps the calling convention: it
gives the stack pointer and the segment registers back and leaves the words above its return address
alone, but for those it is handed.

## Main definitions

* `X86.Op`, `X86.runOps` — the instructions of `X86.Instr` with those that pop, and immediate
  operands.
* `X86.Returned` — a function called in one machine state has returned in another.
* `X86.entryWords` — the words an interrupt pushes.

## Main results

* `X86.stackWord_interrupt` — where the words pushed by an interrupt and by its handler are found.
* `X86.run_pushSegs` — the code that saves the segment registers.
* `X86.iret_popa` — a handler that ends in `popa` and `iret` above an intact frame gives back every
  register of the interrupted code.
-/

namespace X86

/-! ## Instructions that pop -/

/-- The straight-line instructions of interrupt handlers, operands in the order of the assembler's
listing. -/
inductive Op
  /-- An instruction of the other half. -/
  | instr (i : Instr)
  /-- `push $imm` -/
  | pushImm (v : BitVec 32)
  /-- `movw $imm, %dst` -/
  | movwImm (v : BitVec 16) (dst : Reg)
  /-- `leal off(%base), %dst` -/
  | lea (off : BitVec 32) (base dst : Reg)
  /-- `addl $imm, %dst` -/
  | addImm (v : BitVec 32) (dst : Reg)
  /-- `popl %dst` -/
  | pop (dst : Reg)
  /-- `popa` -/
  | popa
deriving DecidableEq, Repr

/-- A flag at its place in `%eflags`. -/
def flag (b : Bool) (i : ℕ) : BitVec 32 := if b then 1#32 <<< i else 0#32

/-- The carry, parity, adjust, zero, sign and overflow flags of an addition. -/
def addFlags (a b : BitVec 32) : BitVec 32 :=
  flag (2 ^ 32 ≤ a.toNat + b.toNat) 0 |||
    flag ((List.range 8).countP (fun i => (a + b).getLsbD i) % 2 == 0) 2 |||
    flag (16 ≤ a.toNat % 16 + b.toNat % 16) 4 ||| flag (a + b == 0#32) 6 ||| flag (a + b).msb 7 |||
    flag (a.msb == b.msb && (a + b).msb != a.msb) 11

namespace Machine

/-- The word `i` words above the stack pointer. -/
def stackWord (m : Machine) (i : ℕ) : BitVec 32 :=
  load32 m.mem (m.reg .esp + BitVec.ofNat 32 (4 * i))

/-- Take `n` words off the stack. -/
def dropWords (m : Machine) (n : ℕ) : Machine :=
  m.setReg .esp (m.reg .esp + BitVec.ofNat 32 (4 * n))

/-- `popa` loads seven registers and skips the word of the stack pointer. -/
def popAll (m : Machine) : Machine :=
  (((((((m.dropWords 8).setReg .edi (m.stackWord 0)).setReg .esi (m.stackWord 1)).setReg .ebp
    (m.stackWord 2)).setReg .ebx (m.stackWord 4)).setReg .edx (m.stackWord 5)).setReg .ecx
    (m.stackWord 6)).setReg .eax (m.stackWord 7)

end Machine

/-- One instruction. -/
def execOp (m : Machine) : Op → Machine
  | .instr i => exec m i
  | .pushImm v => m.push v
  | .movwImm v dst => m.setLow dst v
  | .lea off base dst => m.setReg dst (m.reg base + off)
  | .addImm v dst =>
    { m.setReg dst (m.reg dst + v) with
      eflags := (m.eflags &&& ~~~0x8D5#32) ||| addFlags (m.reg dst) v }
  | .pop dst => (m.dropWords 1).setReg dst (m.stackWord 0)
  | .popa => m.popAll

/-- Straight-line code. -/
def runOps (m : Machine) (code : List Op) : Machine := code.foldl execOp m

/-- Pushing the selectors of some segment registers by way of `%eax`. -/
def pushSegs (segs : List Seg) : List Instr :=
  segs.flatMap fun q => [.movFromSeg q .eax, .pushReg .eax]

/-- Popping them again. -/
def popSegs (segs : List Seg) : List Op :=
  segs.flatMap fun q => [.pop .eax, .instr (.movToSeg .eax q)]

/-- A function called in the state `m` with `k` arguments on the stack has returned in the state
`m'`: the stack pointer and the segment registers are back, and of the `n` words on top of the stack
those that are no arguments are the ones given. -/
structure Returned (m m' : Machine) (words : ℕ → BitVec 32) (k n : ℕ) : Prop where
  esp : m'.reg .esp = m.reg .esp
  seg : m'.seg = m.seg
  words : ∀ i, k ≤ i → i < n → m'.stackWord i = words i

/-! ## The words on the stack -/

namespace Machine

variable {m m' : Machine} {v w : BitVec 32} {vs : List (BitVec 32)} {i : ℕ}

/-- The register that is written. -/
lemma reg_setReg_self (m : Machine) (r : Reg) (v : BitVec 32) : (m.setReg r v).reg r = v :=
  Function.update_self _ _ _

/-- The words on the stack depend on the stack pointer and the memory only. -/
lemma stackWord_congr (hmem : m.mem = m'.mem) (hesp : m.reg .esp = m'.reg .esp) (i : ℕ) :
    m.stackWord i = m'.stackWord i := by
  rw [stackWord, stackWord, hmem, hesp]

/-- **The words pushed are on the stack**, the last one on top. -/
lemma stackWord_pushAll (hi : vs.reverse[i]? = some w) (hlen : 4 * vs.length ≤ 2 ^ 32) :
    (m.pushAll vs).stackWord i = w := by
  have hlt : i < vs.length := by
    have := (List.getElem?_eq_some_iff.mp hi).1
    rwa [List.length_reverse] at this
  rw [List.getElem?_reverse hlt] at hi
  refine load32_pushAll hi ?_ hlen
  have hsum : 4 * i + 4 * (vs.length - 1 - i + 1) = 4 * vs.length := by omega
  rw [reg_pushAll, Function.update_self, BitVec.add_assoc, ← BitVec.ofNat_add, hsum]
  bv_omega

/-- Below the words pushed last there are those of before. -/
lemma stackWord_pushAll_add (m : Machine) (vs : List (BitVec 32)) (i : ℕ)
    (hlen : 4 * (vs.length + i + 1) ≤ 2 ^ 32) :
      (m.pushAll vs).stackWord (vs.length + i) = m.stackWord i := by
  have haddr : (m.pushAll vs).reg .esp + BitVec.ofNat 32 (4 * (vs.length + i)) =
      m.reg .esp + BitVec.ofNat 32 (4 * i) := by
    rw [reg_pushAll, Function.update_self, Nat.mul_add, BitVec.ofNat_add]
    bv_omega
  rw [stackWord, haddr]
  exact load32_pushAll_above rfl hlen

/-- Dropping words moves the stack pointer only. -/
lemma reg_dropWords (m : Machine) (n : ℕ) :
    (m.dropWords n).reg = Function.update m.reg .esp (m.reg .esp + BitVec.ofNat 32 (4 * n)) := rfl

/-- Taking words off the stack uncovers those below. -/
lemma stackWord_dropWords (m : Machine) (n i : ℕ) :
    (m.dropWords n).stackWord i = m.stackWord (n + i) := by
  rw [stackWord, reg_dropWords, Function.update_self, stackWord, BitVec.add_assoc,
    ← BitVec.ofNat_add,
    ← Nat.mul_add]
  rfl

end Machine

/-- A function that writes to the word `j` of those above its return address has returned with that
word changed. -/
lemma returned_store {m : Machine} {v : BitVec 32} {j k n : ℕ} (hj : j ≤ 2 ^ 10 ∧ n ≤ 2 ^ 10) :
    Returned m { m with mem := store32 m.mem (m.reg .esp + BitVec.ofNat 32 (4 * j)) v }
      (fun i => if i = j then v else m.stackWord i) k n := by
  refine ⟨rfl, rfl, fun i _ hi => ?_⟩
  rw [Machine.stackWord]
  split_ifs with h
  · rw [h]
    exact load32_store32_self _ _ _
  · refine load32_store32_of_apart _ _ ?_
    have hi' : (BitVec.ofNat 32 (4 * i)).toNat = 4 * i := by
      rw [BitVec.toNat_ofNat, Nat.mod_eq_of_lt (by omega)]
    have hj' : (BitVec.ofNat 32 (4 * j)).toNat = 4 * j := by
      rw [BitVec.toNat_ofNat, Nat.mod_eq_of_lt (by omega)]
    generalize BitVec.ofNat 32 (4 * i) = a at hi' ⊢
    generalize BitVec.ofNat 32 (4 * j) = b at hj' ⊢
    constructor <;> bv_omega

/-! ## Segment registers on the stack -/

/-- **Pushing segment registers.** Each becomes a word, as far as the high half of `%eax` is zero.
-/
lemma run_pushSegs (segs : List Seg) {m : Machine} (heax : (m.reg .eax).extractLsb' 16 16 = 0#16) :
    (run m (pushSegs segs)).mem = (m.pushAll (segs.map fun q => (m.seg q).setWidth 32)).mem ∧
      (run m (pushSegs segs)).reg .esp =
        (m.pushAll (segs.map fun q => (m.seg q).setWidth 32)).reg .esp ∧
      (run m (pushSegs segs)).seg = m.seg := by
  induction segs generalizing m with
  | nil => exact ⟨rfl, rfl, rfl⟩
  | cons q segs ih =>
    set v : BitVec 32 := (m.seg q).setWidth 32 with hv
    set m₁ := exec (exec m (.movFromSeg q .eax)) (.pushReg .eax) with hm₁
    have hrun : run m (pushSegs (q :: segs)) = run m₁ (pushSegs segs) := rfl
    have hword : (exec m (.movFromSeg q .eax)).reg .eax = v := by
      have hhalf : 0#16 = (0#32).extractLsb' 16 16 := rfl
      rw [exec, Machine.setLow, Machine.reg_setReg_self, heax, hhalf]
      exact zero_append (m.seg q)
    have hesp : (exec m (.movFromSeg q .eax)).reg .esp = m.reg .esp := by
      simp [exec, Machine.setLow, Machine.setReg]
    have heax₁ : (m₁.reg .eax).extractLsb' 16 16 = 0#16 := by
      have hkeep : m₁.reg .eax = (exec m (.movFromSeg q .eax)).reg .eax := by
        simp [hm₁, exec, Machine.push]
      rw [hkeep, hword, hv]
      ext i hi
      simp [BitVec.getElem_extractLsb']
    have hesp₁ : m₁.reg .esp = (m.push v).reg .esp := by
      simp only [hm₁, exec, Machine.push, Function.update_self] at hesp ⊢
      rw [hesp]
    have hmem₁ : m₁.mem = (m.push v).mem := by
      have hpush : m₁.mem =
          ((exec m (.movFromSeg q .eax)).push ((exec m (.movFromSeg q .eax)).reg .eax)).mem := rfl
      rw [hpush, hword]
      exact Machine.mem_pushAll_congr [v] hesp rfl
    obtain ⟨hmem, hsp, hseg⟩ := ih heax₁
    have hseg₁ : m₁.seg = m.seg := rfl
    rw [hseg₁] at hmem hsp hseg
    rw [hrun, List.map_cons, Machine.pushAll_cons]
    refine ⟨hmem.trans (Machine.mem_pushAll_congr _ hesp₁ hmem₁), ?_, hseg⟩
    rw [hsp, Machine.reg_pushAll, Machine.reg_pushAll, Function.update_self,
      Function.update_self, hesp₁]

/-- **Popping segment registers.** Each takes the low half of its word; the others stay. -/
lemma runOps_popSegs (segs : List Seg) (m : Machine) :
    (runOps m (popSegs segs)).mem = m.mem ∧
      (runOps m (popSegs segs)).reg .esp = m.reg .esp + BitVec.ofNat 32 (4 * segs.length) ∧
      (∀ q, q ∉ segs → (runOps m (popSegs segs)).seg q = m.seg q) ∧
      (segs.Nodup → ∀ i q, segs[i]? = some q →
        (runOps m (popSegs segs)).seg q = (m.stackWord i).setWidth 16) := by
  induction segs generalizing m with
  | nil =>
    refine ⟨rfl, ?_, fun _ _ => rfl, fun _ i q hi => ?_⟩
    · exact (BitVec.add_zero _).symm
    · simp at hi
  | cons q segs ih =>
    set m₁ := execOp (execOp m (.pop .eax)) (.instr (.movToSeg .eax q)) with hm₁
    have hrun : runOps m (popSegs (q :: segs)) = runOps m₁ (popSegs segs) := rfl
    have hmem₁ : m₁.mem = (m.dropWords 1).mem := rfl
    have hesp₁ : m₁.reg .esp = (m.dropWords 1).reg .esp := rfl
    have hseg₁ : m₁.seg = Function.update m.seg q ((m.stackWord 0).setWidth 16) := rfl
    obtain ⟨hmem, hesp, hkeep, hload⟩ := ih m₁
    refine ⟨?_, ?_, fun r hr => ?_, fun hnodup i r hi => ?_⟩
    · rw [hrun, hmem]
      rfl
    · rw [hrun, hesp, hesp₁, Machine.reg_dropWords, Function.update_self, BitVec.add_assoc,
        ← BitVec.ofNat_add,
        List.length_cons]
      congr 2
      omega
    · rw [List.mem_cons, not_or] at hr
      rw [hrun, hkeep r hr.2, hseg₁, Function.update_of_ne hr.1]
    · obtain ⟨hq, hnodup⟩ := List.nodup_cons.mp hnodup
      rw [hrun]
      cases i with
      | zero =>
        obtain rfl : q = r := by simpa using hi
        rw [hkeep q hq, hseg₁, Function.update_self]
      | succ i =>
        rw [hload hnodup i r (by simpa using hi), Machine.stackWord_congr hmem₁ hesp₁,
          Machine.stackWord_dropWords, Nat.add_comm]

section Entry

variable {m m₂ : Machine} {esp0 handler : BitVec 32} {ss0 gateCs : BitVec 16}
    {vs : List (BitVec 32)}
  {i : ℕ}

/-- The words an interrupt pushes, the first one first. -/
def entryWords (m : Machine) : List (BitVec 32) :=
  (if m.cpl = 0#2 then [] else [(m.seg .ss).setWidth 32, m.reg .esp]) ++
    [m.eflags, (m.seg .cs).setWidth 32, m.eip]

/-- The words `pusha` pushes; `top` is the stack pointer it finds. -/
def pushaWords (m : Machine) (top : BitVec 32) : List (BitVec 32) :=
  [m.reg .eax, m.reg .ecx, m.reg .edx, m.reg .ebx, top, m.reg .ebp, m.reg .esi, m.reg .edi]

/-- The stack they are pushed on. -/
def entryStack (m : Machine) (esp0 : BitVec 32) : BitVec 32 :=
  if m.cpl = 0#2 then m.reg .esp else esp0

/-- **What an interrupt and the handler's pushes leave in memory**: the words of the interrupt, and
then those of the handler, on the stack of the handler. -/
lemma pushAll_interrupt (m : Machine) (esp0 : BitVec 32) (ss0 gateCs : BitVec 16)
    (handler : BitVec 32) (vs : List (BitVec 32)) :
    ((interrupt m esp0 ss0 gateCs handler).pushAll vs).mem =
        ((m.setReg .esp (entryStack m esp0)).pushAll (entryWords m ++ vs)).mem ∧
      ((interrupt m esp0 ss0 gateCs handler).pushAll vs).reg .esp =
        ((m.setReg .esp (entryStack m esp0)).pushAll (entryWords m ++ vs)).reg .esp := by
  obtain ⟨hmem, hesp, -, -⟩ := interrupt_fields m esp0 ss0 gateCs handler
  have hentry : (interrupt m esp0 ss0 gateCs handler).mem =
        ((m.setReg .esp (entryStack m esp0)).pushAll (entryWords m)).mem ∧
      (interrupt m esp0 ss0 gateCs handler).reg .esp =
        ((m.setReg .esp (entryStack m esp0)).pushAll (entryWords m)).reg .esp := by
    rw [hmem, hesp, Machine.reg_pushAll, Function.update_self, Machine.reg_setReg_self]
    unfold enterStack entryWords entryStack
    split_ifs with hcpl
    · exact ⟨Machine.mem_pushAll_congr _ (Machine.reg_setReg_self ..).symm rfl, rfl⟩
    · rw [Machine.pushAll_append]
      refine ⟨Machine.mem_pushAll_congr _ rfl rfl, ?_⟩
      have hstack : ((m.setReg .esp esp0).setSeg .ss ss0).reg .esp = esp0 :=
        m.reg_setReg_self .esp esp0
      rw [Machine.reg_pushAll, Function.update_self, hstack]
      simp only [List.length_append, List.length_cons, List.length_nil]
      bv_omega
  rw [← Machine.pushAll_append]
  refine ⟨Machine.mem_pushAll_congr vs hentry.2 hentry.1, ?_⟩
  rw [Machine.reg_pushAll, Machine.reg_pushAll, Function.update_self,
    Function.update_self, hentry.2]

/-- The words of an interrupt are on the stack below those that its handler pushes. -/
lemma stackWord_interrupt {w : BitVec 32} (hi : (entryWords m ++ vs).reverse[i]? = some w)
    (hlen : vs.length ≤ 2 ^ 20) :
    ((interrupt m esp0 ss0 gateCs handler).pushAll vs).stackWord i = w := by
  obtain ⟨hmem, hesp⟩ := pushAll_interrupt m esp0 ss0 gateCs handler vs
  rw [Machine.stackWord_congr hmem hesp]
  refine Machine.stackWord_pushAll hi ?_
  have hentry : (entryWords m).length ≤ 5 := by
    unfold entryWords
    split_ifs <;> simp
  rw [List.length_append]
  omega

/-- An interrupt handler that begins with `pusha`. -/
lemma exec_pusha_interrupt (m : Machine) (esp0 : BitVec 32) (ss0 gateCs : BitVec 16)
    (handler : BitVec 32) :
    exec (interrupt m esp0 ss0 gateCs handler) .pusha =
      (interrupt m esp0 ss0 gateCs handler).pushAll
      (pushaWords m ((interrupt m esp0 ss0 gateCs handler).reg .esp)) := by
  obtain ⟨-, -, hreg, -⟩ := interrupt_fields m esp0 ss0 gateCs handler
  rw [exec, hreg .eax (by decide), hreg .ecx (by decide), hreg .edx (by decide),
    hreg .ebx (by decide),
    hreg .ebp (by decide), hreg .esi (by decide), hreg .edi (by decide)]
  rfl

/-- The frame of an interrupt whose handler begins with `pusha` is on top of the stack then. -/
lemma stackWord_frame (esp0 : BitVec 32) (ss0 gateCs : BitVec 16)
    (handler : BitVec 32) {w : BitVec 32}
    (hi : (entryWords m ++ pushaWords m
      ((interrupt m esp0 ss0 gateCs handler).reg .esp)).reverse[i]? = some w) :
    (exec (interrupt m esp0 ss0 gateCs handler) .pusha).stackWord i = w := by
  rw [exec_pusha_interrupt]
  refine stackWord_interrupt hi ?_
  have hpusha (top : BitVec 32) : (pushaWords m top).length = 8 := rfl
  rw [hpusha]
  omega

/-! ## Returning -/

/-- In the state `m₂` the frame of an interruption of `m` is on top of the stack, with the registers
that `pusha` has saved. -/
structure OnFrame (m m₂ : Machine) : Prop where
  cpl : m₂.cpl = 0#2
  words : ∃ top, ∀ i w, (entryWords m ++ pushaWords m top).reverse[i]? = some w → m₂.stackWord i = w
  esp : m.cpl = 0#2 → m₂.reg .esp + 44#32 = m.reg .esp

/-- What `popa` leaves: the registers it loads, and eight words less on the stack. -/
lemma popAll_fields (m : Machine) : m.popAll.mem = m.mem ∧ m.popAll.seg = m.seg ∧
    m.popAll.reg .esp = m.reg .esp + 32#32 ∧ m.popAll.reg .edi = m.stackWord 0 ∧
    m.popAll.reg .esi = m.stackWord 1 ∧ m.popAll.reg .ebp = m.stackWord 2 ∧
    m.popAll.reg .ebx = m.stackWord 4 ∧ m.popAll.reg .edx = m.stackWord 5 ∧
    m.popAll.reg .ecx = m.stackWord 6 ∧ m.popAll.reg .eax = m.stackWord 7 := by
  refine ⟨rfl, rfl, rfl, rfl, rfl, rfl, rfl, rfl, rfl, rfl⟩

/-- The stack segment that `iret` at level 0 leaves. -/
lemma ss_iret {m' : Machine} (hcpl : m.cpl = 0#2) (h : iret m = some m') : m'.seg .ss =
    if ((load32 m.mem (m.reg .esp + 4#32)).setWidth 2 : BitVec 2) = 0#2 then m.seg .ss
    else (load32 m.mem (m.reg .esp + 16#32)).setWidth 16 := by
  unfold iret at h
  rw [if_neg (by rw [hcpl]; simp), Option.some.injEq] at h
  subst h
  dsimp only
  rw [Function.update_of_ne (by decide), hcpl]
  split_ifs
  · rfl
  · exact Function.update_self _ _ _

/-- **A handler that ends in `popa` and `iret` above an intact frame** gives back the general
registers, the instruction pointer, the code segment, the flags, and the stack with its segment if
it has changed; the other segment registers are as the handler leaves them. -/
theorem iret_popa (h : OnFrame m m₂) : ∃ m', iret m₂.popAll = some m' ∧ m'.reg = m.reg ∧
    m'.eip = m.eip ∧
    m'.eflags = m.eflags ∧ m'.seg .cs = m.seg .cs ∧
    m'.seg .ss = (if m.cpl = 0#2 then m₂.seg .ss else m.seg .ss) ∧
    ∀ r, r ≠ .cs → r ≠ .ss → m'.seg r = m₂.seg r := by
  obtain ⟨hcpl, ⟨top, hwords⟩, hesp⟩ := h
  have hframe :
      (entryWords m ++ pushaWords m top).reverse = [m.reg .edi, m.reg .esi, m.reg .ebp, top,
      m.reg .ebx, m.reg .edx, m.reg .ecx, m.reg .eax, m.eip, (m.seg .cs).setWidth 32, m.eflags] ++
        if m.cpl = 0#2 then [] else [m.reg .esp, (m.seg .ss).setWidth 32] := by
    unfold entryWords
    split_ifs <;> rfl
  rw [hframe] at hwords
  have hlow (v : BitVec 16) : (v.setWidth 32).setWidth 16 = v := by simp
  have hlevel : (m₂.stackWord 9).setWidth 2 = m.cpl := by
    rw [hwords 9 _ rfl, Machine.cpl]
    simp
  obtain ⟨hmem, hseg, hpop, hedi, hesi, hebp, hebx, hedx, hecx, heax⟩ := popAll_fields m₂
  have hcpl' : m₂.popAll.cpl = 0#2 := by
    rw [Machine.cpl, hseg]
    exact hcpl
  -- the words that `iret` pops lie above those of `popa`
  have hload (i : ℕ) (k : BitVec 32) (hk : 32#32 + k = BitVec.ofNat 32 (4 * i)) :
      load32 m₂.popAll.mem (m₂.popAll.reg .esp + k) = m₂.stackWord i := by
    rw [hmem, hpop, Machine.stackWord, ← hk, BitVec.add_assoc]
  have h0 := hload 8 0#32 rfl
  rw [BitVec.add_zero] at h0
  obtain ⟨m', hret, heip, hcs, heflags, hesp', hreg, hseg'⟩ := iret_of_cpl_zero hcpl'
  rw [h0] at heip
  rw [hload 9 4#32 rfl] at hcs hesp'
  rw [hload 10 8#32 rfl] at heflags
  rw [hlevel, hload 11 12#32 rfl] at hesp'
  refine ⟨m', hret, ?_, ?_, ?_, ?_, ?_, ?_⟩
  · funext r
    cases r with
    | esp =>
      rw [hesp']
      split_ifs at hwords ⊢ with hm
      · rw [hpop, ← hesp hm]
        bv_omega
      · exact hwords 11 _ rfl
    | eax => rw [hreg _ (by decide), heax, hwords 7 _ rfl]
    | ecx => rw [hreg _ (by decide), hecx, hwords 6 _ rfl]
    | edx => rw [hreg _ (by decide), hedx, hwords 5 _ rfl]
    | ebx => rw [hreg _ (by decide), hebx, hwords 4 _ rfl]
    | ebp => rw [hreg _ (by decide), hebp, hwords 2 _ rfl]
    | esi => rw [hreg _ (by decide), hesi, hwords 1 _ rfl]
    | edi => rw [hreg _ (by decide), hedi, hwords 0 _ rfl]
  · rw [heip, hwords 8 _ rfl]
  · rw [heflags, hwords 10 _ rfl]
  · rw [hcs, hwords 9 _ rfl, hlow]
  · have hss := ss_iret hcpl' hret
    rw [hload 9 4#32 rfl, hlevel, hload 12 16#32 rfl, hseg] at hss
    rw [hss]
    split_ifs at hwords ⊢ with hm
    · rfl
    · rw [hwords 12 _ rfl, hlow]
  · intro r h₁ h₂
    rw [hseg' r h₁ h₂, hseg]

end Entry

end X86
