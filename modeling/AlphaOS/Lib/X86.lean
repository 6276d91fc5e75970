import Mathlib.Data.Nat.Notation
import Mathlib.Logic.Function.Basic
import Mathlib.Tactic.SplitIfs
import Mathlib.Algebra.Group.Nat.Defs

set_option relaxedAutoImplicit false
set_option autoImplicit false

/-!
# A 32-bit x86 machine

The instructions kernel entry and exit code is made of: pushes, register and segment moves, the
delivery of an interrupt and `iret`, with and without a change of privilege. Memory is a function
from addresses to bytes and words are little-endian.

## Main definitions

* `X86.load32`, `X86.store32` — words in byte memory.
* `X86.Machine`, `X86.Instr`, `X86.run` — the machine and straight-line code.
* `X86.interrupt`, `X86.iret` — entering and leaving the kernel.
* `X86.pushAll` — pushing the words of a list one after the other.
* `X86.stores` — the bytes that straight-line code stores to.

## Main results

* `X86.load32_store32_self`, `X86.load32_store32_of_apart` — what a store changes.
* `X86.load32_pushAll` — the pushed words are found below the old stack pointer.
* `X86.mem_run_of_notMem` — straight-line code changes the bytes it stores to only.

## Design

The only fault in the model is an `iret` to a more privileged level. Segment registers hold
selectors; descriptors and their limits are not modelled, so a segment load always succeeds and
`iret` keeps the data segments.
-/

namespace X86

/-- Byte memory. -/
abbrev Memory := BitVec 32 → BitVec 8

/-! ## Words in memory -/

/-- The word at `a`. -/
def load32 (m : Memory) (a : BitVec 32) : BitVec 32 :=
  m (a + 3#32) ++ m (a + 2#32) ++ m (a + 1#32) ++ m a

/-- Write the word `v` at `a`. -/
def store32 (m : Memory) (a v : BitVec 32) : Memory := fun x =>
  if (x - a).toNat < 4 then v.extractLsb' (8 * (x - a).toNat) 8 else m x

/-- The words at `a` and at `b` have no byte in common. -/
def Apart (a b : BitVec 32) : Prop := 4 ≤ (a - b).toNat ∧ 4 ≤ (b - a).toNat

/-- The four bytes of a word make up the word. -/
lemma append_bytes (v : BitVec 32) : v.extractLsb' 24 8 ++ v.extractLsb' 16 8 ++
    v.extractLsb' 8 8 ++ v.extractLsb' 0 8 = v := by
  apply BitVec.eq_of_getLsbD_eq
  intro i hi
  simp only [BitVec.getLsbD_append, BitVec.getLsbD_extractLsb']
  by_cases h1 : i < 8
  · simp [h1]
  · by_cases h2 : i - 8 < 8
    · simp [h1, h2, show 8 + (i - 8) = i by omega]
    · by_cases h3 : i - 8 - 8 < 8
      · simp [h1, h2, h3, show 16 + (i - 8 - 8) = i by omega]
      · simp [h1, h2, h3, show 24 + (i - 8 - 8 - 8) = i by omega,
          show i - 8 - 8 - 8 < 8 by omega]

/-- A stored word is read back. -/
lemma load32_store32_self (m : Memory) (a v : BitVec 32) : load32 (store32 m a v) a = v := by
  have h (k : ℕ) (hk : k < 4) :
      store32 m a v (a + BitVec.ofNat 32 k) = v.extractLsb' (8 * k) 8 := by
    have hd : (a + BitVec.ofNat 32 k - a).toNat = k := by
      rw [BitVec.add_comm, BitVec.add_sub_cancel, BitVec.toNat_ofNat, Nat.mod_eq_of_lt (by omega)]
    rw [store32, hd, if_pos hk]
  have h0 := h 0 (by omega)
  rw [BitVec.add_zero] at h0
  rw [load32, h 3 (by omega), h 2 (by omega), h 1 (by omega), h0]
  exact append_bytes v

/-- A store changes no word apart from its own. -/
lemma load32_store32_of_apart {a b : BitVec 32} (m : Memory) (v : BitVec 32) (h : Apart a b) :
    load32 (store32 m a v) b = load32 m b := by
  obtain ⟨h1, h2⟩ := h
  have hb (k : ℕ) (hk : k < 4) :
      store32 m a v (b + BitVec.ofNat 32 k) = m (b + BitVec.ofNat 32 k) := by
    refine if_neg fun hlt => ?_
    have hk' : (BitVec.ofNat 32 k).toNat = k := by
      rw [BitVec.toNat_ofNat, Nat.mod_eq_of_lt (by omega)]
    generalize BitVec.ofNat 32 k = w at hlt hk'
    bv_omega
  have h0 := hb 0 (by omega)
  rw [BitVec.add_zero] at h0
  rw [load32, load32, hb 3 (by omega), hb 2 (by omega), hb 1 (by omega), h0]

/-! ## The machine -/

/-- The general registers. -/
inductive Reg
  | eax
  | ecx
  | edx
  | ebx
  | esp
  | ebp
  | esi
  | edi
deriving DecidableEq, Repr

/-- The segment registers. -/
inductive Seg
  | cs
  | ds
  | es
  | fs
  | gs
  | ss
deriving DecidableEq, Repr

/-- The registers and the memory. -/
structure Machine where
  reg : Reg → BitVec 32
  seg : Seg → BitVec 16
  eip : BitVec 32
  eflags : BitVec 32
  mem : Memory

/-- The straight-line instructions, operands in the order of the assembler's listing. -/
inductive Instr
  /-- `movl off(%base), %dst` -/
  | movLoad (off : BitVec 32) (base dst : Reg)
  /-- `movw off(%base), %dst` -/
  | movwLoad (off : BitVec 32) (base dst : Reg)
  /-- `movw %src, %dst` into a segment register -/
  | movToSeg (src : Reg) (dst : Seg)
  /-- `movw %src, %dst` from a segment register -/
  | movFromSeg (src : Seg) (dst : Reg)
  /-- `xorl %r, %r` -/
  | xorSelf (r : Reg)
  /-- `pushl off(%base)` -/
  | pushLoad (off : BitVec 32) (base : Reg)
  /-- `pushl %r` -/
  | pushReg (r : Reg)
  /-- `pusha` -/
  | pusha
deriving DecidableEq, Repr

namespace Machine

/-- Write a general register. -/
def setReg (m : Machine) (r : Reg) (v : BitVec 32) : Machine :=
  { m with reg := Function.update m.reg r v }

/-- Write the low half of a general register. -/
def setLow (m : Machine) (r : Reg) (v : BitVec 16) : Machine :=
  m.setReg r ((m.reg r).extractLsb' 16 16 ++ v)

/-- Write a segment register. -/
def setSeg (m : Machine) (r : Seg) (v : BitVec 16) : Machine :=
  { m with seg := Function.update m.seg r v }

/-- Push a word. -/
def push (m : Machine) (v : BitVec 32) : Machine :=
  { m with
    reg := Function.update m.reg .esp (m.reg .esp - 4#32)
    mem := store32 m.mem (m.reg .esp - 4#32) v }

/-- Push the words of a list, the first one first. -/
def pushAll (m : Machine) (vs : List (BitVec 32)) : Machine := vs.foldl push m

/-- The current privilege level. -/
def cpl (m : Machine) : BitVec 2 := (m.seg .cs).setWidth 2

end Machine

/-- One instruction. A pushed operand is read before the stack pointer moves, `pushl %esp`
included; `xorl` leaves the zero and parity flags set and the other arithmetic flags clear. -/
def exec (m : Machine) : Instr → Machine
  | .movLoad off base dst => m.setReg dst (load32 m.mem (m.reg base + off))
  | .movwLoad off base dst => m.setLow dst ((load32 m.mem (m.reg base + off)).setWidth 16)
  | .movToSeg src dst => m.setSeg dst ((m.reg src).setWidth 16)
  | .movFromSeg src dst => m.setLow dst (m.seg src)
  | .xorSelf r =>
    { m.setReg r 0#32 with eflags := (m.eflags &&& ~~~0x8D5#32) ||| 0x44#32 }
  | .pushLoad off base => m.push (load32 m.mem (m.reg base + off))
  | .pushReg r => m.push (m.reg r)
  | .pusha => m.pushAll [m.reg .eax, m.reg .ecx, m.reg .edx, m.reg .ebx, m.reg .esp, m.reg .ebp,
      m.reg .esi, m.reg .edi]

/-- Straight-line code. -/
def run (m : Machine) (code : List Instr) : Machine := code.foldl exec m

/-- The stack an interrupt handler of level 0 starts on: the interrupted one, or that of the
task-state segment with the interrupted stack pointer pushed on it. -/
def enterStack (m : Machine) (esp0 : BitVec 32) (ss0 : BitVec 16) : Machine :=
  if m.cpl = 0#2 then m
  else ((m.setReg .esp esp0).setSeg .ss ss0).pushAll [(m.seg .ss).setWidth 32, m.reg .esp]

/-- Delivery of an interrupt through an interrupt gate to level 0: `esp0` and `ss0` are the
task-state segment's, `gateCs` and `handler` the gate's. -/
def interrupt (m : Machine) (esp0 : BitVec 32) (ss0 gateCs : BitVec 16) (handler : BitVec 32) :
    Machine :=
  { (((enterStack m esp0 ss0).pushAll [m.eflags, (m.seg .cs).setWidth 32, m.eip]).setSeg .cs
      gateCs) with
    eip := handler
    eflags := m.eflags &&& ~~~0x34300#32 }

/-- `iret`. A return to a less privileged level pops the stack pointer and its segment too; a
return to a more privileged one faults. -/
def iret (m : Machine) : Option Machine :=
  if ((load32 m.mem (m.reg .esp + 4#32)).setWidth 2 : BitVec 2) < m.cpl then none
  else some
    { m with
      eip := load32 m.mem (m.reg .esp)
      eflags := load32 m.mem (m.reg .esp + 8#32)
      reg := Function.update m.reg .esp
        (if ((load32 m.mem (m.reg .esp + 4#32)).setWidth 2 : BitVec 2) = m.cpl
          then m.reg .esp + 12#32 else load32 m.mem (m.reg .esp + 12#32))
      seg := Function.update
        (if ((load32 m.mem (m.reg .esp + 4#32)).setWidth 2 : BitVec 2) = m.cpl
          then m.seg
          else Function.update m.seg .ss ((load32 m.mem (m.reg .esp + 16#32)).setWidth 16))
        .cs ((load32 m.mem (m.reg .esp + 4#32)).setWidth 16) }

/-! ## Pushing -/

namespace Machine

variable (m : Machine) (v : BitVec 32) (vs : List (BitVec 32))

/-- Pushing the first of several words. -/
lemma pushAll_cons : m.pushAll (v :: vs) = (m.push v).pushAll vs := rfl

/-- Pushing words after others. -/
lemma pushAll_append (ws : List (BitVec 32)) :
    (m.pushAll vs).pushAll ws = m.pushAll (vs ++ ws) := by
  simp [pushAll]

/-- Pushing moves the stack pointer. -/
lemma reg_pushAll : (m.pushAll vs).reg =
    Function.update m.reg .esp (m.reg .esp - BitVec.ofNat 32 (4 * vs.length)) := by
  induction vs generalizing m with
  | nil => simp [pushAll]
  | cons v vs ih =>
    rw [pushAll_cons, ih]
    have hesp : (m.push v).reg .esp = m.reg .esp - 4#32 := by simp [push]
    have hlen : BitVec.ofNat 32 (4 * (v :: vs).length) =
        4#32 + BitVec.ofNat 32 (4 * vs.length) := by
      rw [List.length_cons, Nat.mul_succ, Nat.add_comm, BitVec.ofNat_add]
    have hsub (w : BitVec 32) : m.reg .esp - 4#32 - w = m.reg .esp - (4#32 + w) := by bv_omega
    rw [hesp, hlen, hsub]
    simp [push]

/-- Pushing changes the stack pointer and the memory only. -/
lemma fields_pushAll : (m.pushAll vs).seg = m.seg ∧ (m.pushAll vs).eip = m.eip ∧
    (m.pushAll vs).eflags = m.eflags := by
  induction vs generalizing m with
  | nil => exact ⟨rfl, rfl, rfl⟩
  | cons v vs ih => exact ih (m.push v)

variable {m vs}

/-- Pushing leaves the words above the stack pointer, as far as the pushed words do not reach
around to them. -/
lemma load32_pushAll_above {k : ℕ} {a : BitVec 32} (ha : a = m.reg .esp + BitVec.ofNat 32 (4 * k))
    (h : 4 * (vs.length + k + 1) ≤ 2 ^ 32) : load32 (m.pushAll vs).mem a = load32 m.mem a := by
  induction vs generalizing m k with
  | nil => rfl
  | cons v vs ih =>
    rw [List.length_cons] at h
    have hk : (BitVec.ofNat 32 (4 * k)).toNat = 4 * k := by
      rw [BitVec.toNat_ofNat, Nat.mod_eq_of_lt (by omega)]
    have hk' : (BitVec.ofNat 32 (4 * (k + 1))).toNat = 4 * (k + 1) := by
      rw [BitVec.toNat_ofNat, Nat.mod_eq_of_lt (by omega)]
    have hesp : (m.push v).reg .esp = m.reg .esp - 4#32 := by simp [push]
    rw [pushAll_cons, ih (k := k + 1) ?_ (by omega)]
    · refine load32_store32_of_apart _ _ ⟨?_, ?_⟩
      · rw [ha]
        generalize BitVec.ofNat 32 (4 * k) = w at hk
        bv_omega
      · rw [ha]
        generalize BitVec.ofNat 32 (4 * k) = w at hk
        bv_omega
    · rw [hesp, ha]
      generalize BitVec.ofNat 32 (4 * k) = w at hk
      generalize BitVec.ofNat 32 (4 * (k + 1)) = w' at hk'
      bv_omega

/-- **The pushed words are found below the old stack pointer**, the `i`-th one `i + 1` words
below it. -/
theorem load32_pushAll {i : ℕ} {a w : BitVec 32} (hi : vs[i]? = some w)
    (ha : a + BitVec.ofNat 32 (4 * (i + 1)) = m.reg .esp) (h : 4 * vs.length ≤ 2 ^ 32) :
    load32 (m.pushAll vs).mem a = w := by
  induction vs generalizing m i with
  | nil => simp at hi
  | cons v vs ih =>
    have hesp : (m.push v).reg .esp = m.reg .esp - 4#32 := by simp [push]
    rw [List.length_cons] at h
    rw [pushAll_cons]
    cases i with
    | zero =>
      have hav : a = m.reg .esp - 4#32 := by
        rw [← ha]
        bv_omega
      rw [load32_pushAll_above (k := 0) (by rw [hesp, hav]; simp) (by omega), hav]
      have hvw : v = w := by simpa using hi
      rw [← hvw]
      exact load32_store32_self _ _ _
    | succ i =>
      refine ih (by simpa using hi) ?_ (by omega)
      rw [hesp, ← ha, show 4 * (i + 1 + 1) = 4 * (i + 1) + 4 by omega, BitVec.ofNat_add]
      generalize BitVec.ofNat 32 (4 * (i + 1)) = u
      bv_omega

/-- What is pushed ends up in the same memory from every machine with the same stack pointer and
memory. -/
lemma mem_pushAll_congr {m' : Machine} (vs : List (BitVec 32)) (hesp : m.reg .esp = m'.reg .esp)
    (hmem : m.mem = m'.mem) : (m.pushAll vs).mem = (m'.pushAll vs).mem := by
  induction vs generalizing m m' with
  | nil => exact hmem
  | cons v vs ih =>
    refine ih ?_ ?_
    · simp [push, hesp]
    · simp [push, hesp, hmem]

/-- Pushing leaves every word it does not write. -/
lemma load32_pushAll_of_apart {b : BitVec 32}
    (h : ∀ j < vs.length, Apart (m.reg .esp - BitVec.ofNat 32 (4 * (j + 1))) b) :
    load32 (m.pushAll vs).mem b = load32 m.mem b := by
  induction vs generalizing m with
  | nil => rfl
  | cons v vs ih =>
    have hesp : (m.push v).reg .esp = m.reg .esp - 4#32 := by simp [push]
    rw [pushAll_cons, ih ?_]
    · exact load32_store32_of_apart _ _ (h 0 (by simp))
    · intro j hj
      have hnext : m.reg .esp - 4#32 - BitVec.ofNat 32 (4 * (j + 1)) =
          m.reg .esp - BitVec.ofNat 32 (4 * (j + 1 + 1)) := by
        rw [show 4 * (j + 1 + 1) = 4 * (j + 1) + 4 by omega, BitVec.ofNat_add]
        generalize BitVec.ofNat 32 (4 * (j + 1)) = u
        bv_omega
      rw [hesp, hnext]
      exact h (j + 1) (by simpa using hj)

end Machine

/-! ## The bytes that code stores to -/

/-- The `n` bytes from `a` on. -/
def bytesAt (a : BitVec 32) (n : ℕ) : List (BitVec 32) :=
  (List.range n).map fun k => a + BitVec.ofNat 32 k

/-- A byte is among the `n` bytes from `a` on when it is less than `n` above `a`. -/
lemma mem_bytesAt {a b : BitVec 32} {n : ℕ} (hn : n ≤ 2 ^ 32) :
    b ∈ bytesAt a n ↔ (b - a).toNat < n := by
  simp only [bytesAt, List.mem_map, List.mem_range]
  constructor
  · rintro ⟨k, hk, rfl⟩
    rw [BitVec.add_comm, BitVec.add_sub_cancel, BitVec.toNat_ofNat, Nat.mod_eq_of_lt (by omega)]
    exact hk
  · intro h
    refine ⟨(b - a).toNat, h, ?_⟩
    rw [BitVec.ofNat_toNat, BitVec.setWidth_eq]
    bv_omega

/-- The bytes an instruction stores to. -/
def stored (m : Machine) : Instr → List (BitVec 32)
  | .pushLoad _ _ => bytesAt (m.reg .esp - 4#32) 4
  | .pushReg _ => bytesAt (m.reg .esp - 4#32) 4
  | .pusha => bytesAt (m.reg .esp - 32#32) 32
  | _ => []

/-- The bytes that straight-line code stores to. -/
def stores : Machine → List Instr → List (BitVec 32)
  | _, [] => []
  | m, i :: code => stored m i ++ stores (exec m i) code

/-- A push leaves the bytes it does not store to. -/
lemma mem_push_of_notMem {m : Machine} {b : BitVec 32} (v : BitVec 32)
    (h : b ∉ bytesAt (m.reg .esp - 4#32) 4) : (m.push v).mem b = m.mem b := by
  rw [mem_bytesAt (by omega)] at h
  exact if_neg h

/-- Several pushes leave the bytes they do not store to. -/
lemma mem_pushAll_of_notMem {b : BitVec 32} (vs : List (BitVec 32)) {m : Machine}
    (hlen : 4 * vs.length ≤ 2 ^ 32)
    (h : b ∉ bytesAt (m.reg .esp - BitVec.ofNat 32 (4 * vs.length)) (4 * vs.length)) :
    (m.pushAll vs).mem b = m.mem b := by
  induction vs generalizing m with
  | nil => rfl
  | cons v vs ih =>
    rw [List.length_cons] at hlen h
    have hesp : (m.push v).reg .esp = m.reg .esp - 4#32 := by simp [Machine.push]
    rw [mem_bytesAt hlen] at h
    have hsum : BitVec.ofNat 32 (4 * (vs.length + 1)) = BitVec.ofNat 32 (4 * vs.length) + 4#32 := by
      rw [Nat.mul_succ, BitVec.ofNat_add]
    have hword : (BitVec.ofNat 32 (4 * vs.length)).toNat = 4 * vs.length := by
      rw [BitVec.toNat_ofNat, Nat.mod_eq_of_lt (by omega)]
    rw [hsum] at h
    rw [Machine.pushAll_cons, ih (by omega), mem_push_of_notMem]
    · rw [mem_bytesAt (by omega)]
      generalize BitVec.ofNat 32 (4 * vs.length) = w at h hword
      bv_omega
    · rw [mem_bytesAt (by omega), hesp]
      generalize BitVec.ofNat 32 (4 * vs.length) = w at h hword
      bv_omega

/-- **An instruction leaves the bytes it does not store to.** -/
lemma mem_exec_of_notMem {m : Machine} {i : Instr} {b : BitVec 32} (h : b ∉ stored m i) :
    (exec m i).mem b = m.mem b := by
  cases i with
  | pushLoad off base => exact mem_push_of_notMem _ h
  | pushReg r => exact mem_push_of_notMem _ h
  | pusha => exact mem_pushAll_of_notMem _ (by simp) h
  | movLoad off base dst => rfl
  | movwLoad off base dst => rfl
  | movToSeg src dst => rfl
  | movFromSeg src dst => rfl
  | xorSelf r => rfl

/-- **Straight-line code leaves the bytes it does not store to.** -/
theorem mem_run_of_notMem {code : List Instr} {m : Machine} {b : BitVec 32}
    (h : b ∉ stores m code) :
    (run m code).mem b = m.mem b := by
  induction code generalizing m with
  | nil => rfl
  | cons i code ih =>
    rw [stores, List.mem_append, not_or] at h
    change (run (exec m i) code).mem b = m.mem b
    rw [ih h.2, mem_exec_of_notMem h.1]

/-- The bytes of a word in memory. -/
lemma byte_of_load32 (m : Memory) (a : BitVec 32) {r : ℕ} (hr : r < 4) :
    m (a + BitVec.ofNat 32 r) = (load32 m a).extractLsb' (8 * r) 8 := by
  apply BitVec.eq_of_getLsbD_eq
  intro i hi
  simp only [load32, BitVec.getLsbD_extractLsb', BitVec.getLsbD_append, hi, decide_true,
    Bool.true_and]
  obtain rfl | rfl | rfl | rfl : r = 0 ∨ r = 1 ∨ r = 2 ∨ r = 3 := by omega
  · simp [hi]
  · simp [show ¬8 + i < 8 by omega, hi]
  · have hidx : 16 + i - 8 - 8 = i := by omega
    simp [show ¬16 + i < 8 by omega, show ¬16 + i - 8 < 8 by omega, hidx, hi]
  · have hidx : 24 + i - 8 - 8 - 8 = i := by omega
    simp [show ¬24 + i < 8 by omega, show ¬24 + i - 8 < 8 by omega,
      show ¬24 + i - 8 - 8 < 8 by omega, hidx]

/-! ## Entering the kernel -/

/-- The stack switch keeps every register but the stack pointer and its segment. -/
lemma enterStack_fields (m : Machine) (esp0 : BitVec 32) (ss0 : BitVec 16) :
    (∀ r, r ≠ .esp → (enterStack m esp0 ss0).reg r = m.reg r) ∧
      (∀ r, r ≠ .ss → (enterStack m esp0 ss0).seg r = m.seg r) := by
  unfold enterStack
  split_ifs
  · exact ⟨fun _ _ => rfl, fun _ _ => rfl⟩
  · refine ⟨fun r hr => ?_, fun r hr => ?_⟩
    · rw [Machine.reg_pushAll, Function.update_of_ne hr]
      exact Function.update_of_ne hr _ _
    · rw [(Machine.fields_pushAll _ _).1]
      exact Function.update_of_ne hr _ _

/-- What the delivery of an interrupt leaves: three words on the handler's stack, and every
register but `%esp`, `%ss` and `%cs`. -/
lemma interrupt_fields (m : Machine) (esp0 : BitVec 32) (ss0 gateCs : BitVec 16)
    (handler : BitVec 32) :
    (interrupt m esp0 ss0 gateCs handler).mem = ((enterStack m esp0 ss0).pushAll
        [m.eflags, (m.seg .cs).setWidth 32, m.eip]).mem ∧
      (interrupt m esp0 ss0 gateCs handler).reg .esp =
        (enterStack m esp0 ss0).reg .esp - 12#32 ∧
      (∀ r, r ≠ .esp → (interrupt m esp0 ss0 gateCs handler).reg r = m.reg r) ∧
      (∀ r, r ≠ .ss → r ≠ .cs → (interrupt m esp0 ss0 gateCs handler).seg r = m.seg r) := by
  obtain ⟨hreg, hseg⟩ := enterStack_fields m esp0 ss0
  have hpush := (enterStack m esp0 ss0).reg_pushAll [m.eflags, (m.seg .cs).setWidth 32, m.eip]
  refine ⟨rfl, ?_, fun r hr => ?_, fun r hr hr' => ?_⟩
  · exact (congrFun hpush .esp).trans (Function.update_self _ _ _)
  · exact ((congrFun hpush r).trans (Function.update_of_ne hr _ _)).trans (hreg r hr)
  · exact ((Function.update_of_ne hr' _ _).trans
      (congrFun (Machine.fields_pushAll _ _).1 r)).trans (hseg r hr)

/-- Writing the low half of a cleared register extends the half with zeros. -/
lemma zero_append (v : BitVec 16) : (0#32).extractLsb' 16 16 ++ v = v.setWidth 32 := by
  apply BitVec.eq_of_getLsbD_eq
  intro i hi
  simp only [BitVec.getLsbD_append, BitVec.getLsbD_extractLsb', BitVec.getLsbD_setWidth]
  by_cases h : i < 16
  · simp [h, hi]
  · simp [h, BitVec.getLsbD_of_ge v i (by omega)]

/-- The low half of a register is what was written to it. -/
lemma setWidth_append (u v : BitVec 16) : (u ++ v).setWidth 16 = v := by
  apply BitVec.eq_of_getLsbD_eq
  intro i hi
  simp only [BitVec.getLsbD_setWidth, BitVec.getLsbD_append, hi, decide_true, Bool.true_and,
    ↓reduceIte]

/-! ## Leaving the kernel -/

/-- **`iret` at level 0** never faults. It pops three words, and the stack pointer with them when
the level stays; otherwise the fourth word is the new stack pointer. -/
theorem iret_of_cpl_zero {m : Machine} (hcpl : m.cpl = 0#2) :
    ∃ m', iret m = some m' ∧ m'.eip = load32 m.mem (m.reg .esp) ∧
      m'.seg .cs = (load32 m.mem (m.reg .esp + 4#32)).setWidth 16 ∧
      m'.eflags = load32 m.mem (m.reg .esp + 8#32) ∧
      m'.reg .esp = (if ((load32 m.mem (m.reg .esp + 4#32)).setWidth 2 : BitVec 2) = 0#2
        then m.reg .esp + 12#32 else load32 m.mem (m.reg .esp + 12#32)) ∧
      (∀ r, r ≠ .esp → m'.reg r = m.reg r) ∧
      ∀ r, r ≠ .cs → r ≠ .ss → m'.seg r = m.seg r := by
  have hnf : ¬ ((load32 m.mem (m.reg .esp + 4#32)).setWidth 2 : BitVec 2) < m.cpl := by
    rw [hcpl]
    simp
  refine ⟨_, if_neg hnf, rfl, ?_, rfl, ?_, fun r hr => ?_, fun r hr hr' => ?_⟩
  · simp
  · simp [hcpl]
  · simp [hr]
  · simp only [Function.update_apply, hr, ↓reduceIte]
    split_ifs
    · rfl
    · rw [Function.update_of_ne hr']

/-- `iret` pops the stack segment with the stack pointer. -/
lemma ss_of_iret {m m' : Machine} (h : iret m = some m')
    (hlevel : ((load32 m.mem (m.reg .esp + 4#32)).setWidth 2 : BitVec 2) ≠ m.cpl) :
    m'.seg .ss = (load32 m.mem (m.reg .esp + 16#32)).setWidth 16 := by
  rw [iret, if_neg hlevel, if_neg hlevel] at h
  split_ifs at h
  rw [Option.some.injEq] at h
  subst h
  dsimp only
  rw [Function.update_of_ne (by decide), Function.update_self]

end X86
