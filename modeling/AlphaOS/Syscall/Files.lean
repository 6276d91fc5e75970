import AlphaOS.Mm.Memory
import AlphaOS.Tty.Readers

set_option relaxedAutoImplicit false
set_option autoImplicit false

/-!
# The system calls on files

`SYS_READ`, `SYS_WRITE` and `SYS_IOCTL` take a descriptor, an address and a length or argument from
the registers of a ring-3 task. `sys_read`, `sys_write` and `sys_ioctl` use the descriptor as an
index into `current_task->fds` without looking at `total_fds`, and `tty_read` stores at the address
it is given. This file follows the three functions through the memory of the machine and says which
calls stay within the task's own files and its own half of the address space.

## Main definitions

* `AlphaOS.Ring0` — the memory as the kernel sees it, beside the variables of `tty.c` and of the
  scheduler it represents.
* `AlphaOS.Ring0.sysRead`, `sysWrite`, `sysIoctl` — the functions of the source.
* `AlphaOS.Ring0.Obeys` — a call acts on an own file in the right mode and stores below
  `KERNEL_BASE`, or is refused with `-1` and nothing changed.
* `AlphaOS.Ring0.Proper` — the condition on the state and the registers.

## Main results

* `AlphaOS.Ring0.obeys_iff_proper` — a call obeys if and only if it is proper.
* `AlphaOS.Ring0.console_sysRead` — on the task's own descriptors `sys_read` is the function the
  terminal's readers are modelled with.
* `AlphaOS.Ring0.stdout_read` — the task reads from its standard output.

## Design

An address that is not mapped reads as `none`: a page fault in ring 0, at which `exception_handler`
halts the machine. What a call does is recorded in an `Outcome`: the file whose operation it called,
the bytes stored into memory, and whether it returned. The functions in `struct vnode_ops` are known
by their addresses; a call through any other pointer is a jump to code the kernel does not have.
`syscall_handler` lets a `SYS_READ` sleep until there is a line; the call is made again afterwards,
and is considered here from there on.
-/

namespace AlphaOS

/-- The number of unread characters: those between the two indices or, when the writer has started
over and the reader has not, those before the writer. -/
def Console.unreadCount (k : Console) : ℕ :=
  if k.bufferHead ≤ k.bufferTail then k.bufferTail - k.bufferHead else k.bufferTail

/-- The number of unread characters. -/
lemma Console.Unread.length_eq {k : Console} {u : List UInt8} (h : k.Unread u) :
    u.length = k.unreadCount := by
  unfold Console.unreadCount
  rcases h with ⟨hle, -, rfl⟩ | ⟨hhead, -, hlt, rfl⟩
  · rw [if_pos hle]
    simp
  · rw [if_neg (by omega)]
    simp

namespace Ring0

/-- The addresses the linker gave the functions of `tty_ops`. -/
structure Symbols where
  ttyRead : Word
  ttyWrite : Word
  ttyIoctl : Word
deriving DecidableEq, Repr

/-- A 32-bit load, little-endian; `none` for a page fault. -/
def load (mem : Word → Option UInt8) (a : Word) : Option Word := do
  let b₀ ← mem a
  let b₁ ← mem (a + 1)
  let b₂ ← mem (a + 2)
  let b₃ ← mem (a + 3)
  return b₃.toBitVec ++ b₂.toBitVec ++ b₁.toBitVec ++ b₀.toBitVec

/-- `&t->fds[fd]`: the array stands at offset `68` of `struct task`. -/
def fdSlot (t fd : Word) : Word := t + 68 + 4 * fd

/-- `&f->ops`. -/
def fileOps (f : Word) : Word := f + 4

/-- `&f->flags`. -/
def fileFlags (f : Word) : Word := f + 8

end Ring0

open Ring0 in
/-- The machine that runs a task's system call. The memory holds the task's descriptors, and the
files among its first `total_fds` ones are opened from `global_tty`. -/
structure Ring0 where
  console : Console
  /-- The bytes at the mapped addresses of the address space. -/
  mem : Word → Option UInt8
  symbols : Symbols
  symbols_ne : symbols.ttyRead ≠ 0 ∧ symbols.ttyWrite ≠ 0 ∧ symbols.ttyIoctl ≠ 0
  fds : ∀ i < 16, load mem (fdSlot console.sched.currentTask (BitVec.ofNat 32 i)) =
    some ((console.sched.task console.sched.currentTask).fds i)
  totalFds : (console.sched.task console.sched.currentTask).totalFds ≤ 16
  files : ∀ i < (console.sched.task console.sched.currentTask).totalFds,
    let f := (console.sched.task console.sched.currentTask).fds i
    load mem (fileFlags f) = some (console.sched.file f).flags ∧
      load mem (fileOps f) = some console.sched.layout.ttyOps
  ops : load mem console.sched.layout.ttyOps = some symbols.ttyRead ∧
    load mem (console.sched.layout.ttyOps + 4) = some symbols.ttyWrite ∧
    load mem (console.sched.layout.ttyOps + 8) = some symbols.ttyIoctl
  buffered : ∃ u, console.Unread u

namespace Ring0

/-- How a call ends. -/
inductive Fate
  /-- It returns, with the value in `eax`. -/
  | returned (eax : Word) (console : Console)
  /-- It faults, which halts the machine, or never comes back. -/
  | stuck
  /-- It jumps to an address that is no function of `tty_ops`. -/
  | jumped (target : Word)

/-- What a call does. -/
structure Outcome where
  /-- The file whose operation is called. -/
  file : Option Word
  /-- The bytes stored into memory, in order. -/
  stores : List (Word × UInt8)
  fate : Fate

variable {m : Ring0} {fd buffer len request arg f : Word}

/-- `current_task`. -/
def currentTask (m : Ring0) : Word := m.console.sched.currentTask

/-- `current_task->fds[fd]`. -/
def fdWord (m : Ring0) (fd : Word) : Option Word := load m.mem (fdSlot m.currentTask fd)

/-- `return -1`. -/
def refused (m : Ring0) : Outcome := ⟨none, [], .returned (-1) m.console⟩

/-- `f->ops->op` for the operation at offset `off` of `struct vnode_ops`, or `none` if it is `NULL`.
-/
def opOf (m : Ring0) (off f : Word) : Option (Option (Word × Word)) := do
  let ops ← load m.mem (fileOps f)
  let op ← load m.mem (ops + off)
  return if op = 0 then none else some (f, op)

/-- The tests of `sys_read` and `sys_write`: the file and the operation, or `none` if the file's
flags have a bit of `mask` or there is no such operation. -/
def checked (m : Ring0) (mask off fd : Word) : Option (Option (Word × Word)) := do
  let f ← m.fdWord fd
  let flags ← load m.mem (fileFlags f)
  if flags &&& mask ≠ 0 then return none else m.opOf off f

/-- Refuse, or call the operation found. -/
def perform (m : Ring0) (r : Option (Option (Word × Word))) (call : Word → Word → Outcome) :
    Outcome :=
  match r with
  | none => ⟨none, [], .stuck⟩
  | some none => m.refused
  | some (some (f, op)) => call f op

/-- The stores of `bs` from the address `a` on, up to the first one that is not mapped. -/
def storeBytes (mem : Word → Option UInt8) : Word → List UInt8 → List (Word × UInt8)
  | _, [] => []
  | a, b :: bs => if (mem a).isSome then (a, b) :: storeBytes mem (a + 1) bs else []

/-- `tty_read(buffer, len)` called for the file `f`. A store to an address that is not mapped halts
the machine. -/
def ttyRead (m : Ring0) (buffer len f : Word) : Outcome :=
  let out := m.console.ttyRead len.toNat
  let stores := storeBytes m.mem buffer out.1
  ⟨some f, stores,
    if stores.length = out.1.length then .returned (BitVec.ofNat 32 out.1.length) out.2 else .stuck⟩

/-- `sys_read`. -/
def sysRead (m : Ring0) (fd buffer len : Word) : Outcome :=
  m.perform (m.checked (~~~ronlyFlag) 0 fd) fun f op =>
    if op = m.symbols.ttyRead then m.ttyRead buffer len f else ⟨some f, [], .jumped op⟩

/-- The `n` bytes from `a` on; `none` for a page fault. -/
def bytes (mem : Word → Option UInt8) : ℕ → Word → Option (List UInt8)
  | 0, _ => some []
  | n + 1, a => do
    let b ← mem a
    let rest ← bytes mem n (a + 1)
    return b :: rest

/-- `strlen`, looking at no more than `n` bytes. -/
def strlen (mem : Word → Option UInt8) : ℕ → Word → Option ℕ
  | 0, _ => none
  | n + 1, a => do
    let b ← mem a
    if b = 0 then return 0 else (· + 1) <$> strlen mem n (a + 1)

/-- `tty_write(buffer, len)` called for the file `f`, and `strlen(buffer)`, the value returned. -/
def ttyWrite (m : Ring0) (buffer len f : Word) : Outcome :=
  match bytes m.mem len.toNat buffer, strlen m.mem (2 ^ 32) buffer with
  | some out, some n =>
    ⟨some f, [], .returned (BitVec.ofNat 32 n)
      { m.console with screen := m.console.screen ++ out }⟩
  | _, _ => ⟨some f, [], .stuck⟩

/-- `sys_write`. -/
def sysWrite (m : Ring0) (fd buffer len : Word) : Outcome :=
  m.perform (m.checked (~~~wonlyFlag) 4 fd) fun f op =>
    if op = m.symbols.ttyWrite then m.ttyWrite buffer len f else ⟨some f, [], .jumped op⟩

/-- The flags of the terminal after `tty_ioctl(request, arg)`: `SET_FLAG_REQUEST` is `1` and
`CLEAR_FLAG_REQUEST` is `2`. -/
def ioctlFlags (flags request arg : Word) : Word :=
  if request = 1 then flags ||| arg else if request = 2 then flags &&& ~~~arg else flags

/-- `tty_ioctl(request, arg)` called for the file `f`. -/
def ttyIoctl (m : Ring0) (request arg f : Word) : Outcome :=
  ⟨some f, [], .returned 1 { m.console with flags := ioctlFlags m.console.flags request arg }⟩

/-- `sys_ioctl`, which looks at the operation only. -/
def sysIoctl (m : Ring0) (fd request arg : Word) : Outcome :=
  m.perform (m.fdWord fd >>= m.opOf 8) fun f op =>
    if op = m.symbols.ttyIoctl then m.ttyIoctl request arg f else ⟨some f, [], .jumped op⟩

/-! ## Proper calls -/

/-- One of the three calls, with its registers. -/
inductive Syscall
  | read (fd buffer len : Word)
  | write (fd buffer len : Word)
  | ioctl (fd request arg : Word)
deriving DecidableEq, Repr

/-- What a call does. -/
def exec (m : Ring0) : Syscall → Outcome
  | .read fd buffer len => m.sysRead fd buffer len
  | .write fd buffer len => m.sysWrite fd buffer len
  | .ioctl fd request arg => m.sysIoctl fd request arg

/-- `f` is one of the files in the first `total_fds` descriptors of the running task. -/
def Own (m : Ring0) (f : Word) : Prop :=
  ∃ i < (m.console.sched.task m.currentTask).totalFds,
    f = (m.console.sched.task m.currentTask).fds i

/-- The flags the file `f` was opened with. -/
def flagsOf (m : Ring0) (f : Word) : Word := (m.console.sched.file f).flags

/-- The file is opened in the mode of the call. -/
def Matches (m : Ring0) (f : Word) : Syscall → Prop
  | .read _ _ _ => m.flagsOf f = ronlyFlag
  | .write _ _ _ => m.flagsOf f = wonlyFlag
  | .ioctl _ _ _ => True

/-- A read stores below `KERNEL_BASE` and inside the caller's buffer, the other calls store nothing.
-/
def StoresWithin (o : Outcome) : Syscall → Prop
  | .read _ buffer len => ∀ p ∈ o.stores, p.1.toNat < kernelBase ∧
      ∃ j < len.toNat, p.1 = buffer + BitVec.ofNat 32 j
  | .write _ _ _ => o.stores = []
  | .ioctl _ _ _ => o.stores = []

/-- The call acts on an own file in the right mode, by an operation of the terminal, and stores
where it may, up to its end or to a fault of its own; or it returns `-1` and changes nothing. -/
def Obeys (m : Ring0) (c : Syscall) : Prop :=
  (∃ f, (m.exec c).file = some f ∧ m.Own f ∧ m.Matches f c ∧ StoresWithin (m.exec c) c ∧
      ∀ target, (m.exec c).fate ≠ .jumped target) ∨
    m.exec c = m.refused

/-- Every byte that a read comes to store is below `KERNEL_BASE`: of the `len` bytes from `buffer`
on, at most as many as are unread, those before the first that is not mapped. -/
def StaysBelow (m : Ring0) (buffer len : Word) : Prop :=
  ∀ j < min len.toNat m.console.unreadCount,
    (∀ i ≤ j, (m.mem (buffer + BitVec.ofNat 32 i)).isSome) →
      (buffer + BitVec.ofNat 32 j).toNat < kernelBase

/-- The test of `sys_read` or `sys_write` finds a reason to refuse: a flag of `mask`, or no
operation at offset `off`. -/
def Refuses (m : Ring0) (mask off fd : Word) : Prop :=
  ∃ f flags, m.fdWord fd = some f ∧ load m.mem (fileFlags f) = some flags ∧
    (flags &&& mask ≠ 0 ∨
      flags &&& mask = 0 ∧ ∃ ops, load m.mem (fileOps f) = some ops ∧
        load m.mem (ops + off) = some 0)

/-- The word the call uses as a file pointer is one of the task's own files, opened in the right
mode, and a read stays below `KERNEL_BASE`; or the test of the call refuses it. -/
def Proper (m : Ring0) : Syscall → Prop
  | .read fd buffer len =>
    (∃ f, m.fdWord fd = some f ∧ m.Own f ∧ m.flagsOf f = ronlyFlag ∧ m.StaysBelow buffer len) ∨
      m.Refuses (~~~ronlyFlag) 0 fd
  | .write fd _ _ =>
    (∃ f, m.fdWord fd = some f ∧ m.Own f ∧ m.flagsOf f = wonlyFlag) ∨ m.Refuses (~~~wonlyFlag) 4 fd
  | .ioctl fd _ _ =>
    (∃ f, m.fdWord fd = some f ∧ m.Own f) ∨
      ∃ f ops, m.fdWord fd = some f ∧ load m.mem (fileOps f) = some ops ∧
        load m.mem (ops + 8) = some 0

/-! ## The tests -/

/-- The operation is there. -/
lemma opOf_eq_some_iff {off f op g : Word} : m.opOf off f = some (some (g, op)) ↔
    g = f ∧ op ≠ 0 ∧ ∃ ops, load m.mem (fileOps f) = some ops ∧
      load m.mem (ops + off) = some op := by
  unfold opOf
  simp only [Option.bind_eq_bind, Option.bind_eq_some_iff, Option.pure_def, Option.some.injEq]
  constructor
  · rintro ⟨ops, hops, op', hop, heq⟩
    split_ifs at heq with hz
    simp only [Option.some.injEq, Prod.mk.injEq] at heq
    obtain ⟨rfl, rfl⟩ := heq
    exact ⟨rfl, hz, ops, hops, hop⟩
  · rintro ⟨rfl, hz, ops, hops, hop⟩
    exact ⟨ops, hops, op, hop, if_neg hz⟩

/-- The operation is `NULL`. -/
lemma opOf_eq_none_iff {off f : Word} : m.opOf off f = some none ↔
    ∃ ops, load m.mem (fileOps f) = some ops ∧ load m.mem (ops + off) = some 0 := by
  unfold opOf
  simp only [Option.bind_eq_bind, Option.bind_eq_some_iff, Option.pure_def, Option.some.injEq]
  constructor
  · rintro ⟨ops, hops, op, hop, heq⟩
    split_ifs at heq with hz
    exact ⟨ops, hops, hz ▸ hop⟩
  · rintro ⟨ops, hops, hop⟩
    exact ⟨ops, hops, 0, hop, if_pos rfl⟩

/-- The tests find a reason to refuse. -/
lemma checked_eq_none_iff {mask off : Word} :
    m.checked mask off fd = some none ↔ m.Refuses mask off fd := by
  unfold checked Refuses
  simp only [Option.bind_eq_bind, Option.bind_eq_some_iff]
  constructor
  · rintro ⟨f, hf, flags, hflags, h⟩
    refine ⟨f, flags, hf, hflags, ?_⟩
    split_ifs at h with hm
    · exact .inl hm
    · exact .inr ⟨not_not.mp hm, opOf_eq_none_iff.mp h⟩
  · rintro ⟨f, flags, hf, hflags, h⟩
    refine ⟨f, hf, flags, hflags, ?_⟩
    rcases h with hm | ⟨hm, h⟩
    · rw [if_pos hm]
      rfl
    · rw [if_neg (not_not.mpr hm)]
      exact opOf_eq_none_iff.mpr h

/-- The tests find the file and the operation. -/
lemma checked_eq_some_iff {mask off f op : Word} : m.checked mask off fd = some (some (f, op)) ↔
    m.fdWord fd = some f ∧ op ≠ 0 ∧
      (∃ flags, load m.mem (fileFlags f) = some flags ∧ flags &&& mask = 0) ∧
      ∃ ops, load m.mem (fileOps f) = some ops ∧ load m.mem (ops + off) = some op := by
  unfold checked
  simp only [Option.bind_eq_bind, Option.bind_eq_some_iff]
  constructor
  · rintro ⟨g, hg, flags, hflags, h⟩
    split_ifs at h with hm
    · simp at h
    · obtain ⟨rfl, hop, h⟩ := opOf_eq_some_iff.mp h
      exact ⟨hg, hop, ⟨flags, hflags, not_not.mp hm⟩, h⟩
  · rintro ⟨hf, hop, ⟨flags, hflags, hm⟩, h⟩
    refine ⟨f, hf, flags, hflags, ?_⟩
    rw [if_neg (not_not.mpr hm)]
    exact opOf_eq_some_iff.mpr ⟨rfl, hop, h⟩

/-! ## Own files -/

/-- The flags of an own file are in memory. -/
lemma Own.load_flags (h : m.Own f) : load m.mem (fileFlags f) = some (m.flagsOf f) := by
  obtain ⟨i, hi, rfl⟩ := h
  exact (m.files i hi).1

/-- The operations of an own file are those of the terminal. -/
lemma Own.load_ops (h : m.Own f) : load m.mem (fileOps f) = some m.console.sched.layout.ttyOps := by
  obtain ⟨i, hi, rfl⟩ := h
  exact (m.files i hi).2

/-- `read` is the first operation of `struct vnode_ops`. -/
lemma load_ttyRead (m : Ring0) :
    load m.mem (m.console.sched.layout.ttyOps + 0) = some m.symbols.ttyRead := by
  simpa using m.ops.1

/-- The test of a call on an own file, whose operation at `off` is `op`: it passes if the flags do.
-/
lemma Own.checked_iff {mask off op op' : Word} (h : m.Own f)
    (hop : load m.mem (m.console.sched.layout.ttyOps + off) = some op) (hne : op ≠ 0) :
    m.checked mask off fd = some (some (f, op')) ↔
      m.fdWord fd = some f ∧ m.flagsOf f &&& mask = 0 ∧ op' = op := by
  rw [checked_eq_some_iff, h.load_flags, h.load_ops]
  constructor
  · rintro ⟨hf, -, ⟨flags, hflags, hm⟩, ops, hops, hop'⟩
    obtain rfl := Option.some.inj hflags
    obtain rfl := Option.some.inj hops
    exact ⟨hf, hm, Option.some.inj (hop'.symm.trans hop)⟩
  · rintro ⟨hf, hm, rfl⟩
    exact ⟨hf, hne, ⟨_, rfl, hm⟩, _, rfl, hop⟩

/-! ## Stores -/

/-- The address after `a` is reached one byte later. -/
lemma add_one_add (a : Word) (j : ℕ) :
    a + 1 + BitVec.ofNat 32 j = a + BitVec.ofNat 32 (j + 1) := by
  rw [BitVec.ofNat_add, BitVec.add_assoc, BitVec.add_comm (BitVec.ofNat 32 j)]
  rfl

/-- The addresses stored to are those before the first one that is not mapped. -/
lemma exists_mem_storeBytes_iff {mem : Word → Option UInt8} {bs : List UInt8} {a x : Word} :
    (∃ b, (x, b) ∈ storeBytes mem a bs) ↔
      ∃ j < bs.length, x = a + BitVec.ofNat 32 j ∧
        ∀ i ≤ j, (mem (a + BitVec.ofNat 32 i)).isSome := by
  induction bs generalizing a with
  | nil => simp [storeBytes]
  | cons c bs ih =>
    rw [storeBytes]
    split_ifs with hmem
    · simp only [List.mem_cons, Prod.mk.injEq, exists_or, ih, List.length_cons]
      constructor
      · rintro (⟨b, rfl, -⟩ | ⟨j, hj, rfl, hall⟩)
        · refine ⟨0, Nat.succ_pos _, by simp, fun i hi => ?_⟩
          obtain rfl := Nat.le_zero.mp hi
          simpa using hmem
        · refine ⟨j + 1, Nat.succ_lt_succ hj, add_one_add a j, fun i hi => ?_⟩
          cases i with
          | zero => simpa using hmem
          | succ i =>
            rw [← add_one_add]
            exact hall i (by omega)
      · rintro ⟨j, hj, rfl, hall⟩
        cases j with
        | zero => exact .inl ⟨c, by simp, rfl⟩
        | succ j =>
          refine .inr ⟨j, Nat.lt_of_succ_lt_succ hj, (add_one_add a j).symm, fun i hi => ?_⟩
          rw [add_one_add]
          exact hall (i + 1) (by omega)
    · constructor
      · simp
      · rintro ⟨j, -, -, hall⟩
        have := hall 0 (Nat.zero_le _)
        exact absurd (by simpa using this) hmem

/-- A read returns as many characters as it is asked for or as there are. -/
lemma length_ttyRead (m : Ring0) (len : ℕ) :
    (m.console.ttyRead len).1.length = min len m.console.unreadCount := by
  obtain ⟨u, hu⟩ := m.buffered
  rw [(hu.ttyRead len).1, List.length_take, hu.length_eq]

/-- The stores of a read are where they may be if and only if they stay below `KERNEL_BASE`. -/
lemma storesWithin_ttyRead_iff :
    StoresWithin (m.ttyRead buffer len f) (.read fd buffer len) ↔ m.StaysBelow buffer len := by
  change (∀ p ∈ storeBytes m.mem buffer (m.console.ttyRead len.toNat).1, _) ↔ _
  unfold StaysBelow
  rw [← m.length_ttyRead]
  constructor
  · intro h j hj hall
    obtain ⟨b, hb⟩ := exists_mem_storeBytes_iff.mpr ⟨j, hj, rfl, hall⟩
    exact (h _ hb).1
  · rintro h ⟨x, b⟩ hp
    obtain ⟨j, hj, rfl, hall⟩ := exists_mem_storeBytes_iff.mp ⟨b, hp⟩
    refine ⟨h j hj hall, j, ?_, rfl⟩
    rw [m.length_ttyRead] at hj
    exact lt_of_lt_of_le hj (Nat.min_le_left _ _)

/-! ## Calls -/

section Perform

variable {r : Option (Option (Word × Word))} {call : Word → Word → Outcome}
  (hfile : ∀ f op, (call f op).file = some f)

include hfile

/-- The file of a call is the one that the tests have found. -/
lemma file_perform_iff : (m.perform r call).file = some f ↔ ∃ op, r = some (some (f, op)) := by
  rcases r with _ | _ | ⟨g, op⟩
  · simp [perform]
  · simp [perform, refused]
  · simp only [perform, hfile, Option.some.injEq, Prod.mk.injEq]
    exact ⟨fun h => ⟨op, h, rfl⟩, fun ⟨_, h, _⟩ => h⟩

/-- A call is refused when the tests say so. -/
lemma perform_eq_refused_iff : m.perform r call = m.refused ↔ r = some none := by
  constructor
  · intro h
    rcases r with _ | _ | ⟨g, op⟩
    · simp [perform, refused] at h
    · rfl
    · have := congrArg Outcome.file h
      rw [show m.perform (some (some (g, op))) call = call g op from rfl, hfile] at this
      exact absurd this (by simp [refused])
  · rintro rfl
    rfl

/-- A call obeys if it finds an own file and the operation obeys, or if it is refused. -/
lemma obeys_iff_perform {c : Syscall} (hexec : m.exec c = m.perform r call) :
    m.Obeys c ↔ (∃ f op, r = some (some (f, op)) ∧ m.Own f ∧ m.Matches f c ∧
        StoresWithin (call f op) c ∧ ∀ target, (call f op).fate ≠ .jumped target) ∨
      r = some none := by
  unfold Obeys
  rw [hexec, perform_eq_refused_iff hfile]
  refine or_congr_left ⟨?_, ?_⟩
  · rintro ⟨f, hf, h⟩
    obtain ⟨op, rfl⟩ := (file_perform_iff hfile).mp hf
    exact ⟨f, op, rfl, h⟩
  · rintro ⟨f, op, rfl, h⟩
    exact ⟨f, hfile f op, h⟩

end Perform

/-- **A read** obeys if and only if it is proper. -/
lemma obeys_read_iff : m.Obeys (.read fd buffer len) ↔ m.Proper (.read fd buffer len) := by
  rw [obeys_iff_perform (r := m.checked (~~~ronlyFlag) 0 fd) ?_ rfl, checked_eq_none_iff]
  · refine or_congr_left ⟨?_, ?_⟩
    · rintro ⟨f, op, hr, hown, hmode, hstores, -⟩
      obtain ⟨hf, -, rfl⟩ := (hown.checked_iff m.load_ttyRead m.symbols_ne.1).mp hr
      rw [if_pos rfl, storesWithin_ttyRead_iff] at hstores
      exact ⟨f, hf, hown, hmode, hstores⟩
    · rintro ⟨f, hf, hown, hmode, hbelow⟩
      refine ⟨f, m.symbols.ttyRead, ?_, hown, hmode, ?_⟩
      · refine (hown.checked_iff m.load_ttyRead m.symbols_ne.1).mpr ⟨hf, ?_, rfl⟩
        rw [hmode]
        decide
      · rw [if_pos rfl, storesWithin_ttyRead_iff]
        refine ⟨hbelow, fun target => ?_⟩
        unfold ttyRead
        dsimp only
        split_ifs <;> simp
  · intro f op
    split_ifs <;> rfl

/-- **A write** obeys if and only if it is proper. -/
lemma obeys_write_iff : m.Obeys (.write fd buffer len) ↔ m.Proper (.write fd buffer len) := by
  have hwrite : ∀ f, (m.ttyWrite buffer len f).file = some f ∧
      (m.ttyWrite buffer len f).stores = [] ∧
      ∀ target, (m.ttyWrite buffer len f).fate ≠ .jumped target := by
    intro f
    unfold ttyWrite
    split <;> simp
  rw [obeys_iff_perform (r := m.checked (~~~wonlyFlag) 4 fd) ?_ rfl, checked_eq_none_iff]
  · refine or_congr_left ⟨?_, ?_⟩
    · rintro ⟨f, op, hr, hown, hmode, -, -⟩
      exact ⟨f, (checked_eq_some_iff.mp hr).1, hown, hmode⟩
    · rintro ⟨f, hf, hown, hmode⟩
      refine ⟨f, m.symbols.ttyWrite, ?_, hown, hmode, ?_⟩
      · refine (hown.checked_iff m.ops.2.1 m.symbols_ne.2.1).mpr ⟨hf, ?_, rfl⟩
        rw [hmode]
        decide
      · rw [if_pos rfl]
        exact (hwrite f).2
  · intro f op
    split_ifs
    · exact (hwrite f).1
    · rfl

/-- **An `ioctl`** obeys if and only if it is proper. -/
lemma obeys_ioctl_iff : m.Obeys (.ioctl fd request arg) ↔ m.Proper (.ioctl fd request arg) := by
  rw [obeys_iff_perform (r := m.fdWord fd >>= m.opOf 8) ?_ rfl]
  · refine or_congr ⟨?_, ?_⟩ ?_
    · rintro ⟨f, op, hr, hown, -⟩
      obtain ⟨g, hg, hr⟩ := Option.bind_eq_some_iff.mp hr
      obtain ⟨rfl, -⟩ := opOf_eq_some_iff.mp hr
      exact ⟨f, hg, hown⟩
    · rintro ⟨f, hf, hown⟩
      refine ⟨f, m.symbols.ttyIoctl, ?_, hown, trivial, ?_⟩
      · refine Option.bind_eq_some_iff.mpr ⟨f, hf, opOf_eq_some_iff.mpr ⟨rfl, m.symbols_ne.2.2, ?_⟩⟩
        exact ⟨_, hown.load_ops, m.ops.2.2⟩
      · rw [if_pos rfl]
        exact ⟨rfl, by simp [ttyIoctl]⟩
    · simp only [Option.bind_eq_bind, Option.bind_eq_some_iff, opOf_eq_none_iff]
      exact ⟨fun ⟨f, hf, ops, h⟩ => ⟨f, ops, hf, h⟩, fun ⟨f, ops, hf, h⟩ => ⟨f, hf, ops, h⟩⟩
  · intro f op
    split_ifs <;> rfl

/-- **A call on a file obeys if and only if it is proper**: it acts on one of the task's own files
in the right mode and stores below `KERNEL_BASE` inside the caller's buffer, or returns `-1` and
changes nothing, exactly when the word at `fds[fd]` is one of the task's own files in that mode and
the bytes read stay below `KERNEL_BASE`, or the function's own test refuses the file.

**Proof sketch.** For each of the three calls, the tests of the source come down to the words they
load. If they refuse the file, nothing is done; if they pass, the function of the terminal is
called, and the bytes it loads and stores are known, so that it obeys exactly when they stay below
`KERNEL_BASE`. -/
theorem obeys_iff_proper (m : Ring0) (c : Syscall) : m.Obeys c ↔ m.Proper c := by
  cases c with
  | read fd buffer len => exact obeys_read_iff
  | write fd buffer len => exact obeys_write_iff
  | ioctl fd request arg => exact obeys_ioctl_iff

/-! ## The terminal's readers -/

/-- **On the task's own descriptors** `sys_read` leaves the console as the function does that the
readers of the terminal are modelled with, and returns its value. -/
theorem console_sysRead {i : ℕ} (hi : i < (m.console.sched.task m.currentTask).totalFds) {v : Word}
    {k : Console} (h : (m.sysRead (BitVec.ofNat 32 i) buffer len).fate = .returned v k) :
    k = (m.console.sysRead i len.toNat).2 ∧
      v = ((m.console.sysRead i len.toNat).1.elim (-1) fun out => BitVec.ofNat 32 out.length) := by
  have hown : m.Own ((m.console.sched.task m.currentTask).fds i) := ⟨i, hi, rfl⟩
  have hword : m.fdWord (BitVec.ofNat 32 i) = some ((m.console.sched.task m.currentTask).fds i) :=
    m.fds i (lt_of_lt_of_le hi m.totalFds)
  unfold Console.sysRead
  split_ifs with hmode
  · have hrefused : m.checked (~~~ronlyFlag) 0 (BitVec.ofNat 32 i) = some none :=
      checked_eq_none_iff.mpr ⟨_, _, hword, hown.load_flags, .inl hmode⟩
    rw [sysRead, hrefused] at h
    obtain ⟨rfl, rfl⟩ : -1 = v ∧ m.console = k := by simpa [perform, refused] using h
    exact ⟨rfl, rfl⟩
  · have hpass :
      m.checked (~~~ronlyFlag) 0 (BitVec.ofNat 32 i) = some (some (_, m.symbols.ttyRead)) :=
      (hown.checked_iff m.load_ttyRead m.symbols_ne.1).mpr ⟨hword, not_not.mp hmode, rfl⟩
    rw [sysRead, hpass] at h
    simp only [perform, if_pos, ttyRead] at h
    split_ifs at h with hall
    obtain ⟨rfl, rfl⟩ := Fate.returned.inj h
    exact ⟨rfl, rfl⟩

/-! ## A read from standard output -/

/-- The blocks of a task on the kernel's heap. -/
def grant : Grant where
  task := 0xC0401000#32
  stdin := 0xC0402000#32
  stdout := 0xC0402100#32
  stderr := 0xC0402200#32
  stack := 0xC0403000#32
  pd := 0x00200000#32

/-- The task's blocks after `create_task`, with the task running. -/
def sched : Sched :=
  { ({ (default : Sched) with
    layout := { (default : Layout) with ttyOps := 0xC0400100#32 } }.createTask
      grant userCode .ring3) with currentTask := 0xC0401000#32 }

/-- The words of the kernel's memory that the calls look at: the operations of the terminal, the
three files and the task's descriptors. -/
def words : List (Word × Word) :=
  [(0xC0400100#32, 0xC0100000#32), (0xC0400104#32, 0xC0100100#32), (0xC0400108#32, 0xC0100200#32),
    (0xC0402004#32, 0xC0400100#32), (0xC0402008#32, ronlyFlag),
    (0xC0402104#32, 0xC0400100#32), (0xC0402108#32, wonlyFlag),
    (0xC0402204#32, 0xC0400100#32), (0xC0402208#32, wonlyFlag)] ++
  (List.range 16).map fun i =>
    (fdSlot 0xC0401000#32 (BitVec.ofNat 32 i), (sched.task 0xC0401000#32).fds i)

/-- The memory: those words, and the task's code and stack page. -/
def memory (a : Word) : Option UInt8 :=
  match words.lookup (a &&& ~~~3#32) with
  | some w => some ⟨(w >>> (8 * (a.toNat % 4))).setWidth 8⟩
  | none => if 0x1000 ≤ a.toNat ∧ a.toNat < 0x3000 then some 0 else none

/-- A task with its three files, and a line in the buffer. -/
def oneLine : Ring0 where
  console := ⟨sched, fun _ => newline, 0, 1, 0#32, []⟩
  mem := memory
  symbols := ⟨0xC0100000#32, 0xC0100100#32, 0xC0100200#32⟩
  symbols_ne := by decide
  fds := by decide +kernel
  totalFds := by decide
  files := by decide +kernel
  ops := by decide +kernel
  buffered := ⟨[newline], .inl ⟨by decide, by decide, rfl⟩⟩

/-- **The task reads from its standard output**: `sys_read(1, 0x1000, 1)` passes the test, because a
file that is opened for writing only has no flag at all, and takes the character from the buffer. -/
theorem stdout_read : ¬ ∀ (m : Ring0) (c : Syscall), m.Obeys c := by
  intro hall
  rcases obeys_read_iff.mp (hall oneLine (.read 1 0x1000#32 1)) with ⟨f, hf, -, hmode, -⟩ | h
  · obtain rfl : 0xC0402100#32 = f := Option.some.inj ((by decide +kernel :
      some 0xC0402100#32 = oneLine.fdWord 1).trans hf)
    exact absurd hmode (by decide +kernel)
  · exact absurd (checked_eq_none_iff.mpr h) (by decide +kernel)

end Ring0

end AlphaOS
