import AlphaOS.Lib.Descriptors
import AlphaOS.Lib.Loop
import AlphaOS.Sched.Task
import Mathlib.Logic.Function.Basic
import Mathlib.Tactic.IntervalCases

set_option relaxedAutoImplicit false
set_option autoImplicit false

/-!
# The ways into the kernel

The global descriptor table that `gdt_init` of `kernel/gdt/gdt.c` builds and the interrupt
descriptor table that `idt_init` of `kernel/idt/idt.c` builds, as the processor reads them.

## Main definitions

* `AlphaOS.gdtSetGate`, `AlphaOS.gdtInit` — the segments and the task-state segment.
* `AlphaOS.idtSetDescriptor`, `AlphaOS.idtInit` — the gates.
* `AlphaOS.kernelTables` — both, as the processor finds them.

## Main results

* `AlphaOS.decode_gdtSetGate`, `AlphaOS.decode_idtSetDescriptor` — what the processor reads is what
  was meant.
* `AlphaOS.kernel_entered_iff` — user code enters the kernel by `int $0x80` only.
-/

namespace AlphaOS

open X86

/-! ## The global descriptor table -/

/-- `struct gdt_entry`. -/
structure GdtEntry where
  limitLow : BitVec 16 := 0
  baseLow : BitVec 16 := 0
  baseMiddle : BitVec 8 := 0
  access : BitVec 8 := 0
  granularity : BitVec 8 := 0
  baseHigh : BitVec 8 := 0
deriving DecidableEq, Repr

/-- The eight bytes of the packed structure, the last one on the left. -/
def GdtEntry.bytes (e : GdtEntry) : BitVec 64 :=
  e.baseHigh ++ e.granularity ++ e.access ++ e.baseMiddle ++ e.baseLow ++ e.limitLow

/-- `gdt_set_gate`. -/
def gdtSetGate (entries : ℕ → GdtEntry) (num : ℕ) (base limit : Word) (access gran : BitVec 8) :
    ℕ → GdtEntry :=
  Function.update entries num
    { baseLow := (base &&& 0xFFFF#32).setWidth 16
      baseMiddle := ((base >>> 16) &&& 0xFF#32).setWidth 8
      baseHigh := ((base >>> 24) &&& 0xFF#32).setWidth 8
      limitLow := (limit &&& 0xFFFF#32).setWidth 16
      granularity := ((limit >>> 16) &&& 0x0F#32).setWidth 8 ||| (gran &&& 0xF0#8)
      access := access }

/-- `gdt_entries` after `gdt_init`; `tss` is the address of the task-state segment, which has 104
bytes. -/
def gdtInit (tss : Word) : ℕ → GdtEntry :=
  let entries := gdtSetGate (fun _ => {}) 0 0#32 0#32 0#8 0#8
  let entries := gdtSetGate entries 1 0#32 0xFFFFFFFF#32 0x9A#8 0xCF#8
  let entries := gdtSetGate entries 2 0#32 0xFFFFFFFF#32 0x92#8 0xCF#8
  let entries := gdtSetGate entries 3 0#32 0xFFFFFFFF#32 0xF2#8 0xCF#8
  let entries := gdtSetGate entries 4 0#32 0xFFFFFFFF#32 0xFA#8 0xCF#8
  gdtSetGate entries 5 tss 103#32 0x89#8 0#8

/-- The low half of a word. -/
lemma and_low (v : Word) : (v &&& 0xFFFF#32).setWidth 16 = v.extractLsb' 0 16 := by
  apply BitVec.eq_of_getLsbD_eq
  intro i hi
  interval_cases i <;> simp

/-- A byte of a word. -/
lemma shift_and_byte (v : Word) (k : ℕ) :
    ((v >>> k) &&& 0xFF#32).setWidth 8 = v.extractLsb' k 8 := by
  apply BitVec.eq_of_getLsbD_eq
  intro i hi
  interval_cases i <;> simp

/-- The bytes of an address, put together again. -/
lemma append_base (v : Word) :
    v.extractLsb' 24 8 ++ v.extractLsb' 16 8 ++ v.extractLsb' 0 16 = v := by
  apply BitVec.eq_of_getLsbD_eq
  intro i hi
  simp only [BitVec.getLsbD_append, BitVec.getLsbD_extractLsb']
  by_cases h₁ : i < 16
  · simp [h₁]
  by_cases h₂ : i - 16 < 8
  · have hidx : 16 + (i - 16) = i := by omega
    simp [h₁, h₂, hidx]
  · have hidx : 24 + (i - 16 - 8) = i := by omega
    have hlt : i - 16 - 8 < 8 := by omega
    simp [h₁, h₂, hidx, hlt]

/-- **What `gdt_set_gate` writes is read back**, the limit without its top twelve bits. -/
theorem decode_gdtSetGate (entries : ℕ → GdtEntry) (num : ℕ) (base limit : Word)
    (access gran : BitVec 8) :
    SegDescriptor.decode (gdtSetGate entries num base limit access gran num).bytes =
      ⟨base, limit.extractLsb' 0 20, access, gran.extractLsb' 4 4⟩ := by
  have hlow : (((limit >>> 16) &&& 0x0F#32).setWidth 8 ||| (gran &&& 0xF0#8)).extractLsb' 0 4 =
      limit.extractLsb' 16 4 := by
    apply BitVec.eq_of_getLsbD_eq
    intro i hi
    interval_cases i <;> simp
  have hhigh : (((limit >>> 16) &&& 0x0F#32).setWidth 8 ||| (gran &&& 0xF0#8)).extractLsb' 4 4 =
      gran.extractLsb' 4 4 := by
    apply BitVec.eq_of_getLsbD_eq
    intro i hi
    interval_cases i <;> simp
  have hlimit : limit.extractLsb' 16 4 ++ limit.extractLsb' 0 16 = limit.extractLsb' 0 20 := by
    apply BitVec.eq_of_getLsbD_eq
    intro i hi
    simp only [BitVec.getLsbD_append, BitVec.getLsbD_extractLsb']
    by_cases h : i < 16
    · simp [h, hi]
    · have hidx : 16 + (i - 16) = i := by omega
      have hlt : i - 16 < 4 := by omega
      simp [h, hi, hidx, hlt]
  rw [gdtSetGate, Function.update_self, GdtEntry.bytes, SegDescriptor.decode_bytes]
  simp only [hlow, hhigh, hlimit, and_low, shift_and_byte, append_base]

/-! ## The interrupt descriptor table -/

/-- `struct idt_entry`. -/
structure IdtEntry where
  isrLow : BitVec 16 := 0
  kernelCs : BitVec 16 := 0
  reserved : BitVec 8 := 0
  attributes : BitVec 8 := 0
  isrHigh : BitVec 16 := 0
deriving DecidableEq, Repr

/-- The eight bytes of the packed structure, the last one on the left. -/
def IdtEntry.bytes (e : IdtEntry) : BitVec 64 :=
  e.isrHigh ++ e.attributes ++ e.reserved ++ e.kernelCs ++ e.isrLow

/-- `idt_set_descriptor`. -/
def idtSetDescriptor (entries : ℕ → IdtEntry) (vector : ℕ) (isr : Word) (flags : BitVec 8) :
    ℕ → IdtEntry :=
  Function.update entries vector
    { isrLow := (isr &&& 0xFFFF#32).setWidth 16
      kernelCs := 0x08#16
      attributes := flags
      isrHigh := (isr >>> 16).setWidth 16
      reserved := 0#8 }

/-- `idt_entries` after `idt_init`; the arguments are the addresses of the stubs. -/
def idtInit (isrStubTable : ℕ → Word) (irq0 irq1 syscall : Word) : ℕ → IdtEntry :=
  let entries := Loop.forEach
    (fun vector entries => idtSetDescriptor entries vector (isrStubTable vector) 0x8E#8)
    0 32 fun _ => {}
  let entries := idtSetDescriptor entries 32 irq0 0x8E#8
  let entries := idtSetDescriptor entries 33 irq1 0x8E#8
  idtSetDescriptor entries 0x80 syscall 0xEE#8

/-- **What `idt_set_descriptor` writes is read back.** -/
theorem decode_idtSetDescriptor (entries : ℕ → IdtEntry) (vector : ℕ) (isr : Word)
    (flags : BitVec 8) :
    Gate.decode (idtSetDescriptor entries vector isr flags vector).bytes =
      ⟨isr, 0x08#16, flags⟩ := by
  have hhigh : (isr >>> 16).setWidth 16 = isr.extractLsb' 16 16 := by
    apply BitVec.eq_of_getLsbD_eq
    intro i hi
    simp [hi]
  have hisr : isr.extractLsb' 16 16 ++ isr.extractLsb' 0 16 = isr :=
    BitVec.extractLsb'_append_extractLsb'
  rw [idtSetDescriptor, Function.update_self, IdtEntry.bytes, Gate.decode_bytes]
  simp only [and_low, hhigh, hisr]

/-- The handler of a vector and the least privileged level that may call it. -/
def handlerOf (isrStubTable : ℕ → Word) (irq0 irq1 syscall : Word) (v : ℕ) :
    Option (Word × BitVec 8) :=
  if v < 32 then some (isrStubTable v, 0x8E#8)
  else if v = 32 then some (irq0, 0x8E#8)
  else if v = 33 then some (irq1, 0x8E#8)
  else if v = 0x80 then some (syscall, 0xEE#8)
  else none

/-- The loop over the exceptions. -/
lemma forEach_idtSetDescriptor (isrStubTable : ℕ → Word) (v : ℕ) :
    (Loop.forEach (fun vector entries =>
      idtSetDescriptor entries vector (isrStubTable vector) 0x8E#8) 0 32
      (fun _ => {})) v =
      if v < 32 then idtSetDescriptor (fun _ => {}) v (isrStubTable v) 0x8E#8 v else {} := by
  have hloop : ∀ v, Loop.forEach
      (fun vector entries => idtSetDescriptor entries vector (isrStubTable vector) 0x8E#8)
      0 32 (fun _ => {}) v =
        if v < 0 + 32 then idtSetDescriptor (fun _ => {}) v (isrStubTable v) 0x8E#8 v else {} := by
    refine Loop.forEach_rule (I := fun k (entries : ℕ → IdtEntry) => ∀ v, entries v =
      if v < k then idtSetDescriptor (fun _ => {}) v (isrStubTable v) 0x8E#8 v else {}) ?_ fun _ =>
        rfl
    intro k entries _ _ hI v
    by_cases hv : v = k
    · subst hv
      rw [if_pos (Nat.lt_succ_self v), idtSetDescriptor, idtSetDescriptor, Function.update_self,
        Function.update_self]
    · have hlt : v < k + 1 ↔ v < k := by omega
      rw [idtSetDescriptor, Function.update_of_ne hv, hI v]
      simp only [hlt]
  exact hloop v

/-- **The gates after `idt_init`.** -/
lemma decode_idtInit (isrStubTable : ℕ → Word) (irq0 irq1 syscall : Word) (v : ℕ) :
    Gate.decode (idtInit isrStubTable irq0 irq1 syscall v).bytes =
      match handlerOf isrStubTable irq0 irq1 syscall v with
      | some (isr, flags) => ⟨isr, 0x08#16, flags⟩
      | none => ⟨0#32, 0#16, 0#8⟩ := by
  have hset (entries : ℕ → IdtEntry) (w : ℕ) (isr : Word) (flags : BitVec 8) (hv : v ≠ w) :
      idtSetDescriptor entries w isr flags v = entries v := Function.update_of_ne hv _ _
  unfold idtInit
  by_cases h₁ : v = 0x80
  · rw [h₁, decode_idtSetDescriptor]
    rfl
  rw [hset _ _ _ _ h₁]
  by_cases h₂ : v = 33
  · rw [h₂, decode_idtSetDescriptor]
    rfl
  rw [hset _ _ _ _ h₂]
  by_cases h₃ : v = 32
  · rw [h₃, decode_idtSetDescriptor]
    rfl
  rw [hset _ _ _ _ h₃, forEach_idtSetDescriptor, handlerOf, if_neg h₃, if_neg h₂, if_neg h₁]
  split_ifs
  · exact decode_idtSetDescriptor ..
  · decide

/-! ## Entering the kernel -/

/-- The tables that `lgdt` and `lidt` load. -/
def kernelTables (tss : Word) (isrStubTable : ℕ → Word) (irq0 irq1 syscall : Word) : Tables where
  gdt i := (gdtInit tss i).bytes
  gdtLimit := 47#16
  idt v := (idtInit isrStubTable irq0 irq1 syscall v).bytes
  idtLimit := 2047#16

variable {tss : Word} {isrStubTable : ℕ → Word} {irq0 irq1 syscall : Word}

/-- **The segments after `gdt_init`**: code and data of the kernel, data and code of the tasks, and
the task-state segment. -/
lemma decode_gdtInit (tss : Word) :
    SegDescriptor.decode (gdtInit tss 1).bytes = ⟨0#32, 0xFFFFF#20, 0x9A#8, 0xC#4⟩ ∧
      SegDescriptor.decode (gdtInit tss 2).bytes = ⟨0#32, 0xFFFFF#20, 0x92#8, 0xC#4⟩ ∧
      SegDescriptor.decode (gdtInit tss 3).bytes = ⟨0#32, 0xFFFFF#20, 0xF2#8, 0xC#4⟩ ∧
      SegDescriptor.decode (gdtInit tss 4).bytes = ⟨0#32, 0xFFFFF#20, 0xFA#8, 0xC#4⟩ ∧
      SegDescriptor.decode (gdtInit tss 5).bytes = ⟨tss, 103#20, 0x89#8, 0#4⟩ := by
  have hentry (num : ℕ) (base limit : Word) (access gran : BitVec 8)
      (h : gdtInit tss num = gdtSetGate (fun _ => {}) num base limit access gran num) :
      SegDescriptor.decode (gdtInit tss num).bytes =
        ⟨base, limit.extractLsb' 0 20, access, gran.extractLsb' 4 4⟩ := by
    rw [h]
    exact decode_gdtSetGate ..
  refine ⟨hentry 1 0#32 0xFFFFFFFF#32 0x9A#8 0xCF#8 ?_,
    hentry 2 0#32 0xFFFFFFFF#32 0x92#8 0xCF#8 ?_,
    hentry 3 0#32 0xFFFFFFFF#32 0xF2#8 0xCF#8 ?_, hentry 4 0#32 0xFFFFFFFF#32 0xFA#8 0xCF#8 ?_,
    hentry 5 tss 103#32 0x89#8 0#8 ?_⟩ <;> simp [gdtInit, gdtSetGate]

/-- **The selectors name flat segments**, of the privilege level they ask for; `KERNEL_CS` and
`USER_CS` name code, the others data. -/
theorem segment_of_selector {sel : Word}
    (h : sel = kernelCs ∨ sel = kernelDs ∨ sel = userCs ∨ sel = userDs) :
    ∃ d, (kernelTables tss isrStubTable irq0 irq1 syscall).segment (sel.setWidth 16) = some d ∧
      d.base = 0#32 ∧
      d.limit = 0xFFFFF#20 ∧ d.flags = 0xC#4 ∧ d.present = true ∧ d.dpl = sel.setWidth 2 ∧
      (d.isCode = true ↔ sel = kernelCs ∨ sel = userCs) := by
  obtain ⟨h₁, h₂, h₃, h₄, -⟩ := decode_gdtInit tss
  rcases h with rfl | rfl | rfl | rfl
  · exact ⟨_, congrArg some h₁, by decide⟩
  · exact ⟨_, congrArg some h₂, by decide⟩
  · exact ⟨_, congrArg some h₄, by decide⟩
  · exact ⟨_, congrArg some h₃, by decide⟩

/-- The vectors with a handler, and the attributes of their gates. -/
lemma handlerOf_eq_some {v : ℕ} {isr : Word} {flags : BitVec 8}
    (h : handlerOf isrStubTable irq0 irq1 syscall v = some (isr, flags)) :
    v ≤ 0x80 ∧ flags = if v = 0x80 then 0xEE#8 else 0x8E#8 := by
  unfold handlerOf at h
  grind

/-- **The ways into the kernel.** A vector with a handler leads to it, at level 0 with the kernel's
code segment; code that is not at level 0 can use the `int` instruction for the system calls only,
so it cannot raise an exception or a hardware interrupt itself. All else faults.

**Proof sketch.** The bytes of each entry that `idt_init` writes are decoded as the processor does
it, and so is the descriptor of the kernel's code segment; the privilege of a gate is `3` for the
system calls only. -/
theorem kernel_entered_iff (tss : Word) (isrStubTable : ℕ → Word) (irq0 irq1 syscall : Word)
    (cpl : BitVec 2) (software : Bool) (v : ℕ) :
    (kernelTables tss isrStubTable irq0 irq1 syscall).deliver cpl software v =
      if software = true ∧ cpl ≠ 0#2 ∧ v ≠ 0x80 then none
      else (handlerOf isrStubTable irq0 irq1 syscall v).map fun h => (h.1, 0x08#16, 0#2) := by
  have hdecode := decode_idtInit isrStubTable irq0 irq1 syscall v
  set t := kernelTables tss isrStubTable irq0 irq1 syscall
  have hgate : t.gate v = if 2047 < 8 * v + 7 then none
      else some (Gate.decode (idtInit isrStubTable irq0 irq1 syscall v).bytes) := rfl
  cases hh : handlerOf isrStubTable irq0 irq1 syscall v with
  | none =>
    have hfault : t.deliver cpl software v = none := by
      rw [hh] at hdecode
      rw [Tables.deliver, hgate, hdecode]
      split_ifs
      · rfl
      · have hdead : (⟨0#32, 0#16, 0#8⟩ : Gate).isInterrupt = false := by decide
        simp [hdead, guard]
    rw [hfault]
    split_ifs <;> rfl
  | some h =>
    obtain ⟨isr, flags⟩ := h
    obtain ⟨hv, hflags⟩ := handlerOf_eq_some hh
    obtain ⟨d, hd, -, -, -, hpresent, hdpl, hcode⟩ :
        ∃ d, t.segment (kernelCs.setWidth 16) = some d ∧ _ :=
      segment_of_selector (.inl rfl)
    rw [hh] at hdecode
    have hlive : (⟨isr, 0x08#16, flags⟩ : Gate).isInterrupt = true ∧
        (⟨isr, 0x08#16, flags⟩ : Gate).present = true := by
      rw [hflags]
      split_ifs <;> simp [Gate.isInterrupt, Gate.present]
    have hlevel : (⟨isr, 0x08#16, flags⟩ : Gate).dpl = if v = 0x80 then 3#2 else 0#2 := by
      rw [hflags]
      split_ifs <;> simp [Gate.dpl]
    have hcpl : cpl ≤ 3#2 ∧ (cpl ≤ 0#2 ↔ cpl = 0#2) ∧ 0#2 ≤ cpl := by
      revert cpl
      decide
    have hguard : (!software || decide (cpl ≤ (⟨isr, 0x08#16, flags⟩ : Gate).dpl)) =
        !decide (software = true ∧ cpl ≠ 0#2 ∧ v ≠ 0x80) := by
      rw [hlevel]
      by_cases h₁ : v = 0x80
      · simp [h₁, hcpl.1]
      · cases software <;> simp [h₁, hcpl.2.1]
    have hsegment : t.segment 0x08#16 = some d := hd
    have hring0 : d.dpl = 0#2 := hdpl
    have hloads : (d.isCode && d.present && decide (d.dpl ≤ cpl)) = true := by
      rw [hcode.mpr (.inl rfl), hpresent, hring0]
      simp [hcpl.2.2]
    rw [Tables.deliver, hgate, if_neg (by omega), hdecode]
    simp only [Option.bind_eq_bind, Option.bind_some, hguard, hlive.1, hlive.2, hsegment, hloads]
    rw [hring0]
    split_ifs with h
    · simp [h, guard]
    · simp [h, guard]

end AlphaOS
