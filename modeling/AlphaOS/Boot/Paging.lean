import AlphaOS.Boot.Placement
import AlphaOS.Lib.X86

set_option relaxedAutoImplicit false
set_option autoImplicit false

/-!
# Turning paging on

The code of `kernel/boot.s` that fills the boot page table and enters it twice in the page
directory, and what the processor then finds at every address. The page directory and the boot page
table are two pages of `.bss`, one after the other.

## Main definitions

* `AlphaOS.pageLoop`, `AlphaOS.startPaging` — the code of `_start` up to where paging is on.
* `AlphaOS.translate` — the processor's walk of the two levels.

## Main results

* `AlphaOS.translate_startPaging` — exactly the kernel's pages and the text screen are mapped, at
  address 0 and at 3 GiB.
* `AlphaOS.pageTable_startPaging` — the table is the one that the model of `init_memory` starts
  from.
-/

namespace AlphaOS

open X86

variable {kernelStart kernelEnd pd : BitVec 32} {mem : Memory} {i k n : ℕ}

/-! ## The two pages -/

/-- The word `k` of the page directory and the boot page table, which follows it. -/
def tableWord (mem : Memory) (pd : BitVec 32) (k : ℕ) : BitVec 32 :=
  load32 mem (pd + BitVec.ofNat 32 (4 * k))

/-- A store to one of these words. -/
lemma tableWord_store {v : BitVec 32} (hi : i < 2048) (hk : k < 2048) :
    tableWord (store32 mem (pd + BitVec.ofNat 32 (4 * i)) v) pd k =
      if k = i then v else tableWord mem pd k := by
  unfold tableWord
  split_ifs with h
  · rw [h]
    exact load32_store32_self _ _ _
  · refine load32_store32_of_apart _ _ ?_
    have hi' : (BitVec.ofNat 32 (4 * i)).toNat = 4 * i := by
      rw [BitVec.toNat_ofNat, Nat.mod_eq_of_lt (by omega)]
    have hk' : (BitVec.ofNat 32 (4 * k)).toNat = 4 * k := by
      rw [BitVec.toNat_ofNat, Nat.mod_eq_of_lt (by omega)]
    generalize BitVec.ofNat 32 (4 * i) = a at hi' ⊢
    generalize BitVec.ofNat 32 (4 * k) = b at hk' ⊢
    constructor <;> bv_omega

/-! ## The code -/

/-- The registers and the memory in the loop of `_start`; `%ecx` counts down the iterations. -/
structure BootRegs where
  edi : BitVec 32
  esi : BitVec 32
  mem : Memory

/-- Label `3`: the next page and the next entry. -/
def BootRegs.advance (s : BootRegs) : BootRegs :=
  { s with esi := s.esi + 4096#32, edi := s.edi + 4#32 }

/-- The loop of `_start` from label `1` on. -/
def pageLoop (kernelStart kernelEnd : BitVec 32) : ℕ → BootRegs → BootRegs
  | 0, s => s
  | ecx + 1, s =>
    if s.esi.slt kernelStart then pageLoop kernelStart kernelEnd ecx s.advance
    else if kernelEnd.sle s.esi then s
    else pageLoop kernelStart kernelEnd ecx
      { s with mem := store32 s.mem s.edi (s.esi ||| 0x003#32) }.advance

/-- The loop of `_start` from its beginning; `pd` is the physical address of
`kernel_page_directory`. -/
def pageLoopStart (kernelStart kernelEnd pd : BitVec 32) (mem : Memory) : BootRegs :=
  pageLoop kernelStart kernelEnd 1023 ⟨pd + 4096#32, 0#32, mem⟩

/-- `_start` up to where paging is turned on: the loop, the entry of the text screen, and the two
entries of the directory. -/
def startPaging (kernelStart kernelEnd pd : BitVec 32) (mem : Memory) : Memory :=
  let mem := (pageLoopStart kernelStart kernelEnd pd mem).mem
  let mem := store32 mem (pd + BitVec.ofNat 32 (4 * (1024 + 1023))) (0x000B8000#32 ||| 0x003#32)
  let mem := store32 mem (pd + BitVec.ofNat 32 (4 * 0)) (pd + 4096#32 + 0x003#32)
  store32 mem (pd + BitVec.ofNat 32 (4 * 768)) (pd + 4096#32 + 0x003#32)

/-- The physical address of `va` under the page directory at `cr3`, if the entries of both levels
are present. -/
def translate (mem : Memory) (cr3 va : BitVec 32) : Option ℕ :=
  let pde := (load32 mem (cr3 + BitVec.ofNat 32 (4 * (va.toNat / 2 ^ 22)))).toNat
  if pde % 2 = 0 then none
  else
    let pte := (load32 mem (BitVec.ofNat 32 (pde / 4096 * 4096) +
      BitVec.ofNat 32 (4 * (va.toNat / 4096 % 1024)))).toNat
    if pte % 2 = 0 then none else some (pte / 4096 * 4096 + va.toNat % 4096)

/-! ## What the loop leaves -/

/-- The pages of the kernel: those from `_kernel_start` up to `_kernel_end`, compared as signed
numbers. -/
def KernelPage (kernelStart kernelEnd : BitVec 32) (i : ℕ) : Prop :=
  kernelStart.toInt ≤ (4096 * i : ℕ) ∧ ((4096 * i : ℕ) : ℤ) < kernelEnd.toInt

instance (kernelStart kernelEnd : BitVec 32) (i : ℕ) :
    Decidable (KernelPage kernelStart kernelEnd i) :=
  inferInstanceAs (Decidable (_ ∧ _))

/-- The entry of a page of the kernel. -/
lemma or_present (h : i < 2 ^ 20) :
    (BitVec.ofNat 32 (4096 * i) ||| 0x003#32).toNat = 4096 * i + 3 := by
  have hor := Nat.two_pow_add_eq_or_of_lt (i := 12) (b := 3) (by omega) i
  rw [BitVec.toNat_or, BitVec.toNat_ofNat, BitVec.toNat_ofNat, Nat.mod_eq_of_lt (by omega),
    Nat.mod_eq_of_lt (by omega)]
  exact hor.symm

/-- The comparisons of the loop. -/
lemma toInt_page (h : i < 2 ^ 19) : (BitVec.ofNat 32 (4096 * i)).toInt = (4096 * i : ℕ) := by
  have hlt : (BitVec.ofNat 32 (4096 * i)).toNat = 4096 * i := by
    rw [BitVec.toNat_ofNat, Nat.mod_eq_of_lt (by omega)]
  rw [BitVec.toInt_eq_toNat_of_lt (by omega), hlt]

/-- The address of a page is not negative. -/
lemma zero_le_page (i : ℕ) : (0#32 : BitVec 32).toInt ≤ (4096 * i : ℕ) := by
  have hzero : (0#32 : BitVec 32).toInt = 0 := rfl
  omega

/-- **The loop invariant.** From the page `i` on, the loop enters the pages of the kernel that are
left, and no other word changes. -/
lemma tableWord_pageLoop (kernelStart kernelEnd pd : BitVec 32) {s : BootRegs}
    (hesi : s.esi = BitVec.ofNat 32 (4096 * i))
    (hedi : s.edi = pd + BitVec.ofNat 32 (4 * (1024 + i))) (hn : i + n = 1023) (hk : k < 2048) :
    tableWord (pageLoop kernelStart kernelEnd n s).mem pd k =
      if 1024 + i ≤ k ∧ k < 1024 + 1023 ∧ KernelPage kernelStart kernelEnd (k - 1024) then
        BitVec.ofNat 32 (4096 * (k - 1024)) ||| 0x003#32
      else tableWord s.mem pd k := by
  induction n generalizing s i with
  | zero =>
    rw [if_neg (by omega)]
    rfl
  | succ n ih =>
    have hesi' : s.esi + 4096#32 = BitVec.ofNat 32 (4096 * (i + 1)) := by
      rw [hesi, Nat.mul_succ, BitVec.ofNat_add]
    have hedi' : s.edi + 4#32 = pd + BitVec.ofNat 32 (4 * (1024 + (i + 1))) := by
      rw [hedi, BitVec.add_assoc, ← Nat.add_assoc, Nat.mul_succ, BitVec.ofNat_add]
    have hsi : s.esi.toInt = (4096 * i : ℕ) := by
      rw [hesi]
      exact toInt_page (by omega)
    rw [pageLoop]
    by_cases hlow : s.esi.slt kernelStart
    · have hskip : ¬ KernelPage kernelStart kernelEnd i := by
        rw [BitVec.slt_iff_toInt_lt, hsi] at hlow
        exact fun h => absurd h.1 (by omega)
      rw [if_pos hlow, ih (s := s.advance) (i := i + 1) hesi' hedi' (by omega)]
      have hsame : 1024 + (i + 1) ≤ k ∧ k < 1024 + 1023 ∧
          KernelPage kernelStart kernelEnd (k - 1024) ↔
          1024 + i ≤ k ∧ k < 1024 + 1023 ∧ KernelPage kernelStart kernelEnd (k - 1024) := by
        refine and_congr_left fun ⟨_, h⟩ => ⟨fun h => by omega, fun hle => ?_⟩
        by_contra hlt
        have hik : i = k - 1024 := by omega
        exact hskip (hik ▸ h)
      simp only [hsame]
      rfl
    rw [if_neg hlow]
    rw [BitVec.slt_iff_toInt_lt, hsi] at hlow
    by_cases hhigh : kernelEnd.sle s.esi
    · -- the loop is left, and no later page is one of the kernel
      rw [if_pos hhigh, if_neg]
      rw [BitVec.sle_iff_toInt_le, hsi] at hhigh
      rintro ⟨hle, -, -, h⟩
      omega
    · rw [if_neg hhigh]
      rw [BitVec.sle_iff_toInt_le, hsi] at hhigh
      have hpage : KernelPage kernelStart kernelEnd i := ⟨by omega, by omega⟩
      have hstore : tableWord (store32 s.mem s.edi (s.esi ||| 0x003#32)) pd k =
          if k = 1024 + i then BitVec.ofNat 32 (4096 * i) ||| 0x003#32
          else tableWord s.mem pd k := by
        rw [hedi, hesi]
        exact tableWord_store (by omega) hk
      have hnext :=
        ih (s := ⟨s.edi + 4#32, s.esi + 4096#32, store32 s.mem s.edi (s.esi ||| 0x003#32)⟩)
          (i := i + 1)
        hesi' hedi' (by omega)
      rw [BootRegs.advance, hnext, hstore]
      by_cases hki : k = 1024 + i
      · have hik : k - 1024 = i := by omega
        rw [if_neg (by omega), if_pos hki,
          if_pos (by rw [hik]; exact ⟨by omega, by omega, hpage⟩), hik]
      · have hsame : 1024 + (i + 1) ≤ k ↔ 1024 + i ≤ k := by omega
        rw [if_neg hki]
        simp only [hsame]

/-! ## What the processor finds -/

/-- `.bss` is zero when `_start` begins. -/
def BssZero (mem : Memory) (pd : BitVec 32) : Prop := ∀ k < 2048, tableWord mem pd k = 0#32

/-- **The words of the directory and the table** when paging is turned on. -/
lemma tableWord_startPaging (kernelStart kernelEnd : BitVec 32) (hbss : BssZero mem pd)
    (hk : k < 2048) :
    tableWord (startPaging kernelStart kernelEnd pd mem) pd k =
      if k = 768 ∨ k = 0 then pd + 4096#32 + 0x003#32
      else if k = 2047 then 0x000B8000#32 ||| 0x003#32
      else if 1024 ≤ k ∧ KernelPage kernelStart kernelEnd (k - 1024) then
        BitVec.ofNat 32 (4096 * (k - 1024)) ||| 0x003#32
      else 0#32 := by
  have hloop := tableWord_pageLoop kernelStart kernelEnd pd (s := ⟨pd + 4096#32, 0#32, mem⟩)
    (i := 0) (n := 1023)
    rfl rfl rfl hk
  rw [startPaging, tableWord_store (by omega) hk, tableWord_store (by omega) hk,
    tableWord_store (by omega) hk,
    pageLoopStart, hloop, hbss k hk]
  grind

/-- The entries of the boot page table. -/
lemma tableWord_bootTable (hbss : BssZero mem pd) (hi : i < 1024) :
    (tableWord (startPaging kernelStart kernelEnd pd mem) pd (1024 + i)).toNat =
      if i = 1023 then 0xB8003
      else if KernelPage kernelStart kernelEnd i then 4096 * i + 3 else 0 := by
  have hindex : 1024 + i - 1024 = i := by omega
  rw [tableWord_startPaging kernelStart kernelEnd hbss (by omega), if_neg (by omega), hindex]
  by_cases hlast : i = 1023
  · rw [if_pos (by omega), if_pos hlast]
    rfl
  rw [if_neg (by omega), if_neg hlast]
  by_cases hkernel : KernelPage kernelStart kernelEnd i
  · rw [if_pos ⟨by omega, hkernel⟩, if_pos hkernel]
    exact or_present (by omega)
  · rw [if_neg fun h => hkernel h.2, if_neg hkernel]
    rfl

/-- Where an offset into the first 4 MiB leads to: the kernel's pages to themselves, the last page
to the text screen. -/
def bootMap (kernelStart kernelEnd : BitVec 32) (off : ℕ) : Option ℕ :=
  if off / 4096 = 1023 then some (0xB8000 + off % 4096)
  else if KernelPage kernelStart kernelEnd (off / 4096) then some off
  else none

/-- The walk through the boot page table. -/
lemma translate_of_entry {va : BitVec 32} (hpd : pd.toNat % 4096 = 0)
    (hroom : pd.toNat + 8192 ≤ 2 ^ 32)
    (hentry : tableWord mem pd (va.toNat / 2 ^ 22) = pd + 4096#32 + 0x003#32) :
    translate mem pd va =
      if (tableWord mem pd (1024 + va.toNat / 4096 % 1024)).toNat % 2 = 0 then none
      else some ((tableWord mem pd (1024 + va.toNat / 4096 % 1024)).toNat / 4096 * 4096 +
        va.toNat % 4096) := by
  have hpde : (load32 mem (pd + BitVec.ofNat 32 (4 * (va.toNat / 2 ^ 22)))).toNat =
      pd.toNat + 4099 := by
    have hentry' : load32 mem (pd + BitVec.ofNat 32 (4 * (va.toNat / 2 ^ 22))) = pd + 4096#32 +
        0x003#32 := hentry
    rw [hentry']
    bv_omega
  have htable : BitVec.ofNat 32 ((pd.toNat + 4099) / 4096 * 4096) +
      BitVec.ofNat 32 (4 * (va.toNat / 4096 % 1024)) =
      pd + BitVec.ofNat 32 (4 * (1024 + va.toNat / 4096 % 1024)) := by
    have hbase : (pd.toNat + 4099) / 4096 * 4096 = pd.toNat + 4096 := by omega
    rw [hbase, Nat.mul_add, BitVec.ofNat_add, BitVec.ofNat_add, BitVec.ofNat_toNat,
      BitVec.setWidth_eq,
      BitVec.add_assoc]
  rw [translate]
  simp only [hpde, htable]
  rw [if_neg (by omega)]
  rfl

/-- **What is mapped when paging is turned on.** The 4 MiB from address 0 and those from 3 GiB on
show the same: the pages of the kernel at their physical addresses, the text screen in the last
page, and nothing else. Nothing is mapped anywhere else. -/
theorem translate_startPaging {kernelStart kernelEnd pd : BitVec 32} {mem : Memory}
    (hpd : pd.toNat % 4096 = 0) (hroom : pd.toNat + 8192 ≤ 2 ^ 32) (hbss : BssZero mem pd)
    (va : BitVec 32) :
    translate (startPaging kernelStart kernelEnd pd mem) pd va =
      if va.toNat / 2 ^ 22 = 768 ∨ va.toNat / 2 ^ 22 = 0 then
        bootMap kernelStart kernelEnd (va.toNat % 2 ^ 22)
      else none := by
  have hdir : va.toNat / 2 ^ 22 < 1024 := by omega
  have hpde := tableWord_startPaging kernelStart kernelEnd hbss (k := va.toNat / 2 ^ 22) (by omega)
  by_cases hhalf : va.toNat / 2 ^ 22 = 768 ∨ va.toNat / 2 ^ 22 = 0
  · rw [if_pos hhalf] at hpde ⊢
    rw [translate_of_entry hpd hroom hpde, tableWord_bootTable hbss (by omega), bootMap]
    have hpage : va.toNat % 2 ^ 22 / 4096 = va.toNat / 4096 % 1024 := by omega
    have hoff : va.toNat % 2 ^ 22 % 4096 = va.toNat % 4096 := by omega
    have hsum : va.toNat % 2 ^ 22 = 4096 * (va.toNat / 4096 % 1024) + va.toNat % 4096 := by omega
    rw [hpage, hoff]
    by_cases hlast : va.toNat / 4096 % 1024 = 1023
    · rw [if_pos hlast, if_pos hlast]
      rfl
    rw [if_neg hlast, if_neg hlast]
    by_cases hkernel : KernelPage kernelStart kernelEnd (va.toNat / 4096 % 1024)
    · rw [if_pos hkernel, if_pos hkernel, if_neg (by omega), hsum]
      congr 1
      omega
    · rw [if_neg hkernel, if_neg hkernel]
      rfl
  · rw [if_neg hhalf] at hpde ⊢
    rw [if_neg (by omega), if_neg fun h => absurd h.1 (by omega)] at hpde
    have hzero : load32 (startPaging kernelStart kernelEnd pd mem)
        (pd + BitVec.ofNat 32 (4 * (va.toNat / 2 ^ 22))) = 0#32 := hpde
    rw [translate, hzero]
    rfl

/-! ## What `kernel_main` is given -/

/-- The registers after the loop: the first page that is not one of the kernel, and its entry. -/
lemma pageLoop_regs (kernelEnd pd : BitVec 32) {s : BootRegs}
    (hesi : s.esi = BitVec.ofNat 32 (4096 * i))
    (hedi : s.edi = pd + BitVec.ofNat 32 (4 * (1024 + i))) (hn : i + n = 1023) :
    ∃ j, i ≤ j ∧ j ≤ 1023 ∧ (pageLoop 0#32 kernelEnd n s).esi = BitVec.ofNat 32 (4096 * j) ∧
      (pageLoop 0#32 kernelEnd n s).edi = pd + BitVec.ofNat 32 (4 * (1024 + j)) ∧
      (∀ k, i ≤ k → k < j → KernelPage 0#32 kernelEnd k) ∧
        (j < 1023 → ¬ KernelPage 0#32 kernelEnd j) := by
  induction n generalizing s i with
  | zero => exact ⟨i, Nat.le_refl i, by omega, hesi, hedi, fun k h₁ h₂ =>
      absurd h₁ (by omega), fun h => by omega⟩
  | succ n ih =>
    have hesi' : s.esi + 4096#32 = BitVec.ofNat 32 (4096 * (i + 1)) := by
      rw [hesi, Nat.mul_succ, BitVec.ofNat_add]
    have hedi' : s.edi + 4#32 = pd + BitVec.ofNat 32 (4 * (1024 + (i + 1))) := by
      rw [hedi, BitVec.add_assoc, ← Nat.add_assoc, Nat.mul_succ, BitVec.ofNat_add]
    have hsi : s.esi.toInt = (4096 * i : ℕ) := by
      rw [hesi]
      exact toInt_page (by omega)
    have hlow : ¬ s.esi.slt 0#32 := by
      rw [BitVec.slt_iff_toInt_lt, hsi]
      exact not_lt_of_ge (zero_le_page i)
    rw [pageLoop, if_neg hlow]
    by_cases hhigh : kernelEnd.sle s.esi
    · rw [if_pos hhigh]
      rw [BitVec.sle_iff_toInt_le, hsi] at hhigh
      exact ⟨i, Nat.le_refl i, by omega, hesi, hedi, fun k h₁ h₂ =>
        absurd h₁ (by omega), fun _ h => by
        have := h.2
        omega⟩
    · rw [if_neg hhigh]
      rw [BitVec.sle_iff_toInt_le, hsi] at hhigh
      have hpage : KernelPage 0#32 kernelEnd i := ⟨zero_le_page i, by omega⟩
      obtain ⟨j, h₁, h₂, hj₁, hj₂, hbelow, hend⟩ := ih
        (s := ⟨s.edi + 4#32, s.esi + 4096#32, store32 s.mem s.edi (s.esi ||| 0x003#32)⟩)
          (i := i + 1)
        hesi' hedi' (by omega)
      refine ⟨j, by omega, h₂, hj₁, hj₂, fun k hk hkj => ?_, hend⟩
      by_cases hki : k = i
      · rw [hki]
        exact hpage
      · exact hbelow k (by omega) hkj

/-- **What `init_memory` starts from.** `kernel_main` is given the address up to which memory is
mapped, which is that of a page, and that of the first free entry of the boot page table; the table
is that of `BootInfo`. The linker script puts `_kernel_start` at 0. -/
theorem pageTable_startPaging {kernelEnd pd : BitVec 32} {mem : Memory} (hbss : BssZero mem pd)
    (b : BootInfo) (hb : b.lastPagedAddr = (pageLoopStart 0#32 kernelEnd pd mem).esi.toNat) :
    b.lastPagedAddr % 4096 = 0 ∧
      (pageLoopStart 0#32 kernelEnd pd mem).edi =
        pd + 4096#32 + BitVec.ofNat 32 (4 * (alignUp4k b.lastPagedAddr / 4096)) ∧
      ∀ i < 1024, (tableWord (startPaging 0#32 kernelEnd pd mem) pd (1024 + i)).toNat =
        b.bootPageTable i := by
  obtain ⟨j, -, hj, hesi, hedi, hbelow, hend⟩ := pageLoop_regs kernelEnd pd
    (s := ⟨pd + 4096#32, 0#32, mem⟩) (i := 0) (n := 1023) rfl rfl rfl
  have hlast : b.lastPagedAddr = 4096 * j := by
    rw [hb, pageLoopStart, hesi, BitVec.toNat_ofNat, Nat.mod_eq_of_lt (by omega)]
  have hcount : alignUp4k b.lastPagedAddr / 4096 = j := by
    rw [hlast, alignUp4k_eq (by omega)]
    omega
  rw [hcount]
  refine ⟨?_, ?_, fun i hi => ?_⟩
  · rw [hlast]
    exact Nat.mul_mod_right 4096 j
  · rw [pageLoopStart, hedi, BitVec.add_assoc, Nat.mul_add, BitVec.ofNat_add]
  · rw [tableWord_bootTable hbss hi, BootInfo.bootPageTable, hcount]
    by_cases h₁ : i = 1023
    · rw [if_pos h₁, if_pos h₁]
      rfl
    have hpage : KernelPage 0#32 kernelEnd i ↔ i < j := by
      refine ⟨fun h => ?_, fun h => hbelow i (Nat.zero_le i) h⟩
      by_contra hij
      exact hend (by omega) ⟨zero_le_page j, by have := h.2; omega⟩
    rw [if_neg h₁, if_neg h₁]
    simp only [hpage]
    split_ifs with h
    · have hor := Nat.two_pow_add_eq_or_of_lt (i := 12) (b := 3) (by omega) i
      rw [Nat.mul_comm i 4096]
      exact hor
    · rfl

/-- Memory that is all zero. -/
lemma bssZero_zero (pd : BitVec 32) : BssZero (fun _ => 0#8) pd := by
  intro k _
  rw [tableWord, load32]
  rfl

/-- A kernel of 2 MiB. -/
theorem translate_startPaging_kernel :
    translate (startPaging 0#32 0x200000#32 0x150000#32 fun _ => 0#8) 0x150000#32 0xC0100123#32 =
      some 0x100123 :=
  (translate_startPaging (by decide) (by decide) (bssZero_zero _) 0xC0100123#32).trans
    (by decide +kernel)

/-- What is given to its `init_memory`. -/
def kernelInfo : BootInfo where
  lastPagedAddr := (pageLoopStart 0#32 0x200000#32 0x150000#32 fun _ => 0#8).esi.toNat
  first := ⟨0, 0, multibootMemoryAvailable⟩
  rest := []
  modStart := 0
  modEnd := 0
  kernelStart := 0#8

/-- Its boot page table. -/
theorem pageTable_startPaging_kernel : kernelInfo.lastPagedAddr % 4096 = 0 ∧
    (pageLoopStart 0#32 0x200000#32 0x150000#32 fun _ => 0#8).edi =
      0x150000#32 + 4096#32 + BitVec.ofNat 32 (4 * (alignUp4k kernelInfo.lastPagedAddr / 4096)) ∧
    ∀ i < 1024, (tableWord (startPaging 0#32 0x200000#32 0x150000#32 fun _ => 0#8) 0x150000#32
      (1024 + i)).toNat =
      kernelInfo.bootPageTable i :=
  pageTable_startPaging (bssZero_zero _) kernelInfo (by rw [kernelInfo])

end AlphaOS
