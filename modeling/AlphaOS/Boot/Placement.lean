import AlphaOS.Boot.Bitmap
import AlphaOS.Mm.Frames

set_option relaxedAutoImplicit false
set_option autoImplicit false

/-!
# Where the bitmap is placed

`populate_bitmap` puts the bitmap right after the module, while `init_memory` maps, and marks as
used, as many pages after the kernel as the module and the bitmap need. The two agree when the
module follows the kernel directly.

## Main definitions

* `AlphaOS.Mm.initVideoMemory`, `AlphaOS.BootInfo.initMemory` — the functions of the source.
* `AlphaOS.BootInfo.Placed` — what the boot loader promises of the module.
* `AlphaOS.BootInfo.Protected` — the kernel, the module and the bitmap are marked used, and the
  bitmap is mapped.
* `AlphaOS.BootInfo.Adjacent` — the pages mapped after the kernel reach the end of the bitmap.

## Main results

* `AlphaOS.BootInfo.mapped_iff` — the bytes mapped by `init_memory`.
* `AlphaOS.BootInfo.protected_iff_adjacent` — the memory in use is protected exactly when the pages
  reach the end of the bitmap.
* `AlphaOS.BootInfo.bitmap_unprotected` — a bitmap that is neither marked nor mapped.

## Design

The boot page table serves the addresses from `KERNEL_BASE` on for `4` MiB, its entry `i` the page
`KERNEL_BASE + i * 4096`. What `init_memory` writes past its last entry is not a mapping.
-/

namespace AlphaOS

/-! ## The model -/

namespace Mm

/-- The variables of `init_video_memory`: `base_pde`, `base_pte` and `base_addr`. -/
structure VideoState where
  mm : Mm
  basePde : ℕ
  basePte : ℕ
  baseAddr : ℕ

/-- `kernel_page_table[base_pte] = ...` in the table of `base_pde`. -/
def mapVideoPage (s : Mm) (pde pte addr : ℕ) : Mm :=
  s.writeEntry (s.kernelPageDirectory pde) pte (entry addr kernelFlags)

/-- An iteration of `init_video_memory`. -/
def videoPage (st : VideoState) : VideoState where
  mm := (st.mm.ensureTable st.basePde kernelFlags).mapVideoPage st.basePde st.basePte st.baseAddr
  basePde := if 1024 ≤ st.basePte + 1 then st.basePde + 1 else st.basePde
  basePte := if 1024 ≤ st.basePte + 1 then 0 else st.basePte + 1
  baseAddr := (st.baseAddr + 4096) % 2 ^ 32

/-- `KHEAP_END`. -/
def kheapEnd : ℕ := 0xE0000000

/-- `init_video_memory` of a frame buffer. -/
def initVideoMemory (s : Mm) (addr pitch height : ℕ) : Mm :=
  (Loop.forEach (fun _ => videoPage) 0 (pitch * height % 2 ^ 32 / 4096)
    ⟨s, pdeIndex kheapEnd, pteIndex kheapEnd, addr % 2 ^ 32⟩).mm

end Mm

namespace BootInfo

/-- What `init_memory` leaves: the boot page table and the memory manager. -/
structure Memory where
  pageTable : ℕ → ℕ
  mm : Mm

/-- `init_memory`, with a frame buffer at `addr`. -/
def initMemory (b : BootInfo) (addr pitch height : ℕ) (s : Mm) : Memory where
  pageTable := b.mapping.pageTable
  mm := Mm.initVideoMemory
    { s with bitmap := (b.populateBitmap s.bitmap).bits, bitmapSize := b.bitmapSize }
    addr pitch height

end BootInfo

/-! ## The frame buffer -/

namespace Mm

variable {s : Mm} {f : ℕ}

/-- Setting bits clears none. -/
lemma get_setBits {bitmap : ℕ → BitVec 8} (h : Bits.get bitmap f = true) (lo hi : ℕ) :
    Bits.get (setBits bitmap lo hi) f = true := by
  rw [setBits]
  refine Loop.forEach_rule (I := fun _ bits => Bits.get bits f = true)
    (fun k bits _ _ hbits => ?_) h
  rw [Bits.get_set, hbits, Bool.or_true]

/-- An allocation leaves the used frames used. -/
lemma used_pmmAlloc_of_used (h : s.used f) (npages : ℕ) : (s.pmmAlloc npages).2.used f := by
  have hbits : (s.pmmAlloc npages).2.bitmap =
      setBits s.bitmap (s.pmmFirst npages) (s.pmmLast npages) := by rw [pmmAlloc]
  rw [used, hbits]
  exact get_setBits h _ _

/-- Filling a page leaves the bitmap as it is. -/
lemma used_fillPage (s : Mm) (p : ℕ) (page : ℕ → ℕ) : (s.fillPage p page).used f ↔ s.used f := by
  rw [used, used]
  rfl

/-- Allocating a zeroed frame leaves the used frames used. -/
lemma used_allocZeroed (h : s.used f) : s.allocZeroed.2.used f := by
  rw [allocZeroed, allocFilled]
  exact (used_fillPage _ _ _).mpr (used_pmmAlloc_of_used h 1)

/-- Installing a page table leaves the used frames used. -/
lemma used_ensureTable (h : s.used f) (pde flags : ℕ) : (s.ensureTable pde flags).used f := by
  have hzero := used_allocZeroed h
  rw [used] at hzero
  rw [ensureTable]
  split_ifs
  · rw [used]
    dsimp only
    exact hzero
  · exact h

/-- Mapping a page of the frame buffer leaves the bitmap as it is. -/
lemma used_mapVideoPage (s : Mm) (pde pte addr : ℕ) :
    (s.mapVideoPage pde pte addr).used f ↔ s.used f := by
  rw [used, used]
  rfl

/-- Mapping the frame buffer leaves the used frames used. -/
lemma used_initVideoMemory (h : s.used f) (addr pitch height : ℕ) :
    (s.initVideoMemory addr pitch height).used f := by
  rw [initVideoMemory]
  refine Loop.forEach_rule (I := fun _ (st : VideoState) => st.mm.used f) ?_ h
  intro k st _ _ hst
  have htable : (st.mm.ensureTable st.basePde kernelFlags).used f := used_ensureTable hst _ _
  dsimp only [videoPage]
  rw [used_mapVideoPage]
  exact htable

end Mm

/-! ## Alignment -/

/-- Rounding up to a page, as long as the address does not wrap around. -/
lemma alignUp4k_eq {a : ℕ} (h : a ≤ 0xFFFFF000) : alignUp4k a = (a + 0xFFF) / 4096 * 4096 := by
  rw [alignUp4k, pageMask, Nat.mod_eq_of_lt (by omega), Bits.and_mask (by omega)]

/-- Rounding up wraps around in the last page. -/
lemma alignUp4k_wrap {a : ℕ} (h : 0xFFFFF000 < a) (ha : a < 2 ^ 32) : alignUp4k a = 0 := by
  have hmod : (a + 0xFFF) % 2 ^ 32 < 4096 := by omega
  rw [alignUp4k, pageMask, Bits.and_mask (by omega), Nat.div_eq_of_lt hmod, Nat.zero_mul]

/-- An aligned address is its own rounding down. -/
lemma alignDown4k_of_aligned {a : ℕ} (ha : a < 2 ^ 32) (h : a % 4096 = 0) : alignDown4k a = a := by
  rw [alignDown4k_eq ha]
  omega

namespace BootInfo

variable {b : BootInfo} {x : ℕ}

/-! ## The pages after the kernel -/

/-- **The loop of `init_memory`** fills consecutive entries with consecutive addresses. -/
lemma mapPage_spec (n : ℕ) : ∀ (lo : ℕ) (st : Mapping), st.kernelEndAddr < 2 ^ 32 →
    (Loop.forEach (fun _ => mapPage) lo n st).kernelEndAddr =
      (st.kernelEndAddr + n * 4096) % 2 ^ 32 ∧
      ∀ j, (Loop.forEach (fun _ => mapPage) lo n st).pageTable j =
        if st.index ≤ j ∧ j < st.index + n then
          (st.kernelEndAddr + (j - st.index) * 4096) % 2 ^ 32 ||| kernelFlags
        else st.pageTable j := by
  induction n with
  | zero =>
    intro lo st hst
    refine ⟨by rw [Nat.zero_mul, Nat.add_zero, Nat.mod_eq_of_lt hst]; rfl, fun j => ?_⟩
    rw [if_neg (by omega)]
    rfl
  | succ n ih =>
    intro lo st hst
    obtain ⟨hend, htable⟩ := ih (lo + 1) (mapPage st) (Nat.mod_lt _ (by decide))
    have hstep : Loop.forEach (fun _ => mapPage) lo (n + 1) st =
        Loop.forEach (fun _ => mapPage) (lo + 1) n (mapPage st) := rfl
    have haddr : (mapPage st).kernelEndAddr = (st.kernelEndAddr + 4096) % 2 ^ 32 := rfl
    have hindex : (mapPage st).index = st.index + 1 := rfl
    have hpage : (mapPage st).pageTable =
      Function.update st.pageTable st.index (st.kernelEndAddr ||| kernelFlags) := rfl
    rw [hstep]
    refine ⟨by rw [hend, haddr]; omega, fun j => ?_⟩
    rw [htable j, haddr, hindex, hpage]
    by_cases hj : j = st.index
    · subst hj
      rw [if_neg (by omega), Function.update_self, if_pos (by omega), Nat.sub_self, Nat.zero_mul,
        Nat.add_zero, Nat.mod_eq_of_lt hst]
    · rw [Function.update_of_ne hj]
      by_cases hin : st.index + 1 ≤ j ∧ j < st.index + 1 + n
      · have hsame : ((st.kernelEndAddr + 4096) % 2 ^ 32 + (j - (st.index + 1)) * 4096) % 2 ^ 32 =
            (st.kernelEndAddr + (j - st.index) * 4096) % 2 ^ 32 := by omega
        rw [if_pos hin, if_pos (by omega), hsame]
      · rw [if_neg hin, if_neg (by omega)]

/-- The number of pages mapped after the kernel. -/
def pages (b : BootInfo) : ℕ := b.totalBitmapPages + b.totalModulePages

/-- `align_up_4k` gives a 32-bit multiple of the page size. -/
lemma alignUp4k_lt (a : ℕ) : alignUp4k a < 2 ^ 32 ∧ alignUp4k a % 4096 = 0 := by
  have hlt : (a + 0xFFF) % 2 ^ 32 < 2 ^ 32 := Nat.mod_lt _ (by decide)
  rw [alignUp4k, pageMask, Bits.and_mask hlt]
  omega

/-- `kernel_end_addr` after the loop. -/
lemma kernelEndAddr_eq (b : BootInfo) :
    b.kernelEndAddr = (alignUp4k b.lastPagedAddr + b.pages * 4096) % 2 ^ 32 :=
  (mapPage_spec b.pages 0 ⟨b.bootPageTable, alignUp4k b.lastPagedAddr,
    alignUp4k b.lastPagedAddr / 4096⟩ (alignUp4k_lt _).1).1

/-- An entry of the boot page table after `init_memory`. -/
lemma pageTable_mapping (b : BootInfo) (j : ℕ) :
    b.mapping.pageTable j =
      if alignUp4k b.lastPagedAddr / 4096 ≤ j ∧ j < alignUp4k b.lastPagedAddr / 4096 + b.pages then
        j * 4096 % 2 ^ 32 ||| kernelFlags
      else b.bootPageTable j := by
  obtain ⟨hlt, haligned⟩ := alignUp4k_lt b.lastPagedAddr
  have hspec := (mapPage_spec b.pages 0 ⟨b.bootPageTable, alignUp4k b.lastPagedAddr,
    alignUp4k b.lastPagedAddr / 4096⟩ hlt).2 j
  rw [mapping, ← pages, hspec]
  dsimp only
  split_ifs with hin
  · have hsum : alignUp4k b.lastPagedAddr + (j - alignUp4k b.lastPagedAddr / 4096) * 4096 =
        j * 4096 := by omega
    rw [hsum]
  · rfl

/-- The entry that maps the page of `x` below `4` MiB to itself. -/
lemma entry_low (hx : x < 0x400000) : entry x kernelFlags = x / 4096 * 4096 + 3 := by
  rw [entry, pageMask, Bits.and_mask (by omega), show kernelFlags = 3 from rfl,
    Bits.or_flags (by omega)]

/-! ## What has to be protected -/

/-- The boot loader puts the module on whole pages above the kernel, which is linked at `1` MiB. -/
structure Placed (b : BootInfo) : Prop where
  linked : 0x100000 < b.modStart
  above : b.lastPagedAddr ≤ b.modStart
  aligned : b.modStart % 4096 = 0
  ordered : b.modStart ≤ b.modEnd
  fits : b.modEnd < 2 ^ 32

/-- The bytes of the bitmap. -/
def Storage (b : BootInfo) (x : ℕ) : Prop := b.modEnd ≤ x ∧ x < b.modEnd + b.bitmapLen

/-- The bytes of the kernel, of the module and of the bitmap. -/
def InUse (b : BootInfo) (x : ℕ) : Prop :=
  x < alignUp4k b.lastPagedAddr ∨ (b.modStart ≤ x ∧ x < b.modEnd) ∨ b.Storage x

/-- The table maps `KERNEL_BASE + x` to `x`. -/
def Mapped (table : ℕ → ℕ) (x : ℕ) : Prop :=
  x < 0x400000 ∧ table (x / 4096) = entry x kernelFlags

/-- The frames in use are marked, and the bitmap is mapped. -/
def Protected (b : BootInfo) (r : Memory) : Prop :=
  (∀ x, b.InUse x → r.mm.used (x / 4096 % 2 ^ 35)) ∧ ∀ x, b.Storage x → Mapped r.pageTable x

/-- The pages mapped after the kernel reach the end of the bitmap and are in the boot page table. -/
def Adjacent (b : BootInfo) : Prop :=
  b.modEnd + b.bitmapLen ≤ alignUp4k b.lastPagedAddr + b.pages * 4096 ∧
    b.modEnd + b.bitmapLen ≤ 0x400000

/-- The kernel ends at or below the start of the module. -/
lemma Placed.kernel_le (h : b.Placed) : alignUp4k b.lastPagedAddr ≤ b.modStart := by
  obtain ⟨-, habove, haligned, hordered, hfits⟩ := h
  rw [alignUp4k_eq (by omega)]
  omega

/-- **The bytes above the kernel that `init_memory` maps** are those of the pages after the kernel,
as far as the boot page table goes. -/
theorem mapped_iff (hx : alignUp4k b.lastPagedAddr ≤ x) :
    Mapped b.mapping.pageTable x ↔
      x < alignUp4k b.lastPagedAddr + b.pages * 4096 ∧ x < 0x400000 := by
  obtain ⟨-, haligned⟩ := alignUp4k_lt b.lastPagedAddr
  constructor
  · rintro ⟨hlow, hentry⟩
    refine ⟨?_, hlow⟩
    rw [pageTable_mapping, entry_low hlow] at hentry
    split_ifs at hentry with hin
    · omega
    · rw [bootPageTable] at hentry
      have hscreen : (0x000B8000 ||| 0x003 : ℕ) = 0xB8003 := by decide
      rw [hscreen] at hentry
      split_ifs at hentry <;> omega
  · rintro ⟨hpages, hlow⟩
    refine ⟨hlow, ?_⟩
    rw [pageTable_mapping, entry_low hlow, if_pos (by omega), Nat.mod_eq_of_lt (by omega),
      show kernelFlags = 3 from rfl, Bits.or_flags (by omega)]

/-! ## What is marked -/

/-- A signed character as a 64-bit word is small, or is small below `2^64`. -/
lemma kernelStartValue_cases (b : BootInfo) :
    b.kernelStartValue < 128 ∨
      2 ^ 64 - 128 ≤ b.kernelStartValue ∧ b.kernelStartValue < 2 ^ 64 := by
  have hall : ∀ c : BitVec 8, (c.signExtend 64).toNat < 128 ∨
      2 ^ 64 - 128 ≤ (c.signExtend 64).toNat ∧ (c.signExtend 64).toNat < 2 ^ 64 := by decide
  exact hall b.kernelStart

/-- **The kernel's range** covers the frames up to `kernel_end_addr`, whatever the byte at
`_kernel_start` is: a negative one makes the range start at the index `2^52 - 1`, from which the
32-bit address of the bitmap's byte wraps around to the first frame. -/
lemma kernelRange_covers {f : ℕ} (hf : f < b.kernelEndAddr / 4096) : b.kernelRange.Covers f := by
  have hlt : b.kernelEndAddr < 2 ^ 32 := by
    rw [kernelEndAddr_eq]
    exact Nat.mod_lt _ (by decide)
  have haligned : b.kernelEndAddr % 4096 = 0 := by
    have := (alignUp4k_lt b.lastPagedAddr).2
    rw [kernelEndAddr_eq]
    omega
  unfold Range.Covers kernelRange totalUsedPages sub64
  dsimp only
  rcases b.kernelStartValue_cases with hv | ⟨hv₁, hv₂⟩
  · refine ⟨f, ?_, ?_⟩
    · split_ifs <;> omega
    · rw [Nat.div_eq_of_lt (by omega), Nat.zero_add]
  · have hstart : b.kernelStartValue / 4096 = 2 ^ 52 - 1 := by omega
    refine ⟨f + 1, ?_, ?_⟩
    · split_ifs <;> omega
    · rw [hstart]
      omega

/-- The module's range covers the module. -/
lemma moduleRange_covers (h : b.Placed) (h₁ : b.modStart ≤ x) (h₂ : x < b.modEnd) :
    b.moduleRange.Covers (x / 4096) := by
  obtain ⟨hlinked, -, haligned, hordered, hfits⟩ := h
  unfold Range.Covers moduleRange sub64
  rw [alignDown4k_of_aligned (by omega) haligned]
  dsimp only
  by_cases hwrap : b.modEnd ≤ 0xFFFFF000
  · rw [alignUp4k_eq hwrap]
    exact ⟨x / 4096 - b.modStart / 4096, by omega, by omega⟩
  · rw [alignUp4k_wrap (by omega) hfits]
    exact ⟨x / 4096 - b.modStart / 4096, by omega, by omega⟩

/-- A module that ends in the last page of the address space has everything marked. -/
lemma moduleRange_covers_of_wrap (h : b.Placed) (hwrap : 0xFFFFF000 < b.modEnd) {f : ℕ}
    (hf : f < 2 ^ 20) : b.moduleRange.Covers f := by
  obtain ⟨hlinked, -, haligned, hordered, hfits⟩ := h
  unfold Range.Covers moduleRange sub64
  rw [alignDown4k_of_aligned (by omega) haligned, alignUp4k_wrap hwrap hfits]
  dsimp only
  exact ⟨f + 2 ^ 35 - b.modStart / 4096, by omega, by omega⟩

/-- What the last two ranges cover is marked when `init_memory` returns. -/
lemma used_initMemory {f : ℕ} (hf : b.kernelRange.Covers f ∨ b.moduleRange.Covers f)
    (addr pitch height : ℕ) (s : Mm) :
    (b.initMemory addr pitch height s).mm.used (f % 2 ^ 35) := by
  have hmark : ∀ m : Bitmap, (b.markModule (b.markKernel m)).used f := by
    intro m
    have hranges : b.markModule (b.markKernel m) = (m.mark b.kernelRange).mark b.moduleRange := rfl
    rw [hranges, Bitmap.used_mark, Bitmap.used_mark, or_assoc]
    exact .inr hf
  have hpop : Bits.get (b.populateBitmap s.bitmap).bits (f % 2 ^ 35) = true := by
    rw [populateBitmap]
    exact hmark _
  rw [initMemory]
  refine Mm.used_initVideoMemory ?_ addr pitch height
  rw [Mm.used]
  exact hpop

/-- The pages of the module. -/
lemma totalModulePages_eq (h : b.Placed) (hwrap : b.modEnd ≤ 0xFFFFF000) :
    b.totalModulePages = (b.modEnd + 0xFFF) / 4096 - b.modStart / 4096 := by
  obtain ⟨-, -, haligned, hordered, hfits⟩ := h
  rw [totalModulePages, alignUp4k_eq hwrap, alignDown4k_of_aligned (by omega) haligned, sub32]
  omega

/-- The pages after the kernel are marked along with it, as long as they do not wrap around. -/
lemma used_of_lt_pages (hfit : alignUp4k b.lastPagedAddr + b.pages * 4096 < 2 ^ 32)
    (hx : x < alignUp4k b.lastPagedAddr + b.pages * 4096) (addr pitch height : ℕ) (s : Mm) :
    (b.initMemory addr pitch height s).mm.used (x / 4096 % 2 ^ 35) := by
  have haligned := (alignUp4k_lt b.lastPagedAddr).2
  refine used_initMemory (.inl (kernelRange_covers ?_)) addr pitch height s
  rw [kernelEndAddr_eq, Nat.mod_eq_of_lt hfit]
  omega

/-- Without a bitmap the kernel and the module are marked. -/
lemma used_of_size_zero (h : b.Placed) (hzero : b.bitmapSize = 0) (hx : b.InUse x)
    (addr pitch height : ℕ) (s : Mm) :
    (b.initMemory addr pitch height s).mm.used (x / 4096 % 2 ^ 35) := by
  have hkernel := h.kernel_le
  have hlen : b.bitmapLen = 0 := by rw [bitmapLen, hzero]
  have hbitmap : b.totalBitmapPages = 0 := by rw [totalBitmapPages, hlen]
  obtain ⟨hlinked, habove, haligned, hordered, hfits⟩ := id h
  rcases hx with hx | ⟨h₁, h₂⟩ | ⟨h₁, h₂⟩
  · by_cases hwrap : b.modEnd ≤ 0xFFFFF000
    · have hmod := totalModulePages_eq h hwrap
      refine used_of_lt_pages ?_ ?_ addr pitch height s
      · rw [pages]
        omega
      · omega
    · exact used_initMemory (.inr (moduleRange_covers_of_wrap h (by omega) (by omega))) _ _ _ _
  · exact used_initMemory (.inr (moduleRange_covers h h₁ h₂)) _ _ _ _
  · omega

/-- **The memory in use is protected exactly when the pages mapped after the kernel reach the end of
the bitmap.** For every module that the boot loader places above the kernel, every memory map, every
byte at `_kernel_start` and every frame buffer: when `init_memory` returns, the frames of the
kernel, of the module and of the bitmap are marked used and the bitmap is mapped at `KERNEL_BASE`,
if and only if the bitmap is empty or ends within the pages counted from the end of the kernel on,
and within the boot page table.

**Proof sketch.** The last byte of the bitmap is mapped only under this condition (`mapped_iff`).
Under it all that is in use lies below `kernel_end_addr`, up to where the kernel's range is marked
(`kernelRange_covers`). -/
theorem protected_iff_adjacent {b : BootInfo} (h : b.Placed) (addr pitch height : ℕ) (s : Mm) :
    b.Protected (b.initMemory addr pitch height s) ↔ b.bitmapSize = 0 ∨ b.Adjacent := by
  have hkernel := h.kernel_le
  have hordered := h.ordered
  constructor
  · rintro ⟨-, hmapped⟩
    by_cases hzero : b.bitmapSize = 0
    · exact .inl hzero
    · have hlen : 0 < b.bitmapLen := by
        rw [bitmapLen]
        omega
      have hlast := hmapped (b.modEnd + b.bitmapLen - 1) ⟨by omega, by omega⟩
      obtain ⟨hpages, hlow⟩ := (mapped_iff (by omega)).mp hlast
      exact .inr ⟨by omega, by omega⟩
  · rintro (hzero | ⟨hpages, hlow⟩)
    · refine ⟨fun x hx => used_of_size_zero h hzero hx addr pitch height s, fun x hx => ?_⟩
      obtain ⟨h₁, h₂⟩ := hx
      rw [bitmapLen, hzero] at h₂
      omega
    · have hmod := totalModulePages_eq h (by omega)
      have hfit : alignUp4k b.lastPagedAddr + b.pages * 4096 < 2 ^ 32 := by
        rw [pages, totalBitmapPages]
        omega
      refine ⟨fun x hx => used_of_lt_pages hfit ?_ addr pitch height s, fun x hx => ?_⟩
      · rcases hx with hx | hx | hx
        · omega
        · omega
        · exact Nat.lt_of_lt_of_le hx.2 hpages
      · exact (mapped_iff (Nat.le_trans hkernel (Nat.le_trans hordered hx.1))).mpr
          ⟨Nat.lt_of_lt_of_le hx.2 hpages, Nat.lt_of_lt_of_le hx.2 hlow⟩

/-- The memory manager before `init_memory`. -/
def bootMm : Mm where
  bitmap := fun _ => 0#8
  bitmapSize := 0
  mem := fun _ _ => 0
  kernelPageDirectory := fun _ => 0
  kheapPages := fun _ => 0
  tmpPte := 0
  overrun := false

/-- A machine with `128` MiB whose module comes `32` pages after the kernel. -/
def apart : BootInfo := { aligned with modStart := 0x140000, modEnd := 0x141000 }

/-- **The bitmap is neither marked nor mapped.** The bitmap of `apart` lies in the page `0x141000`,
and the pages mapped after the kernel end at `0x122000`. -/
theorem bitmap_unprotected :
    ¬ ∀ b : BootInfo, b.Placed → ∀ (addr pitch height : ℕ) (s : Mm),
      b.Protected (b.initMemory addr pitch height s) := by
  intro hall
  have hplaced : apart.Placed := ⟨by decide, by decide, by decide, by decide, by decide⟩
  obtain ⟨-, hmapped⟩ := hall apart hplaced 0 0 0 bootMm
  have hend : ¬ 0x141000 < alignUp4k apart.lastPagedAddr + apart.pages * 4096 := by decide
  exact hend ((mapped_iff (by decide)).mp (hmapped 0x141000 ⟨by decide, by decide⟩)).1

/-- On `aligned`, whose module follows the kernel, the memory in use is protected. -/
theorem protected_iff_adjacent_aligned :
    aligned.Placed ∧ aligned.Protected (aligned.initMemory 0xFD000000 4096 768 bootMm) := by
  have hplaced : aligned.Placed := ⟨by decide, by decide, by decide, by decide, by decide⟩
  have hadjacent : aligned.Adjacent := ⟨by decide, by decide⟩
  exact ⟨hplaced, (protected_iff_adjacent hplaced _ _ _ _).mpr (.inr hadjacent)⟩

end BootInfo

end AlphaOS
