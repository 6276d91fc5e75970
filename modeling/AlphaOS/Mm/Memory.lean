import AlphaOS.Lib.Bits
import AlphaOS.Lib.Loop

set_option relaxedAutoImplicit false
set_option autoImplicit false

/-!
# Frames, page tables and the memory system calls

The functions of `kernel/memory.c` that allocate frames and map pages, with `sys_mmap` of
`kernel/syscall/mmap.c` and `sys_munmap` of `kernel/syscall/munmap.c`, as functions on the state
`AlphaOS.Mm`. Addresses and table entries are numbers below `2^32`.

## Main definitions

* `AlphaOS.Mm` — the bitmap, physical memory by frames, the kernel's page directory, the record of
  heap pages and the temporary mapping.
* `AlphaOS.Mm.pmmAlloc`, `pmmFree`, `mmap`, `unmmap`, `mmapRing3`, `unmmapRing3`, `sysMmap`,
  `sysMunmap` — the functions of the source.

## Design

Physical memory is a function from frame numbers to pages of 1024 words. A page reached through the
temporary mapping is the frame its entry names; that entry, a slot of the boot page table, is the
field `tmpPte`. Filling a page word by word is one update of its frame. The field `overrun` is not
in the source: it records that a search of `pmm_alloc` or `free_virt_area_idx` found no run, from
when on the source writes outside its arrays. The translation caches are not modelled.
-/

namespace AlphaOS

/-- `KERNEL_BASE`. -/
def kernelBase : ℕ := 0xC0000000

/-- `KHEAP_START`. -/
def kheapStart : ℕ := 0xC0400000

/-- `KHEAP_PAGES_NUM`, with `KHEAP_END` equal to `0xE0000000`. -/
def kheapPagesNum : ℕ := (0xE0000000 - kheapStart) / 4096

/-- `PAGE_MASK`. -/
def pageMask : ℕ := 0xFFFFF000

/-- `align_up_4k`. -/
def alignUp4k (addr : ℕ) : ℕ := (addr + 0xFFF) % 2 ^ 32 &&& pageMask

/-- `align_down_4k`. -/
def alignDown4k (addr : ℕ) : ℕ := addr &&& pageMask

/-- `PAGE_PRESENT | PAGE_WRITABLE`. -/
def kernelFlags : ℕ := 0x001 ||| 0x002

/-- `PAGE_PRESENT | PAGE_WRITABLE | PAGE_USER`. -/
def userFlags : ℕ := 0x001 ||| 0x002 ||| 0x004

/-- `PDE_INDEX(addr)`. -/
def pdeIndex (addr : ℕ) : ℕ := (addr >>> 22) &&& 0x3FF

/-- `PTE_INDEX(addr)`. -/
def pteIndex (addr : ℕ) : ℕ := (addr >>> 12) &&& 0x3FF

/-- Subtraction of 32-bit words. -/
def sub32 (a b : ℕ) : ℕ := (a + (2 ^ 32 - b)) % 2 ^ 32

/-- Subtraction of 64-bit words. -/
def sub64 (a b : ℕ) : ℕ := (a + (2 ^ 64 - b)) % 2 ^ 64

/-- The entry `(phys & PAGE_MASK) | flags`. -/
def entry (phys flags : ℕ) : ℕ := (phys &&& pageMask) ||| flags

/-- The state of the memory manager. -/
structure Mm where
  /-- `bitmap`, eight frames to a byte. -/
  bitmap : ℕ → BitVec 8
  bitmapSize : ℕ
  /-- The words of each frame. -/
  mem : ℕ → ℕ → ℕ
  /-- `kernel_page_directory`. -/
  kernelPageDirectory : ℕ → ℕ
  /-- `kheap_pages`. -/
  kheapPages : ℕ → ℕ
  /-- The page-table entry of `tmp_map_addr`. -/
  tmpPte : ℕ
  /-- A search for free frames or pages has failed. -/
  overrun : Bool

namespace Mm

/-! ## The temporary mapping -/

/-- `map_tmp_page`. -/
def mapTmpPage (s : Mm) (phys : ℕ) : Mm := { s with tmpPte := entry phys kernelFlags }

/-- `unmap_tmp_page`. -/
def unmapTmpPage (s : Mm) : Mm := { s with tmpPte := 0 }

/-- The page behind the temporary mapping is filled. -/
def fillTmp (s : Mm) (page : ℕ → ℕ) : Mm :=
  { s with mem := Function.update s.mem (s.tmpPte / 4096) page }

/-- `map_tmp_page(phys)[i]`. -/
def readEntry (s : Mm) (phys i : ℕ) : ℕ := s.mem ((s.mapTmpPage phys).tmpPte / 4096) i

/-- `map_tmp_page(phys)[i] = v; unmap_tmp_page()`. -/
def writeEntry (s : Mm) (phys i v : ℕ) : Mm :=
  ((s.mapTmpPage phys).fillTmp (Function.update (s.readEntry phys) i v)).unmapTmpPage

/-- The page at `phys` is filled through the temporary mapping. -/
def fillPage (s : Mm) (phys : ℕ) (page : ℕ → ℕ) : Mm :=
  ((s.mapTmpPage phys).fillTmp page).unmapTmpPage

/-! ## Frames -/

/-- The index `i` at which the search of `pmm_alloc` stops. -/
def pmmLast (s : Mm) (npages : ℕ) : ℕ := Bits.search (Bits.get s.bitmap) npages s.bitmapSize 0 0

/-- `i - (npages - 1)`. -/
def pmmFirst (s : Mm) (npages : ℕ) : ℕ := sub64 (s.pmmLast npages) (sub32 npages 1)

/-- The bitmap with the bits from `lo` to `hi` set. -/
def setBits (bitmap : ℕ → BitVec 8) (lo hi : ℕ) : ℕ → BitVec 8 :=
  Loop.forEach (fun j b => Bits.set b j) lo (hi + 1 - lo) bitmap

/-- `pmm_alloc`. -/
def pmmAlloc (s : Mm) (npages : ℕ) : ℕ × Mm :=
  (s.pmmFirst npages * 4096 % 2 ^ 32,
    { s with
      bitmap := setBits s.bitmap (s.pmmFirst npages) (s.pmmLast npages)
      overrun := s.overrun || decide (s.pmmLast npages = s.bitmapSize) })

/-- `pmm_free`. -/
def pmmFree (s : Mm) (addr npages : ℕ) : Mm :=
  { s with bitmap := Loop.forEach (fun i b => Bits.clear b i) (addr / 4096) npages s.bitmap }

/-- `pmm_alloc(1)`, and the frame filled through the temporary mapping. -/
def allocFilled (s : Mm) (page : ℕ → ℕ) : ℕ × Mm :=
  ((s.pmmAlloc 1).1, (s.pmmAlloc 1).2.fillPage (s.pmmAlloc 1).1 page)

/-- `pmm_alloc(1)`, and the frame filled with zeros. -/
def allocZeroed (s : Mm) : ℕ × Mm := s.allocFilled fun _ => 0

/-- A zeroed frame is put in entry `i` of the table at `table`. -/
def installEntry (s : Mm) (table i flags : ℕ) : Mm :=
  s.allocZeroed.2.writeEntry table i (entry s.allocZeroed.1 flags)

/-! ## The kernel heap -/

/-- The index `i` at which the search of `free_virt_area_idx` stops. -/
def virtLast (s : Mm) (npages : ℕ) : ℕ :=
  Bits.search (fun i => s.kheapPages i != 0) npages kheapPagesNum 0 0

/-- `free_virt_area_idx`. -/
def freeVirtAreaIdx (s : Mm) (npages : ℕ) : ℕ := sub32 (s.virtLast npages) (sub32 npages 1)

/-- The address of a heap page, `KHEAP_START + v * PAGE_SIZE`. -/
def heapAddr (v : ℕ) : ℕ := (kheapStart + v * 4096) % 2 ^ 32

/-- The part of `mmap` that installs a missing page table. -/
def ensureTable (s : Mm) (pde flags : ℕ) : Mm :=
  if s.kernelPageDirectory pde = 0 then
    { s.allocZeroed.2 with
      kernelPageDirectory :=
        Function.update s.kernelPageDirectory pde (entry s.allocZeroed.1 flags) }
  else s

/-- The end of an iteration of `mmap`: the frame at `phys` is mapped at heap page `v`. -/
def mapHeapPage (s : Mm) (v phys flags : ℕ) : Mm :=
  { s.writeEntry (s.kernelPageDirectory (pdeIndex (heapAddr v))) (pteIndex (heapAddr v))
      (entry phys flags) with
    kheapPages := Function.update s.kheapPages v 1 }

/-- An iteration of `mmap`. -/
def mmapPage (flags v : ℕ) (s : Mm) : Mm :=
  (s.allocZeroed.2.ensureTable (pdeIndex (heapAddr v)) flags).mapHeapPage v s.allocZeroed.1 flags

/-- `mmap`; the index of the heap page is counted in 32 bits. -/
def mmap (s : Mm) (npages flags : ℕ) : ℕ × Mm :=
  (heapAddr (s.freeVirtAreaIdx npages),
    Loop.forEach (fun v => mmapPage flags (v % 2 ^ 32)) (s.freeVirtAreaIdx npages) npages
      { s with overrun := s.overrun || decide (s.virtLast npages = kheapPagesNum) })

/-- An iteration of `unmmap`. -/
def unmmapPage (virtAddr : ℕ) (s : Mm) : Mm :=
  { (s.pmmFree (s.readEntry (s.kernelPageDirectory (pdeIndex virtAddr)) (pteIndex virtAddr) &&&
        pageMask) 1).writeEntry
      (s.kernelPageDirectory (pdeIndex virtAddr)) (pteIndex virtAddr) 0 with
    kheapPages := Function.update s.kheapPages (sub32 virtAddr kheapStart / 4096) 0 }

/-- `unmmap`. -/
def unmmap (s : Mm) (virtAddr npages : ℕ) : Mm :=
  Loop.forEach (fun i => unmmapPage ((virtAddr + i * 4096) % 2 ^ 32)) 0 npages s

/-! ## Address spaces of tasks -/

/-- The first page table of a new address space. -/
def firstTable (page₁ page₂ : ℕ) (i : ℕ) : ℕ :=
  if i = 1 then entry page₁ userFlags else if i = 2 then entry page₂ userFlags else 0

/-- The directory of a new address space, with the kernel's half copied. -/
def newDirectory (kernelPageDirectory : ℕ → ℕ) (table : ℕ) (i : ℕ) : ℕ :=
  if i = 0 then entry table userFlags else if 768 ≤ i then kernelPageDirectory i else 0

/-- The frames `mmap_ring3` allocates before the directory, with the address of the last of them,
the page table. `code` is what the module's bytes make of the code page. -/
def ring3Table (s : Mm) (code : ℕ → ℕ) : ℕ × Mm :=
  (s.allocFilled code).2.allocZeroed.2.allocFilled
    (firstTable (s.allocFilled code).1 (s.allocFilled code).2.allocZeroed.1)

/-- `mmap_ring3`. -/
def mmapRing3 (s : Mm) (code : ℕ → ℕ) : ℕ × Mm :=
  (s.ring3Table code).2.allocFilled
    (newDirectory (s.ring3Table code).2.kernelPageDirectory (s.ring3Table code).1)

/-- The part of an iteration of `unmmap_ring3` that frees a page. -/
def freeUserPage (s : Mm) (table j : ℕ) : Mm :=
  if table &&& 0x001 ≠ 0 ∧ s.readEntry table j ≠ 0 then
    (s.writeEntry table j 0).pmmFree (s.readEntry table j &&& pageMask) 1
  else s.unmapTmpPage

/-- The part of an iteration of `unmmap_ring3` that frees the page table after its last entry. -/
def freeUserTable (s : Mm) (pd i j table : ℕ) : Mm :=
  if 1024 ≤ j + 1 ∧ s.readEntry pd i &&& 0x001 ≠ 0 then
    (s.writeEntry pd i 0).pmmFree (table &&& pageMask) 1
  else s.unmapTmpPage

/-- An iteration of the inner loop of `unmmap_ring3`. -/
def unmmapRing3Page (pd i j : ℕ) (s : Mm) : Mm :=
  (s.freeUserPage (s.readEntry pd i) j).freeUserTable pd i j (s.readEntry pd i)

/-- The inner loop of `unmmap_ring3`, which starts at the second entry of the first table. -/
def unmmapRing3Table (pd i : ℕ) (s : Mm) : Mm :=
  if i = 0 then Loop.forEach (unmmapRing3Page pd i) 1 1023 s
  else Loop.forEach (unmmapRing3Page pd i) 0 1024 s

/-- `unmmap_ring3`, but for the messages it writes to the terminal: what it does to the memory when
it returns. The function with its messages is `AlphaOS.Teardown.unmmapRing3`. -/
def unmmapRing3 (s : Mm) (pd : ℕ) : Mm :=
  (Loop.forEach (unmmapRing3Table pd) 0 768 s).pmmFree (pd &&& pageMask) 1

/-! ## System calls -/

/-- The variables of `sys_mmap` beside the memory: `mapped_pages` and `first_addr`. -/
structure MmapState where
  mm : Mm
  mapped : ℕ
  first : ℕ

/-- `len / PAGE_SIZE`, rounded up as in `sys_mmap`. -/
def totalPages (len : ℕ) : ℕ := if 0 < len % 4096 then len / 4096 + 1 else len / 4096

/-- `(pte_idx << 22) | (pt_idx << 12)`. -/
def userAddr (i j : ℕ) : ℕ := (i <<< 22) ||| (j <<< 12)

/-- The end of an iteration of `sys_mmap` that has mapped a page. -/
def countPage (total i j : ℕ) (st : MmapState) (mm : Mm) : (ℕ × Mm) ⊕ MmapState :=
  if st.mapped + 1 = total then .inl (if st.mapped = 0 then userAddr i j else st.first, mm)
  else .inr ⟨mm, st.mapped + 1, if st.mapped = 0 then userAddr i j else st.first⟩

/-- An iteration of the inner loop of `sys_mmap`. -/
def sysMmapPage (cr3 total i j : ℕ) (st : MmapState) : (ℕ × Mm) ⊕ MmapState :=
  if st.mm.readEntry cr3 i = 0 then
    countPage total i j st ((st.mm.installEntry cr3 i userFlags).installEntry
      (entry st.mm.allocZeroed.1 userFlags) j userFlags)
  else if st.mm.readEntry (st.mm.readEntry cr3 i) j = 0 then
    countPage total i j st (st.mm.installEntry (st.mm.readEntry cr3 i) j userFlags)
  else .inr { st with mm := st.mm.mapTmpPage (st.mm.readEntry cr3 i) }

/-- The inner loop of `sys_mmap`, which starts at the second entry of the first table. -/
def sysMmapTable (cr3 total i : ℕ) (st : MmapState) : (ℕ × Mm) ⊕ MmapState :=
  if i = 0 then Loop.forRange (sysMmapPage cr3 total i) 1 1023 st
  else Loop.forRange (sysMmapPage cr3 total i) 0 1024 st

/-- `sys_mmap` of the task with page directory `cr3`: the value returned, `-1` as a word when the
loops run to their end. -/
def sysMmap (s : Mm) (cr3 len : ℕ) : ℕ × Mm :=
  match Loop.forRange (sysMmapTable cr3 (totalPages len)) 0 1024 ⟨s, 0, 0⟩ with
  | .inl r => r
  | .inr st => (2 ^ 32 - 1, st.mm)

/-- `pages_required`. -/
def pagesRequired (len : ℕ) : ℕ := (len + 4096 - 1) % 2 ^ 32 / 4096

/-- What `sys_munmap` does to one entry. -/
def clearEntry (s : Mm) (table j : ℕ) : Mm :=
  (s.writeEntry table j 0).pmmFree (s.readEntry table j) 1

/-- An iteration of the inner loop of `sys_munmap`; the state counts `current_pages`. -/
def sysMunmapPage (total table j : ℕ) (st : Mm × ℕ) : (Mm × ℕ) ⊕ (Mm × ℕ) :=
  if total ≤ st.2 then .inl st else .inr (st.1.clearEntry table j, st.2 + 1)

/-- An iteration of the outer loop of `sys_munmap`. -/
def sysMunmapTable (cr3 total pte i : ℕ) (st : Mm × ℕ) : Mm × ℕ :=
  Sum.elim id id (Loop.forRange (sysMunmapPage total (st.1.readEntry cr3 i)) pte (1024 - pte)
    (st.1.unmapTmpPage, st.2))

/-- `sys_munmap` of the task with page directory `cr3`; it always returns `0`. -/
def sysMunmap (s : Mm) (cr3 addr len : ℕ) : Mm :=
  (Loop.forEach (sysMunmapTable cr3 (pagesRequired len) (pteIndex addr)) (pdeIndex addr)
    (1024 - pdeIndex addr) (s, 0)).1

end Mm

end AlphaOS
