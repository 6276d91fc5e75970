import AlphaOS.Lib.Dlist
import AlphaOS.Lib.Reach
import AlphaOS.Mm.Memory
import Mathlib.Data.Fin.VecNotation
import Mathlib.Data.List.FinRange

set_option relaxedAutoImplicit false
set_option autoImplicit false

/-!
# The slab allocator

`kmalloc` and `kfree` of `kernel/memory.c`, as functions on the headers of the slabs. A slab is a
page: its header, then the array `free_list` and the objects, which both begin right after the
header.

## Main definitions

* `AlphaOS.Slabs` — the caches, and the fields of the slab in each page.
* `AlphaOS.Slabs.kmalloc`, `AlphaOS.Slabs.kfree` — the functions of the source.
* `AlphaOS.Kheap` — the allocator with the pointers that are live.
* `AlphaOS.Kheap.Step` — a call of `kmalloc` or of `kfree` on a live pointer.

## Design

A function returns `none` where the source leaves its data: it reads `free_list` below its first
entry, or reaches a slab in a page that is not mapped. The address that `mmap` returns is an
argument of the call, and a call is enabled when the pages it asks for are not mapped. Of the stores
of the source only those of the allocator are modelled: `free_list` holds what the allocator has put
there. `kheap_pages` and the page tables behind `mmap` are the subject of `AlphaOS.Mm.mmap`.
-/

namespace AlphaOS

/-! ## Size classes -/

/-- `sizeof(slab_t)`. -/
def sizeofSlab : ℕ := 16

/-- `slab_classes`, and the `obj_size` of the caches. -/
def objSize : Fin 8 → ℕ := ![16, 32, 64, 128, 256, 512, 1024, 2048]

/-- `size_to_class`. -/
def sizeToClass (size : ℕ) : Option (Fin 8) := (List.finRange 8).find? fun i => size ≤ objSize i

/-- `total_count` of a slab of the class. -/
def capacity (c : Fin 8) : ℕ := (4096 - sizeofSlab) / objSize c

/-! ## Slabs -/

/-- The state of the allocator. The fields of the slab in a page are functions of the page's
address; `NULL` is `0`. -/
structure Slabs where
  next : ℕ → ℕ
  prev : ℕ → ℕ
  cacheOwner : ℕ → Option (Fin 8)
  totalCount : ℕ → ℕ
  freeCount : ℕ → ℕ
  freeList : ℕ → ℕ → ℕ
  /-- The `partial` list of each cache. -/
  partialHead : Fin 8 → ℕ
  /-- The `full` list of each cache. -/
  fullHead : Fin 8 → ℕ
  /-- The pages that are mapped. -/
  mapped : ℕ → Bool

namespace Slabs

/-- Is `a` one of the `n` pages from `page` on? -/
def inPages (page n a : ℕ) : Bool :=
  decide (page ≤ a ∧ a < page + n * 4096 ∧ (a - page) % 4096 = 0)

/-- What `mmap` does to the pages it maps: they are filled with zeros. -/
def mapPages (s : Slabs) (page n : ℕ) : Slabs :=
  { s with
    next := fun a => if inPages page n a then 0 else s.next a
    prev := fun a => if inPages page n a then 0 else s.prev a
    cacheOwner := fun a => if inPages page n a then none else s.cacheOwner a
    totalCount := fun a => if inPages page n a then 0 else s.totalCount a
    freeCount := fun a => if inPages page n a then 0 else s.freeCount a
    freeList := fun a => if inPages page n a then fun _ => 0 else s.freeList a
    mapped := fun a => inPages page n a || s.mapped a }

/-- What `unmmap` does. -/
def unmapPages (s : Slabs) (page n : ℕ) : Slabs :=
  { s with mapped := fun a => s.mapped a && !inPages page n a }

/-- `if (a != NULL) a->prev = v`. -/
def storePrev (s : Slabs) (a v : ℕ) : Option Slabs :=
  if a = 0 ∨ s.mapped a = true then some { s with prev := Linked.store 0 s.prev a v } else none

/-- `if (a != NULL) a->next = v`. -/
def storeNext (s : Slabs) (a v : ℕ) : Option Slabs :=
  if a = 0 ∨ s.mapped a = true then some { s with next := Linked.store 0 s.next a v } else none

/-! ## `kmalloc` -/

/-- `npages` in `fp_allocation`. -/
def fpPages (size : ℕ) : ℕ := (size + sizeofSlab) % 2 ^ 32 / 4096 + 1

/-- `fp_allocation`, with `mmap` returning `page`. -/
def fpAllocation (s : Slabs) (size page : ℕ) : ℕ × Slabs :=
  (page + sizeofSlab,
    { s.mapPages page (fpPages size) with
      totalCount :=
        Function.update (s.mapPages page (fpPages size)).totalCount page (fpPages size % 2 ^ 16)
      cacheOwner := Function.update (s.mapPages page (fpPages size)).cacheOwner page none })

/-- A slab is put at the head of the full list. -/
def pushFull (s : Slabs) (c : Fin 8) (slab : ℕ) : Option Slabs := do
  let s ← s.storePrev (s.fullHead c) slab
  some { s with
    next := Function.update s.next slab (s.fullHead c)
    prev := Function.update s.prev slab 0
    fullHead := Function.update s.fullHead c slab }

/-- The part of `kmalloc` that moves an exhausted slab to the full list. -/
def moveToFull (s : Slabs) (c : Fin 8) (slab : ℕ) : Option Slabs := do
  let s ← s.storePrev (s.next slab) 0
  pushFull { s with partialHead := Function.update s.partialHead c (s.next slab) } c slab

/-- `free_count` is decremented. -/
def takeLast (s : Slabs) (slab : ℕ) : Slabs :=
  { s with freeCount := Function.update s.freeCount slab (s.freeCount slab - 1) }

/-- The part of `kmalloc` that takes an object from the first partial slab. When that slab has no
free object, the source reads the word in front of `free_list` and goes on with `65535` for
`free_count`; here the run ends, and the results about runs have guards under which it does not. -/
def popPartial (s : Slabs) (c : Fin 8) : Option (ℕ × Slabs) :=
  if s.mapped (s.partialHead c) = false ∨ s.freeCount (s.partialHead c) = 0 then none
  else do
    let s' ← if s.freeCount (s.partialHead c) - 1 = 0 then
        (s.takeLast (s.partialHead c)).moveToFull c (s.partialHead c)
      else some (s.takeLast (s.partialHead c))
    some (s.freeList (s.partialHead c) (s.freeCount (s.partialHead c) - 1), s')

/-- The address of an object of the slab at `page`. -/
def objAddr (c : Fin 8) (page i : ℕ) : ℕ := page + sizeofSlab + objSize c * i

/-- The part of `kmalloc` that makes a new slab, with `mmap` returning `page`, and takes its last
object. -/
def newSlab (s : Slabs) (c : Fin 8) (page : ℕ) : ℕ × Slabs :=
  (objAddr c page (capacity c - 1),
    { s.mapPages page 1 with
      next := Function.update (s.mapPages page 1).next page 0
      prev := Function.update (s.mapPages page 1).prev page 0
      cacheOwner := Function.update (s.mapPages page 1).cacheOwner page (some c)
      totalCount := Function.update (s.mapPages page 1).totalCount page (capacity c)
      freeCount := Function.update (s.mapPages page 1).freeCount page (capacity c - 1)
      freeList := Function.update (s.mapPages page 1).freeList page fun i =>
        if i < capacity c then objAddr c page i else 0
      partialHead := Function.update s.partialHead c page })

/-- `kmalloc`: the pointer returned, and the state. -/
def kmalloc (s : Slabs) (size page : ℕ) : Option (ℕ × Slabs) :=
  match sizeToClass size with
  | none => some (s.fpAllocation size page)
  | some c => if s.partialHead c ≠ 0 then s.popPartial c else some (s.newSlab c page)

/-- The number of pages that `kmalloc` asks `mmap` for. -/
def demand (s : Slabs) (size : ℕ) : ℕ :=
  match sizeToClass size with
  | none => fpPages size
  | some c => if s.partialHead c ≠ 0 then 0 else 1

/-! ## `kfree` -/

/-- The neighbours of a slab are linked to each other. -/
def unlink (s : Slabs) (slab : ℕ) : Option Slabs := do
  let s ← s.storeNext (s.prev slab) (s.next slab)
  s.storePrev (s.next slab) (s.prev slab)

/-- A slab is put at the head of the partial list. -/
def pushPartial (s : Slabs) (c : Fin 8) (slab : ℕ) : Option Slabs := do
  let s ← s.storePrev (s.partialHead c) slab
  some { s with
    next := Function.update s.next slab (s.partialHead c)
    prev := Function.update s.prev slab 0
    partialHead := Function.update s.partialHead c slab }

/-- The part of `kfree` that moves a slab from the full list to the partial list. -/
def moveToPartial (s : Slabs) (c : Fin 8) (slab : ℕ) : Option Slabs := do
  let s ← s.unlink slab
  pushPartial
    { s with
      fullHead :=
        if s.fullHead c = slab then Function.update s.fullHead c (s.next slab) else s.fullHead }
    c slab

/-- The part of `kfree` that releases a slab without live objects. -/
def release (s : Slabs) (c : Fin 8) (slab : ℕ) : Option Slabs := do
  let s ← s.unlink slab
  some (unmapPages
    { s with
      partialHead :=
        if s.partialHead c = slab then Function.update s.partialHead c (s.next slab)
        else s.partialHead }
    slab 1)

/-- `slab->free_list[slab->free_count++] = ptr`. -/
def putLast (s : Slabs) (slab ptr : ℕ) : Slabs :=
  { s with
    freeList := Function.update s.freeList slab
      (Function.update (s.freeList slab) (s.freeCount slab) ptr)
    freeCount := Function.update s.freeCount slab ((s.freeCount slab + 1) % 2 ^ 16) }

/-- `kfree` of an object of a slab of class `c`. -/
def freeObject (s : Slabs) (c : Fin 8) (slab ptr : ℕ) : Option Slabs := do
  let s := s.putLast slab ptr
  let s ← if s.freeCount slab = 1 then s.moveToPartial c slab else some s
  if s.freeCount slab = s.totalCount slab then s.release c slab else some s

/-- `kfree`. -/
def kfree (s : Slabs) (ptr : ℕ) : Option Slabs :=
  if s.mapped (alignDown4k ptr) = false then none
  else
    match s.cacheOwner (alignDown4k ptr) with
    | none => some (s.unmapPages (alignDown4k ptr) (s.totalCount (alignDown4k ptr)))
    | some c => s.freeObject c (alignDown4k ptr) ptr

/-- The page holds a slab of the class. -/
def IsSlab (s : Slabs) (c : Fin 8) (a : ℕ) : Prop :=
  s.mapped a = true ∧ s.cacheOwner a = some c

/-- The addresses of the objects of a slab. -/
def objects (c : Fin 8) (a : ℕ) : List ℕ := (List.range (capacity c)).map (objAddr c a)

/-- The occupied entries of `free_list`. -/
def freeEntries (s : Slabs) (a : ℕ) : List ℕ := (List.range (s.freeCount a)).map (s.freeList a)

end Slabs

/-! ## Clients -/

/-- The allocator with the pointers that its clients hold. -/
structure Kheap where
  slabs : Slabs
  live : List ℕ

namespace Kheap

/-- `kmalloc(size)`, for which `mmap` returns `page` if it is called, or `kfree(ptr)`. -/
inductive Call
  | kmalloc (size page : ℕ)
  | kfree (ptr : ℕ)
deriving DecidableEq, Repr

/-- `n` pages of the kernel heap from `page` on are not mapped. -/
structure Fresh (s : Slabs) (page n : ℕ) : Prop where
  aligned : page % 4096 = 0
  heap : kheapStart ≤ page
  bound : page + n * 4096 ≤ 2 ^ 32
  unmapped : ∀ a, Slabs.inPages page n a = true → s.mapped a = false

/-- `kmalloc` finds the pages it asks for, and a pointer that is freed is live. -/
def Enabled (h : Kheap) : Call → Prop
  | .kmalloc size page => size < 2 ^ 32 ∧ Fresh h.slabs page (h.slabs.demand size)
  | .kfree ptr => ptr ∈ h.live

/-- What a call does. -/
def exec (h : Kheap) : Call → Option Kheap
  | .kmalloc size page => (h.slabs.kmalloc size page).map fun r => ⟨r.2, r.1 :: h.live⟩
  | .kfree ptr => (h.slabs.kfree ptr).map fun s => ⟨s, h.live.erase ptr⟩

/-- An enabled call that does not leave the allocator's data. -/
def Step (h : Kheap) (call : Call) (h' : Kheap) : Prop := h.Enabled call ∧ h.exec call = some h'

/-- Before the first call: no slab, no page, no pointer. -/
def Init (h : Kheap) : Prop :=
  (∀ c, h.slabs.partialHead c = 0) ∧ (∀ c, h.slabs.fullHead c = 0) ∧
    (∀ a, h.slabs.mapped a = false) ∧ h.live = []

/-- The live objects of the slab in a page. -/
def liveIn (h : Kheap) (a : ℕ) : List ℕ := h.live.filter fun p => alignDown4k p = a

end Kheap

end AlphaOS
