import AlphaOS.Lib.Lseg
import AlphaOS.Lib.Reach
import AlphaOS.Mm.Memory

set_option relaxedAutoImplicit false
set_option autoImplicit false

/-!
# The allocator of user programs

`malloc` and `free` of `userspace/stdlib`, as functions on the words of a program's memory. A page
block is a region that `mmap` has returned: a header (`page_block_t`), then the blocks that were cut
from it, then the part not used yet. A block is a header (`mem_block_t`) and a payload. The blocks
that were given back form a list that begins in the header of their page block.

## Main definitions

* `AlphaOS.Arena` — the memory of a program, `mem_pool`, and which addresses are mapped.
* `AlphaOS.Arena.malloc`, `AlphaOS.Arena.free` — the functions of the source.
* `AlphaOS.Uheap` — the memory with the pointers that are live and the sizes they were asked for.
* `AlphaOS.Uheap.Step` — a call of `malloc`, a call of `free` on a live pointer, or a store of the
  program to the payload of a live block.

## Design

Memory is a function from addresses to words, and the fields of the headers are the words at their
offsets: a header that is written over another one is seen by whoever reads the other.
`is_allocated` is the lowest byte of its word. Each loop of the source takes a bound on the number
of its rounds, and a function returns `none` when a loop does not end within it; a step is a call
that returns for some bound. The address that `mmap` returns is an argument of the call, and a call
that maps a page is enabled when the region it asks for is not mapped. What `printf` writes is left
out, the loop around it is not.
-/

namespace AlphaOS

/-- The memory of a program and the state of its allocator. -/
structure Arena where
  /-- The word at each address. -/
  mem : ℕ → ℕ
  /-- `mem_pool`. -/
  memPool : ℕ
  /-- The addresses that are mapped. -/
  mapped : ℕ → Bool

namespace Arena

/-! ## Headers -/

/-- A word is written. -/
def store (m : Arena) (x v : ℕ) : Arena := { m with mem := Function.update m.mem x v }

/-- `size` of the block at `b`. -/
def size (m : Arena) (b : ℕ) : ℕ := m.mem b

/-- `parent_page` of the block at `b`. -/
def parentPage (m : Arena) (b : ℕ) : ℕ := m.mem (b + 4)

/-- `next_mem_block` of the block at `b`. -/
def nextMemBlock (m : Arena) (b : ℕ) : ℕ := m.mem (b + 8)

/-- `is_allocated` of the block at `b`. -/
def isAllocated (m : Arena) (b : ℕ) : ℕ := m.mem (b + 12) % 256

/-- `og_size` of the page block at `p`. -/
def ogSize (m : Arena) (p : ℕ) : ℕ := m.mem p

/-- `free_size` of the page block at `p`. -/
def freeSize (m : Arena) (p : ℕ) : ℕ := m.mem (p + 4)

/-- `next_free_addr` of the page block at `p`. -/
def nextFreeAddr (m : Arena) (p : ℕ) : ℕ := m.mem (p + 8)

/-- `free_blocks` of the page block at `p`. -/
def freeBlocks (m : Arena) (p : ℕ) : ℕ := m.mem (p + 12)

/-- `next_page_block` of the page block at `p`. -/
def nextPageBlock (m : Arena) (p : ℕ) : ℕ := m.mem (p + 16)

/-- `prev_page_block` of the page block at `p`. -/
def prevPageBlock (m : Arena) (p : ℕ) : ℕ := m.mem (p + 20)

/-- `is_allocated` is written: one byte of its word. -/
@[simp] def setIsAllocated (m : Arena) (b v : ℕ) : Arena :=
  m.store (b + 12) (m.mem (b + 12) / 256 * 256 + v)

/-- `size` is written. -/
@[simp] def setSize (m : Arena) (b v : ℕ) : Arena := m.store b v

/-- `parent_page` is written. -/
@[simp] def setParentPage (m : Arena) (b v : ℕ) : Arena := m.store (b + 4) v

/-- `next_mem_block` is written. -/
@[simp] def setNextMemBlock (m : Arena) (b v : ℕ) : Arena := m.store (b + 8) v

/-- `og_size` is written. -/
@[simp] def setOgSize (m : Arena) (p v : ℕ) : Arena := m.store p v

/-- `free_size` is written. -/
@[simp] def setFreeSize (m : Arena) (p v : ℕ) : Arena := m.store (p + 4) v

/-- `next_free_addr` is written. -/
@[simp] def setNextFreeAddr (m : Arena) (p v : ℕ) : Arena := m.store (p + 8) v

/-- `free_blocks` is written. -/
@[simp] def setFreeBlocks (m : Arena) (p v : ℕ) : Arena := m.store (p + 12) v

/-- `next_page_block` is written. -/
@[simp] def setNextPageBlock (m : Arena) (p v : ℕ) : Arena := m.store (p + 16) v

/-- `prev_page_block` is written. -/
@[simp] def setPrevPageBlock (m : Arena) (p v : ℕ) : Arena := m.store (p + 20) v

/-! ## Pages -/

/-- `pages_required`. -/
def pagesRequired (len : ℕ) : ℕ := (len + 4095) % 2 ^ 32 / 4096

/-- The length of the pages that `len` bytes take. -/
def regionSize (len : ℕ) : ℕ := (len + 4095) / 4096 * 4096

/-- Is `x` in the region of `len` bytes at `a`? -/
def inRegion (a len x : ℕ) : Bool := decide (a ≤ x ∧ x < a + regionSize len)

/-- What `mmap` does when it returns `a`: the pages are mapped and filled with zeros. -/
def mmap (m : Arena) (a len : ℕ) : Arena :=
  { m with
    mem := fun x => if inRegion a len x then 0 else m.mem x
    mapped := fun x => inRegion a len x || m.mapped x }

/-- What `munmap` does. -/
def munmap (m : Arena) (a len : ℕ) : Arena :=
  { m with mapped := fun x => m.mapped x && !inRegion a len x }

/-- `mmap` may return `a`: the pages from there on are not mapped, and they end before the address
space does. -/
structure Fresh (m : Arena) (a len : ℕ) : Prop where
  pos : 0 < a
  aligned : a % 4096 = 0
  bound : a + regionSize len < 2 ^ 32
  unmapped : ∀ x, inRegion a len x = true → m.mapped x = false

/-! ## `malloc` -/

/-- `align_up`. -/
def alignUp (size : ℕ) : ℕ := (size + 7) % 2 ^ 32 &&& 0xFFFFFFF8

/-- `target_size`: with the header of the block. -/
def targetSize (size : ℕ) : ℕ := (alignUp size + 16) % 2 ^ 32

/-- `alloc_size`: with the header of the page block as well. -/
def allocSize (size : ℕ) : ℕ := (targetSize size + 24) % 2 ^ 32

/-- `alloc_page_block`, with `mmap` returning `a`. -/
def allocPageBlock (m : Arena) (a size : ℕ) : Arena :=
  let m := m.mmap a size
  let m := m.setOgSize a (4096 * pagesRequired size % 2 ^ 32)
  let m := m.setFreeSize a (sub32 (4096 * pagesRequired size % 2 ^ 32) 24)
  let m := m.setFreeBlocks a 0
  let m := m.setNextPageBlock a 0
  let m := m.setPrevPageBlock a 0
  m.setNextFreeAddr a ((a + 24) % 2 ^ 32)

/-- `alloc_mem_block`: the block begins where `next_free_addr` of the page block points. -/
def allocMemBlock (m : Arena) (size p : ℕ) : Arena :=
  let b := m.nextFreeAddr p
  let m := m.setFreeSize p (sub32 (m.freeSize p) size)
  let m := m.setNextFreeAddr p ((m.nextFreeAddr p + size) % 2 ^ 32)
  let m := m.setSize b (sub32 size 16)
  let m := m.setParentPage b p
  let m := m.setNextMemBlock b 0
  m.setIsAllocated b 1

/-- The loop of `malloc` over the free blocks of a page block, as the pair of `prev_it_mem_block`
and `it_mem_block` where it stops: at a block that is large enough, or after the last one. -/
def findBlock (m : Arena) (fuel aligned p : ℕ) : Option (ℕ × ℕ) :=
  Linked.walk (fun q : ℕ × ℕ => (q.2, m.nextMemBlock q.2))
    (fun q => decide (q.2 = 0 ∨ aligned ≤ m.size q.2)) fuel (0, m.freeBlocks p)

/-- Where `malloc` gets its block from. -/
inductive Site
  /-- The free block `b`, which comes after `prev` on its list. -/
  | block (prev b : ℕ)
  /-- The unused part of the page block `p`. -/
  | bump (p : ℕ)
  /-- A new page block, to be linked after `prev`. -/
  | fresh (prev : ℕ)
deriving DecidableEq, Repr

/-- The loop of `malloc` over the page blocks. -/
def findSite (m : Arena) (fuel size : ℕ) : ℕ → ℕ → ℕ → Option Site
  | 0, _, _ => none
  | n + 1, prev, p =>
    if p = 0 then some (.fresh prev)
    else
      match m.findBlock fuel (alignUp size) p with
      | none => none
      | some (prevBlock, b) =>
        if b ≠ 0 then some (.block prevBlock b)
        else if targetSize size ≤ m.freeSize p then some (.bump p)
        else m.findSite fuel size n p (m.nextPageBlock p)

/-- The two loops of `malloc`, from `mem_pool` on. -/
def site (m : Arena) (fuel size : ℕ) : Option Site := m.findSite fuel size fuel 0 m.memPool

/-- The link that led to the block `b` is made to lead to `v`. -/
def relink (m : Arena) (prev b v : ℕ) : Arena :=
  if prev = 0 then m.setFreeBlocks (m.parentPage b) v else m.setNextMemBlock prev v

/-- `splitted_mem_block`. -/
def splitAddr (size b : ℕ) : ℕ := (b + targetSize size) % 2 ^ 32

/-- The branch of `malloc` for a block that is larger than the request. -/
def splitBlock (m : Arena) (size prev b : ℕ) : Arena :=
  let s := splitAddr size b
  let m := m.setSize s (sub32 (m.size b) (targetSize size))
  let m := m.setIsAllocated s 0
  let m := m.setParentPage s (m.parentPage b)
  let m := m.setSize b (alignUp size)
  let m := m.setIsAllocated b 1
  let m := m.setNextMemBlock s (m.nextMemBlock b)
  let m := m.relink prev b s
  m.setNextMemBlock b 0

/-- The branch of `malloc` for a block that has the size of the request. -/
def exactBlock (m : Arena) (prev b : ℕ) : Arena :=
  let m := m.setIsAllocated b 1
  m.relink prev b (m.nextMemBlock b)

/-- `malloc` takes a block from a list. After a split it prints the list. -/
def takeBlock (m : Arena) (fuel size prev b : ℕ) : Option Arena :=
  if alignUp size < m.size b then
    let m := m.splitBlock size prev b
    (Linked.walk m.nextMemBlock (fun c => c == 0) fuel (m.freeBlocks (m.parentPage b))).map fun _ =>
      m
  else some (m.exactBlock prev b)

/-- `malloc` makes the first page block. -/
def firstPage (m : Arena) (size a : ℕ) : Arena :=
  let m := m.allocPageBlock a (allocSize size)
  let m := m.allocMemBlock (targetSize size) a
  { m with memPool := a }

/-- `malloc` makes a page block and links it after `prev`. -/
def nextPage (m : Arena) (size a prev : ℕ) : Arena :=
  let m := m.allocPageBlock a (allocSize size)
  let m := m.setPrevPageBlock a prev
  let m := m.setNextPageBlock prev a
  m.allocMemBlock (targetSize size) a

/-- The pointer to the payload of the block at `b`. -/
def payload (b : ℕ) : ℕ := (b + 16) % 2 ^ 32

/-- `malloc`, with `mmap` returning `a`: the pointer returned, and the memory. -/
def malloc (m : Arena) (fuel size a : ℕ) : Option (ℕ × Arena) :=
  if m.memPool = 0 then
    some (payload ((a + 24) % 2 ^ 32), m.firstPage size a)
  else
    match m.site fuel size with
    | none => none
    | some (.block prev b) => (m.takeBlock fuel size prev b).map fun m' => (payload b, m')
    | some (.bump p) => some (payload (m.nextFreeAddr p), m.allocMemBlock (targetSize size) p)
    | some (.fresh prev) => some (payload ((a + 24) % 2 ^ 32), m.nextPage size a prev)

/-- `malloc` will map a page. -/
def MapsPage (m : Arena) (size : ℕ) : Prop := ∃ fuel prev, m.site fuel size = some (.fresh prev)

/-! ## `free` -/

/-- The loop of `is_page_free`. -/
def totalFreeSize (m : Arena) : ℕ → ℕ → ℕ → Option ℕ
  | 0, _, _ => none
  | n + 1, total, b =>
    if b = 0 then some total
    else m.totalFreeSize n ((total + m.size b + 16) % 2 ^ 32) (m.nextMemBlock b)

/-- `is_page_free`. -/
def isPageFree (m : Arena) (fuel b : ℕ) : Option Bool :=
  (m.totalFreeSize fuel ((m.freeSize (m.parentPage b) + m.size b + 16 + 24) % 2 ^ 32)
    (m.freeBlocks (m.parentPage b))).map fun total => decide (total = m.ogSize (m.parentPage b))

/-- The page block `p` is taken out of the list of page blocks. -/
def unlinkPage (m : Arena) (p : ℕ) : Arena :=
  let m :=
    if m.nextPageBlock p ≠ 0 then m.setPrevPageBlock (m.nextPageBlock p) (m.prevPageBlock p) else m
  let m :=
    if m.prevPageBlock p ≠ 0 then m.setNextPageBlock (m.prevPageBlock p) (m.nextPageBlock p) else m
  if p = m.memPool then { m with memPool := m.nextPageBlock p } else m

/-- `unmap_free_page`. -/
def unmapFreePage (m : Arena) (p : ℕ) : Arena :=
  let m := m.unlinkPage p
  m.munmap p (m.ogSize p)

/-- What `free` does with a block. -/
inductive Fate
  /-- Its page block is unmapped. -/
  | unmap
  /-- It becomes the only block of the list. -/
  | first
  /-- It becomes part of the last block of the list. -/
  | merge (last : ℕ)
  /-- It is put after the last block of the list. -/
  | append (last : ℕ)
deriving DecidableEq, Repr

/-- The tests and the loops of `free`. -/
def fate (m : Arena) (fuel b : ℕ) : Option Fate :=
  match m.isPageFree fuel b with
  | none => none
  | some true => some .unmap
  | some false =>
    if m.freeBlocks (m.parentPage b) = 0 then some .first
    else
      (Linked.walk m.nextMemBlock (fun c => m.nextMemBlock c == 0) fuel
        (m.freeBlocks (m.parentPage b))).map fun last =>
          if m.isAllocated last = 0 ∧ (last + m.size last + 16) % 2 ^ 32 = b then .merge last
          else .append last

/-- What `free` writes. -/
def dispose (m : Arena) (b : ℕ) : Fate → Arena
  | .unmap => m.unmapFreePage (m.parentPage b)
  | .first => m.setFreeBlocks (m.parentPage b) b
  | .merge last => m.setSize last ((m.size last + m.size b + 16) % 2 ^ 32)
  | .append last => m.setNextMemBlock last b

/-- `mem_block` of `free`, which is no longer allocated. -/
def release (m : Arena) (addr : ℕ) : Arena := m.setIsAllocated (sub32 addr 16) 0

/-- `free`. -/
def free (m : Arena) (fuel addr : ℕ) : Option Arena :=
  ((m.release addr).fate fuel (sub32 addr 16)).map ((m.release addr).dispose (sub32 addr 16))

end Arena

/-! ## Programs -/

/-- The memory of a program, with the pointers that are live and the sizes they were asked for. -/
structure Uheap where
  arena : Arena
  live : List (ℕ × ℕ)

namespace Uheap

/-- `malloc(size)`, for which `mmap` returns `a` if it is called, `free(addr)`, or a store of the
program. -/
inductive Call
  | malloc (size a : ℕ)
  | free (addr : ℕ)
  | store (x v : ℕ)
deriving DecidableEq, Repr

/-- The pointers that are live. -/
def pointers (h : Uheap) : List ℕ := h.live.map Prod.fst

/-- The word at `x` is in the payload of a live block. -/
def InPayload (h : Uheap) (x : ℕ) : Prop :=
  x % 4 = 0 ∧ ∃ q ∈ h.pointers, q ≤ x ∧ x + 4 ≤ q + h.arena.size (sub32 q 16)

/-- `mmap` finds a region when it is called, a pointer that is freed is live, and the program writes
to the payloads of live blocks only. -/
def Enabled (h : Uheap) : Call → Prop
  | .malloc size a => size < 2 ^ 32 ∧
      (h.arena.MapsPage size → h.arena.Fresh a (Arena.allocSize size))
  | .free addr => addr ∈ h.pointers
  | .store x _ => h.InPayload x

/-- What a call does. -/
def exec (h : Uheap) (fuel : ℕ) : Call → Option Uheap
  | .malloc size a => (h.arena.malloc fuel size a).map fun r => ⟨r.2, (r.1, size) :: h.live⟩
  | .free addr => (h.arena.free fuel addr).map fun m => ⟨m, h.live.filter fun e => e.1 ≠ addr⟩
  | .store x v => some ⟨h.arena.store x (v % 2 ^ 32), h.live⟩

/-- An enabled call that returns. -/
def Step (h : Uheap) (call : Call) (h' : Uheap) : Prop :=
  h.Enabled call ∧ ∃ fuel, h.exec fuel call = some h'

/-- Before the first call. -/
def Init (h : Uheap) : Prop := h.arena.memPool = 0 ∧ h.live = []

end Uheap

end AlphaOS
