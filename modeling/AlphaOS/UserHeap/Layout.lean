import AlphaOS.Lib.Dlist
import AlphaOS.Lib.Tiling
import AlphaOS.UserHeap.Malloc

set_option relaxedAutoImplicit false
set_option autoImplicit false

/-!
# The layout of a user program's heap

What the allocator has made of its memory is a layout: page blocks, the blocks of each of them in
the order of their addresses, and the blocks of each that are on its list, in the order of the list.
The words of the memory stand for a layout when the blocks tile the used part of their page block
and the links run through the lists.

## Main definitions

* `AlphaOS.Arena.PageInv` — the header of a page block and those of its blocks stand for two lists.
* `AlphaOS.Arena.Flags` — the blocks that are not allocated are those on the list.
* `AlphaOS.Arena.Layout`, `AlphaOS.Arena.Inv` — a layout, and the memory that stands for it.
* `AlphaOS.Arena.Inside` — a call has written to one page block only.

## Main results

* `AlphaOS.Arena.Inv.inside` — what is written inside of a page block concerns its own lists only.
-/

namespace AlphaOS

namespace Arena

open Tiling Linked

variable {m m' m'' : Arena} {p q b c x v : ℕ} {bs fs : List ℕ}

/-! ## Words -/

/-- A store does not move the first page block. -/
@[simp] lemma memPool_store (m : Arena) (x v : ℕ) : (m.store x v).memPool = m.memPool := rfl

/-- A store maps nothing. -/
@[simp] lemma mapped_store (m : Arena) (x v : ℕ) : (m.store x v).mapped = m.mapped := rfl

/-- A word that is not written. -/
lemma mem_store_of_ne (h : x ≠ b) (v : ℕ) : (m.store b v).mem x = m.mem x :=
  Function.update_of_ne h _ _

/-- The word that is written. -/
@[simp] lemma mem_store_self (m : Arena) (x v : ℕ) : (m.store x v).mem x = v :=
  Function.update_self _ _ _

/-! ## Page blocks -/

/-- The page block at `p` has the blocks `bs`, and its list has the blocks `fs`. -/
structure PageInv (m : Arena) (p : ℕ) (bs fs : List ℕ) : Prop where
  pos : 0 < p
  bound : p + m.ogSize p < 2 ^ 32
  tiles : Tiles (fun b => m.size b + 16) (p + 24) bs (m.nextFreeAddr p)
  rest : m.nextFreeAddr p + m.freeSize p = p + m.ogSize p
  parent : ∀ b ∈ bs, m.parentPage b = p
  list : Lseg m.nextMemBlock (m.freeBlocks p) fs 0
  nodup : fs.Nodup
  sub : ∀ b ∈ fs, b ∈ bs

/-- Of the blocks `bs`, those in `fs` are not allocated. -/
def Flags (m : Arena) (bs fs : List ℕ) : Prop := ∀ b ∈ bs, m.isAllocated b = 0 ↔ b ∈ fs

/-- A block lies between the header of its page block and the unused part. -/
lemma PageInv.bounds (h : PageInv m p bs fs) (hb : b ∈ bs) :
    p + 24 ≤ b ∧ b + m.size b + 16 ≤ m.nextFreeAddr p ∧ m.nextFreeAddr p ≤ p + m.ogSize p := by
  have htile := h.tiles.bounds hb
  have hrest := h.rest
  omega

/-- Two blocks do not overlap. -/
lemma PageInv.apart (h : PageInv m p bs fs) (hb : b ∈ bs) (hc : c ∈ bs) (hne : b ≠ c) :
    b + m.size b + 16 ≤ c ∨ c + m.size c + 16 ≤ b := by
  have htile := h.tiles.apart hb hc hne
  omega

/-- The used part begins after the header. -/
lemma PageInv.start_le (h : PageInv m p bs fs) : p + 24 ≤ m.nextFreeAddr p := h.tiles.le

/-- The null pointer is on no list. -/
lemma PageInv.zero_notMem (h : PageInv m p bs fs) : 0 ∉ fs := by
  intro hmem
  have hbounds := h.bounds (h.sub 0 hmem)
  omega

/-- A page block's lists depend on its header, its links aside, and on the headers of its blocks,
the flags aside. -/
lemma PageInv.congr (h : PageInv m p bs fs) (hp : ∀ k < 16, m'.mem (p + k) = m.mem (p + k))
    (hb : ∀ b ∈ bs, ∀ k < 12, m'.mem (b + k) = m.mem (b + k)) : PageInv m' p bs fs := by
  have hog : m'.ogSize p = m.ogSize p := hp 0 (by omega)
  have hfree : m'.freeSize p = m.freeSize p := hp 4 (by omega)
  have hnext : m'.nextFreeAddr p = m.nextFreeAddr p := hp 8 (by omega)
  have hhead : m'.freeBlocks p = m.freeBlocks p := hp 12 (by omega)
  refine ⟨h.pos, ?_, ?_, ?_, fun b hmem => ?_, ?_, h.nodup, h.sub⟩
  · rw [hog]
    exact h.bound
  · rw [hnext]
    exact h.tiles.congr fun b hmem => congrArg (· + 16) (hb b hmem 0 (by omega))
  · rw [hnext, hfree, hog]
    exact h.rest
  · rw [parentPage, hb b hmem 4 (by omega)]
    exact h.parent b hmem
  · rw [hhead]
    exact h.list.congr fun b hmem => hb b (h.sub b hmem) 8 (by omega)

/-- The flags of the blocks are read from their headers. -/
lemma Flags.congr (h : Flags m bs fs) (hb : ∀ b ∈ bs, m'.mem (b + 12) = m.mem (b + 12)) :
    Flags m' bs fs := by
  intro b hmem
  rw [isAllocated, hb b hmem]
  exact h b hmem

/-- Membership in the list is all that the flags say. -/
lemma Flags.of_mem_iff {fs' : List ℕ} (h : Flags m bs fs) (hiff : ∀ b ∈ bs, b ∈ fs' ↔ b ∈ fs) :
    Flags m bs fs' := fun b hmem => (h b hmem).trans (hiff b hmem).symm

/-! ## Layouts -/

/-- The page blocks, the blocks of each, and the blocks on the list of each. -/
structure Layout where
  pages : List ℕ
  blocks : ℕ → List ℕ
  frees : ℕ → List ℕ

/-- The block at `b` is allocated. -/
def Layout.Allocated (L : Layout) (b : ℕ) : Prop := ∃ p ∈ L.pages, b ∈ L.blocks p ∧ b ∉ L.frees p

/-- The lists of one page block are replaced. -/
def Layout.set (L : Layout) (p : ℕ) (bs fs : List ℕ) : Layout :=
  { L with blocks := Function.update L.blocks p bs, frees := Function.update L.frees p fs }

variable {L : Layout}

/-- **The memory stands for the layout.** -/
structure Inv (m : Arena) (L : Layout) : Prop where
  pool : Dlist 0 m.nextPageBlock m.prevPageBlock m.memPool L.pages
  page : ∀ p ∈ L.pages, PageInv m p (L.blocks p) (L.frees p)
  flags : ∀ p ∈ L.pages, Flags m (L.blocks p) (L.frees p)
  apart : ∀ p ∈ L.pages, ∀ q ∈ L.pages, p ≠ q → p + m.ogSize p ≤ q ∨ q + m.ogSize q ≤ p

/-- The page blocks are mapped, and they are whole pages. -/
def Backed (m : Arena) (L : Layout) : Prop :=
  ∀ p ∈ L.pages, m.ogSize p % 4096 = 0 ∧ ∀ x, p ≤ x → x < p + m.ogSize p → m.mapped x = true

/-- A page block holds its header. -/
lemma PageInv.header_le (h : PageInv m p bs fs) : p + 24 ≤ p + m.ogSize p := by
  have hstart := h.start_le
  have hrest := h.rest
  omega

/-- The blocks of two page blocks are different. -/
lemma Inv.page_unique (h : Inv m L) (hp : p ∈ L.pages) (hq : q ∈ L.pages) (hb : b ∈ L.blocks p)
    (hb' : b ∈ L.blocks q) : p = q := by
  by_contra hne
  have hapart := h.apart p hp q hq hne
  have hbounds := (h.page p hp).bounds hb
  have hbounds' := (h.page q hq).bounds hb'
  omega

/-- Two blocks, of whatever page blocks, do not overlap. -/
lemma Inv.blocks_apart (h : Inv m L) (hp : p ∈ L.pages) (hq : q ∈ L.pages) (hb : b ∈ L.blocks p)
    (hc : c ∈ L.blocks q) (hne : b ≠ c) : b + m.size b + 16 ≤ c ∨ c + m.size c + 16 ≤ b := by
  by_cases hpq : p = q
  · subst hpq
    exact (h.page p hp).apart hb hc hne
  · have hapart := h.apart p hp q hq hpq
    have hbounds := (h.page p hp).bounds hb
    have hbounds' := (h.page q hq).bounds hc
    omega

/-- A block does not overlap the header of a page block. -/
lemma Inv.header_apart (h : Inv m L) (hp : p ∈ L.pages) (hq : q ∈ L.pages) (hb : b ∈ L.blocks p) :
    q + 24 ≤ b ∨ b + m.size b + 16 ≤ q := by
  have hbounds := (h.page p hp).bounds hb
  by_cases hpq : p = q
  · omega
  · have hapart := h.apart p hp q hq hpq
    have hheader := (h.page q hq).header_le
    omega

/-! ## Writing inside of a page block -/

/-- Between `m` and `m'`, nothing has changed but words of the page block at `p`, and of these
neither `og_size` nor the links to other page blocks. -/
structure Inside (m m' : Arena) (p : ℕ) : Prop where
  mem : ∀ x, x ≤ p ∨ x = p + 16 ∨ x = p + 20 ∨ p + m.ogSize p ≤ x → m'.mem x = m.mem x
  memPool : m'.memPool = m.memPool
  mapped : m'.mapped = m.mapped

/-- The size of the page block stays. -/
lemma Inside.ogSize_eq (h : Inside m m' p) : m'.ogSize p = m.ogSize p := h.mem p (.inl le_rfl)

/-- Two calls. -/
lemma Inside.trans (h : Inside m m' p) (h' : Inside m' m'' p) : Inside m m'' p := by
  refine ⟨fun x hx => ?_, h'.memPool.trans h.memPool, h'.mapped.trans h.mapped⟩
  rw [h'.mem x (by rwa [h.ogSize_eq]), h.mem x hx]

/-- One word is written. -/
lemma Inside.store (hlo : p < x) (h16 : x ≠ p + 16) (h20 : x ≠ p + 20) (hhi : x < p + m.ogSize p)
    (v : ℕ) :
    Inside m (m.store x v) p := by
  refine ⟨fun y hy => mem_store_of_ne ?_ v, rfl, rfl⟩
  omega

/-- What is written inside of a page block is not in another one. -/
lemma Inside.other (h : Inside m m' p) (hI : Inv m L) (hp : p ∈ L.pages) (hq : q ∈ L.pages)
    (hne : p ≠ q) (hlo : q ≤ x) (hhi : x < q + m.ogSize q) : m'.mem x = m.mem x := by
  have hapart := hI.apart p hp q hq hne
  exact h.mem x (by omega)

/-- The sizes of all page blocks stay. -/
lemma Inside.ogSize (h : Inside m m' p) (hI : Inv m L) (hp : p ∈ L.pages) (hq : q ∈ L.pages) :
    m'.ogSize q = m.ogSize q := by
  by_cases hne : p = q
  · subst hne
    exact h.ogSize_eq
  · have hheader := (hI.page q hq).header_le
    exact h.other hI hp hq hne le_rfl (by omega)

/-- The links between page blocks stay. -/
lemma Inside.links (h : Inside m m' p) (hI : Inv m L) (hp : p ∈ L.pages) (hq : q ∈ L.pages) :
    m'.nextPageBlock q = m.nextPageBlock q ∧ m'.prevPageBlock q = m.prevPageBlock q := by
  have hheader := (hI.page q hq).header_le
  by_cases hne : p = q
  · subst hne
    exact ⟨h.mem _ (by omega), h.mem _ (by omega)⟩
  · exact ⟨h.other hI hp hq hne (by omega) (by omega), h.other hI hp hq hne (by omega) (by omega)⟩

/-- The lists of the other page blocks stay. -/
lemma Inside.page (h : Inside m m' p) (hI : Inv m L) (hp : p ∈ L.pages) (hq : q ∈ L.pages)
    (hne : p ≠ q) :
    PageInv m' q (L.blocks q) (L.frees q) ∧ Flags m' (L.blocks q) (L.frees q) := by
  have hpage := hI.page q hq
  have hheader := hpage.header_le
  refine ⟨hpage.congr (fun k hk => ?_) fun b hb k hk => ?_, (hI.flags q hq).congr fun b hb => ?_⟩
  · exact h.other hI hp hq hne (by omega) (by omega)
  · have hbounds := hpage.bounds hb
    exact h.other hI hp hq hne (by omega) (by omega)
  · have hbounds := hpage.bounds hb
    exact h.other hI hp hq hne (by omega) (by omega)

/-- **What is written inside of a page block concerns its own lists only.** -/
theorem Inv.inside (h : Inv m L) (hp : p ∈ L.pages) (hin : Inside m m' p)
    (hpage : PageInv m' p bs fs) (hflags : Flags m' bs fs) : Inv m' (L.set p bs fs) := by
  have hset : ∀ q, q ≠ p → (L.set p bs fs).blocks q = L.blocks q ∧
      (L.set p bs fs).frees q = L.frees q :=
    fun q hne => ⟨Function.update_of_ne hne _ _, Function.update_of_ne hne _ _⟩
  have hself : (L.set p bs fs).blocks p = bs ∧ (L.set p bs fs).frees p = fs :=
    ⟨Function.update_self _ _ _, Function.update_self _ _ _⟩
  refine ⟨?_, fun q hq => ?_, fun q hq => ?_, fun q hq r hr hne => ?_⟩
  · rw [hin.memPool]
    exact h.pool.congr fun q hq => hin.links h hp hq
  · by_cases hne : q = p
    · subst hne
      rw [hself.1, hself.2]
      exact hpage
    · rw [(hset q hne).1, (hset q hne).2]
      exact (hin.page h hp hq (Ne.symm hne)).1
  · by_cases hne : q = p
    · subst hne
      rw [hself.1, hself.2]
      exact hflags
    · rw [(hset q hne).1, (hset q hne).2]
      exact (hin.page h hp hq (Ne.symm hne)).2
  · rw [hin.ogSize h hp hq, hin.ogSize h hp hr]
    exact h.apart q hq r hr hne

/-- The page blocks stay mapped. -/
lemma Inv.backed_inside (h : Inv m L) (hp : p ∈ L.pages) (hin : Inside m m' p)
    (hback : m.Backed L) :
    m'.Backed (L.set p bs fs) := by
  intro q hq
  rw [hin.ogSize h hp hq, hin.mapped]
  exact hback q hq

/-- The block at `b` is allocated, and it is not in the page block at `p`. -/
def Layout.Elsewhere (L : Layout) (p b : ℕ) : Prop :=
  ∃ q ∈ L.pages, q ≠ p ∧ b ∈ L.blocks q ∧ b ∉ L.frees q

/-- The allocated blocks, seen from one page block. -/
lemma Layout.allocated_iff (hp : p ∈ L.pages) :
    L.Allocated b ↔ (b ∈ L.blocks p ∧ b ∉ L.frees p) ∨ L.Elsewhere p b := by
  constructor
  · rintro ⟨q, hq, hb⟩
    by_cases hne : q = p
    · exact .inl (hne ▸ hb)
    · exact .inr ⟨q, hq, hne, hb⟩
  · rintro (hb | ⟨q, hq, -, hb⟩)
    · exact ⟨p, hp, hb⟩
    · exact ⟨q, hq, hb⟩

/-- The allocated blocks after the lists of one page block are replaced. -/
lemma Layout.allocated_set (hp : p ∈ L.pages) :
    (L.set p bs fs).Allocated b ↔ (b ∈ bs ∧ b ∉ fs) ∨ L.Elsewhere p b := by
  rw [Layout.allocated_iff (L := L.set p bs fs) hp]
  simp only [set, Function.update_self, Elsewhere]
  refine or_congr_right (exists_congr fun q => and_congr_right fun _ =>
    and_congr_right fun hne => ?_)
  rw [Function.update_of_ne hne, Function.update_of_ne hne]

/-- A block of one page block is not in another. -/
lemma Inv.not_elsewhere (h : Inv m L) (hp : p ∈ L.pages) (hb : b ∈ L.blocks p) :
    ¬L.Elsewhere p b := by
  rintro ⟨q, hq, hne, hb', -⟩
  exact hne (h.page_unique hq hp hb' hb)

end Arena

end AlphaOS
