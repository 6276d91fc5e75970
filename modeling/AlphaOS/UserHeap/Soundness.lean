import AlphaOS.UserHeap.Freeing

set_option relaxedAutoImplicit false
set_option autoImplicit false

/-!
# Runs of a user program's heap

What holds after every sequence of calls of `malloc` and of `free` on live pointers, with stores of
the program to its own memory in between: the lists of free blocks are lists, and the memory handed
out belongs to one block each.

## Main definitions

* `AlphaOS.Uheap.ListsSound` — the list of every page block is finite, and has each of the free
  blocks once.
* `AlphaOS.Uheap.Sound` — payloads lie inside of their page blocks and overlap neither each other
  nor a header.
* `AlphaOS.Uheap.Cautious`, `AlphaOS.Uheap.Careful` — what a call must heed for the first, and for
  the second.

## Main results

* `AlphaOS.Uheap.lists_sound` — runs of cautious calls keep the lists, and every loop ends.
* `AlphaOS.Uheap.heap_sound` — runs of careful calls keep the memory of live blocks.
* `AlphaOS.Uheap.lists_cyclic`, `AlphaOS.Uheap.size_underflow` — runs of other calls that do not.
-/

namespace AlphaOS

namespace Arena

open Tiling Linked

/-- The page block at `p` is on the list of page blocks. -/
def IsPage (m : Arena) (p : ℕ) : Prop := OnList 0 m.nextPageBlock m.memPool p

/-- The block at `b` is on the list of the page block at `p`. -/
def IsListed (m : Arena) (p b : ℕ) : Prop := OnList 0 m.nextMemBlock (m.freeBlocks p) b

/-- Going from block to block in the page block at `p`, one comes to `b` before the unused part. -/
def IsBlock (m : Arena) (p b : ℕ) : Prop :=
  b < m.nextFreeAddr p ∧ ∃ l, Tiles (fun b => m.size b + 16) (p + 24) l b

variable {m : Arena} {L : Layout} {p b : ℕ}

/-- The page blocks of the layout. -/
lemma Inv.isPage_iff (h : Inv m L) : m.IsPage p ↔ p ∈ L.pages := onList_iff h.pool.lseg h.pool.2.1

/-- The lists of the layout. -/
lemma Inv.isListed_iff (h : Inv m L) (hp : p ∈ L.pages) : m.IsListed p b ↔ b ∈ L.frees p :=
  onList_iff (h.page p hp).list (h.page p hp).zero_notMem

/-- The blocks of the layout. -/
lemma Inv.isBlock_iff (h : Inv m L) (hp : p ∈ L.pages) : m.IsBlock p b ↔ b ∈ L.blocks p :=
  ((h.page p hp).tiles.mem_iff fun _ _ => Nat.succ_pos _).symm

end Arena

namespace Uheap

open Arena Linked

variable {h h' : Uheap} {L : Arena.Layout} {call : Call}

/-! ## What the heap should be -/

/-- The list of every page block is finite and without repetitions; the blocks on it are those
blocks of the page block that are not allocated, which are those without a live pointer. -/
def ListsSound (h : Uheap) : Prop :=
  ∀ p, h.arena.IsPage p →
    (∃ fs : List ℕ, Lseg h.arena.nextMemBlock (h.arena.freeBlocks p) fs 0 ∧ fs.Nodup ∧
      ∀ b, b ∈ fs ↔ h.arena.IsBlock p b ∧ h.arena.isAllocated b = 0) ∧
    ∀ b, h.arena.IsBlock p b → (h.arena.isAllocated b = 0 ↔ b + 16 ∉ h.pointers)

/-- `n` bytes at `x` and `k` bytes at `y` do not overlap. -/
def Apart (x n y k : ℕ) : Prop := x + n ≤ y ∨ y + k ≤ x

/-- The length of the payload that a live pointer points to. -/
def payloadSize (h : Uheap) (q : ℕ) : ℕ := h.arena.size (sub32 q 16)

/-- A header of a block: of one that a live pointer belongs to, or of one on a list. -/
def IsHeader (h : Uheap) (b : ℕ) : Prop :=
  b + 16 ∈ h.pointers ∨ ∃ p, h.arena.IsPage p ∧ h.arena.IsListed p b

/-- The memory of live blocks. -/
structure Sound (h : Uheap) : Prop where
  /-- A pointer addresses as many bytes as it was asked for. -/
  size_le : ∀ e ∈ h.live, e.2 ≤ h.payloadSize e.1
  /-- They lie inside of a page block. -/
  inside : ∀ e ∈ h.live, ∃ p, h.arena.IsPage p ∧ p + 24 ≤ e.1 ∧
    e.1 + h.payloadSize e.1 ≤ p + h.arena.ogSize p
  /-- No two payloads overlap. -/
  payloads : h.live.Pairwise fun e f =>
    e.1 ≠ f.1 ∧ Apart e.1 (h.payloadSize e.1) f.1 (h.payloadSize f.1)
  /-- No payload overlaps the header of a block. -/
  headers : ∀ e ∈ h.live, ∀ b, h.IsHeader b → Apart e.1 (h.payloadSize e.1) b 16
  /-- No payload overlaps the header of a page block. -/
  pageHeaders : ∀ e ∈ h.live, ∀ p, h.arena.IsPage p → Apart e.1 (h.payloadSize e.1) p 24
  /-- The size of a free block does not lead out of its page block. -/
  free_size : ∀ p b, h.arena.IsPage p → h.arena.IsListed p b →
    p + 24 ≤ b ∧ b + 16 + h.arena.size b ≤ p + h.arena.ogSize p

/-- A request that is served from a free block fits it or leaves the room of a header. -/
def Serves (h : Uheap) : Call → Prop
  | .malloc size _ => ∀ fuel u b, h.arena.site fuel size = some (.block u b) →
      h.arena.size b = alignUp size ∨ alignUp size + 16 ≤ h.arena.size b
  | _ => True

/-- Besides, the sizes of a request do not wrap, and a block that is put on a list has a null link.
-/
def Cautious (h : Uheap) (call : Call) : Prop :=
  h.Serves call ∧
    match call with
    | .malloc size _ => alignUp size + 40 < 2 ^ 32
    | .free addr => h.arena.Unlinked (sub32 addr 16)
    | .store _ _ => True

/-- Besides, the size of a request is not rounded up beyond the address space. -/
def Careful (h : Uheap) (call : Call) : Prop :=
  h.Cautious call ∧ ∀ size a, call = .malloc size a → size ≤ 2 ^ 32 - 48

/-! ## Runs -/

/-- The memory stands for the layout, and the live pointers are those to the allocated blocks. -/
structure Owns (h : Uheap) (L : Arena.Layout) : Prop where
  inv : h.arena.Inv L
  backed : h.arena.Backed L
  live : ∀ q, q ∈ h.pointers ↔ ∃ b, L.Allocated b ∧ q = b + 16
  nodup : h.pointers.Nodup

/-- The block of a live pointer. -/
lemma Owns.block {q : ℕ} (ho : h.Owns L) (hq : q ∈ h.pointers) :
    ∃ b, L.Allocated b ∧ q = b + 16 ∧ sub32 q 16 = b := by
  obtain ⟨b, hb, rfl⟩ := (ho.live q).mp hq
  have hlt := ho.inv.allocated_lt hb
  exact ⟨b, hb, rfl, sub32_payload (by omega)⟩

/-- The payloads of the pointers that were live before have not changed, and a new one has the size
of its request, rounded up. -/
def Kept (h : Uheap) (call : Call) (h' : Uheap) : Prop :=
  ∀ e ∈ h'.live, (e ∈ h.live ∧ h'.payloadSize e.1 = h.payloadSize e.1) ∨
    ∃ a, call = .malloc e.2 a ∧ h'.payloadSize e.1 = alignUp e.2

/-- The heap after a call of `malloc`. -/
lemma Owns.malloc {size a fuel q : ℕ} {m' : Arena} (ho : h.Owns L) (hok : h.arena.Heeds size)
    (hen : h.Enabled (.malloc size a)) (hr : h.arena.malloc fuel size a = some (q, m')) :
    ∃ L', Owns ⟨m', (q, size) :: h.live⟩ L' ∧
      Kept h (.malloc size a) ⟨m', (q, size) :: h.live⟩ := by
  obtain ⟨L', b, hs, rfl⟩ := ho.inv.malloc ho.backed hok hen.2 hr
  have hnew : L'.Allocated b := (hs.allocated b).mpr (.inl rfl)
  have hlt := hs.inv.allocated_lt hnew
  have hout : b + 16 ∉ h.pointers := by
    intro hmem
    obtain ⟨c, hc, hcb⟩ := (ho.live _).mp hmem
    exact hs.new ((by omega : c = b) ▸ hc)
  refine ⟨L', ⟨hs.inv, hs.backed ho.backed, fun q => ?_, List.nodup_cons.mpr ⟨hout, ho.nodup⟩⟩,
    fun e he => ?_⟩
  · change q ∈ (b + 16) :: h.pointers ↔ _
    rw [List.mem_cons, ho.live q]
    constructor
    · rintro (rfl | ⟨c, hc, rfl⟩)
      · exact ⟨b, hnew, rfl⟩
      · exact ⟨c, (hs.allocated c).mpr (.inr hc), rfl⟩
    · rintro ⟨c, hc, rfl⟩
      rcases (hs.allocated c).mp hc with rfl | hc
      · exact .inl rfl
      · exact .inr ⟨c, hc, rfl⟩
  · rcases List.mem_cons.mp he with rfl | he
    · refine .inr ⟨a, rfl, ?_⟩
      rw [payloadSize, sub32_payload (by omega)]
      exact hs.size
    · obtain ⟨c, hc, -, hsub⟩ := ho.block (List.mem_map_of_mem he)
      refine .inl ⟨he, ?_⟩
      rw [payloadSize, payloadSize, hsub]
      exact hs.sizes c hc

/-- The heap after a call of `free`. -/
lemma Owns.free {addr fuel : ℕ} {m' : Arena} (ho : h.Owns L) (hok : h.Cautious (.free addr))
    (hen : h.Enabled (.free addr)) (hr : h.arena.free fuel addr = some m') :
    ∃ L', Owns ⟨m', h.live.filter fun e => e.1 ≠ addr⟩ L' ∧
      Kept h (.free addr) ⟨m', h.live.filter fun e => e.1 ≠ addr⟩ := by
  obtain ⟨b, hb, rfl, hsub⟩ := ho.block hen
  have hunlinked : h.arena.Unlinked (sub32 (b + 16) 16) := hok.2
  rw [hsub] at hunlinked
  obtain ⟨L', hf⟩ := ho.inv.free hb hunlinked hr
  have hmem : ∀ q, q ∈ (⟨m', h.live.filter fun e => e.1 ≠ b + 16⟩ : Uheap).pointers ↔
      q ∈ h.pointers ∧ q ≠ b + 16 := by
    intro q
    simp only [pointers, List.mem_map, List.mem_filter]
    constructor
    · rintro ⟨e, ⟨he, hne⟩, rfl⟩
      exact ⟨⟨e, he, rfl⟩, by simpa using hne⟩
    · rintro ⟨⟨e, he, rfl⟩, hne⟩
      exact ⟨e, ⟨he, by simpa using hne⟩, rfl⟩
  refine ⟨L', ⟨hf.inv, hf.backed ho.backed, fun q => ?_, ?_⟩, fun e he => ?_⟩
  · rw [hmem, ho.live q]
    constructor
    · rintro ⟨⟨c, hc, rfl⟩, hne⟩
      exact ⟨c, (hf.allocated c).mpr ⟨hc, fun heq => hne (by rw [heq])⟩, rfl⟩
    · rintro ⟨c, hc, rfl⟩
      obtain ⟨hc, hne⟩ := (hf.allocated c).mp hc
      exact ⟨⟨c, hc, rfl⟩, by omega⟩
  · exact ho.nodup.sublist (List.filter_sublist.map _)
  · obtain ⟨he, hne⟩ := List.mem_filter.mp he
    obtain ⟨c, hc, hq, hsub'⟩ := ho.block (List.mem_map_of_mem he)
    refine .inl ⟨he, ?_⟩
    have hcb : c ≠ b := by
      rintro rfl
      exact absurd hq (by simpa using hne)
    rw [payloadSize, payloadSize, hsub']
    exact hf.sizes c ((hf.allocated c).mpr ⟨hc, hcb⟩)

/-- The heap after a store of the program. -/
lemma Owns.store {x : ℕ} (ho : h.Owns L) (hen : h.InPayload x) (v : ℕ) (call : Call) :
    Owns ⟨h.arena.store x v, h.live⟩ L ∧ Kept h call ⟨h.arena.store x v, h.live⟩ := by
  obtain ⟨-, q, hq, hlo, hhi⟩ := hen
  obtain ⟨b, hb, rfl, hsub⟩ := ho.block hq
  rw [hsub] at hhi
  obtain ⟨p, hp, hmem, hout⟩ := hb
  have hs :=
    (ho.inv.stage (A := fun c => c ∈ L.blocks p) hp fun c hc => hc).payload hmem hlo (by omega) v
  have hset : L.set p (L.blocks p) (L.frees p) = L := by
    simp [Arena.Layout.set]
  refine ⟨⟨hset ▸ ho.inv.finish hp hs, hset ▸ ho.inv.backed_inside hp hs.inside ho.backed, ho.live,
    ho.nodup⟩, fun e he => .inl ⟨he, ?_⟩⟩
  obtain ⟨c, hc, -, hsub'⟩ := ho.block (List.mem_map_of_mem he)
  rw [payloadSize, payloadSize, hsub']
  exact ho.inv.size_of_stage hp hs hc fun hmem => hmem

/-- **One call.** -/
theorem Owns.step (ho : h.Owns L) (hok : h.Cautious call) (hs : h.Step call h') :
    ∃ L', h'.Owns L' ∧ Kept h call h' := by
  obtain ⟨hen, fuel, hexec⟩ := hs
  cases call with
  | malloc size a =>
    obtain ⟨⟨q, m'⟩, hr, rfl⟩ := Option.map_eq_some_iff.mp hexec
    exact ho.malloc ⟨hok.2, hok.1⟩ hen hr
  | free addr =>
    obtain ⟨m', hr, rfl⟩ := Option.map_eq_some_iff.mp hexec
    exact ho.free hok hen hr
  | store x v =>
    obtain rfl := Option.some.inj hexec
    exact ⟨L, ho.store hen _ _⟩

/-- Before the first call. -/
lemma owns_of_init (hi : h.Init) : h.Owns ⟨[], fun _ => [], fun _ => []⟩ := by
  have hempty : ∀ p, p ∉ ([] : List ℕ) := fun p => List.not_mem_nil
  refine ⟨⟨⟨List.nodup_nil, hempty 0, 0, rfl, hi.1⟩, fun p hp => absurd hp (hempty p),
    fun p hp => absurd hp (hempty p), fun p hp => absurd hp (hempty p)⟩,
    fun p hp => absurd hp (hempty p), fun q => ?_, ?_⟩
  · rw [pointers, hi.2]
    refine iff_of_false (by simp) ?_
    rintro ⟨b, ⟨p, hp, -⟩, -⟩
    exact hempty p hp
  · rw [pointers, hi.2]
    exact List.nodup_nil

/-- **Runs of cautious calls.** -/
theorem exists_owns (hr : Transition.Reach Init Step Cautious h) : ∃ L, h.Owns L := by
  refine hr.invariant (I := fun h => ∃ L, h.Owns L) (fun _ hi => ⟨_, owns_of_init hi⟩) ?_
  rintro h call h' ⟨L, ho⟩ hok hs
  obtain ⟨L', ho', -⟩ := ho.step hok hs
  exact ⟨L', ho'⟩

/-! ## Small heaps -/

/-- A search that finds a large enough block at the head of the first list. -/
lemma site_eq_block {m : Arena} {fuel size p b : ℕ} {site : Site} (hp : m.memPool = p)
    (hpos : p ≠ 0) (hb : m.freeBlocks p = b) (hne : b ≠ 0) (hle : alignUp size ≤ m.size b)
    (hsite : m.site fuel size = some site) : site = .block 0 b := by
  cases fuel with
  | zero => simp [Arena.site, findSite] at hsite
  | succ n =>
    simp only [Arena.site, findSite, hp, if_neg hpos, findBlock, walk, hb, hle, or_true,
      decide_true, ↓reduceIte,
      ne_eq, hne, not_false_eq_true, Option.some.injEq] at hsite
    exact hsite.symm

/-- A search that finds an empty list and room in the first page block. -/
lemma site_eq_bump {m : Arena} {fuel size p : ℕ} {site : Site} (hp : m.memPool = p) (hpos : p ≠ 0)
    (hb : m.freeBlocks p = 0) (hroom : targetSize size ≤ m.freeSize p)
    (hsite : m.site fuel size = some site) : site = .bump p := by
  cases fuel with
  | zero => simp [Arena.site, findSite] at hsite
  | succ n =>
    simp only [Arena.site, findSite, hp, if_neg hpos, findBlock, walk, hb, true_or,
      decide_true, ↓reduceIte,
      ne_eq, not_true_eq_false, hroom, Option.some.injEq] at hsite
    exact hsite.symm

/-- A search without a page block. -/
lemma site_eq_fresh {m : Arena} {fuel size : ℕ} {site : Site} (hp : m.memPool = 0)
    (hsite : m.site fuel size = some site) : site = .fresh 0 := by
  cases fuel with
  | zero => simp [Arena.site, findSite] at hsite
  | succ n =>
    simp only [Arena.site, findSite, hp, ↓reduceIte, Option.some.injEq] at hsite
    exact hsite.symm

/-- The heap after a call that returns within eight rounds of each loop. -/
def after (h : Uheap) (call : Call) : Uheap := (h.exec 8 call).getD h

/-- A call that returns is a step. -/
lemma step_after (hen : h.Enabled call) (hsome : (h.exec 8 call).isSome = true) :
    h.Step call (h.after call) := by
  obtain ⟨h', hh'⟩ := Option.isSome_iff_exists.mp hsome
  exact ⟨hen, 8, by rw [after, hh', Option.getD_some]⟩

/-- The next request is served from the head of the first list, or from the unused part of the first
page block, its list being empty. -/
def Ready (h : Uheap) (size : ℕ) : Prop :=
  h.arena.memPool = 4096 ∧
    (h.arena.freeBlocks 4096 ≠ 0 ∧ alignUp size ≤ h.arena.size (h.arena.freeBlocks 4096) ∨
      h.arena.freeBlocks 4096 = 0 ∧ targetSize size ≤ h.arena.freeSize 4096)

instance (h : Uheap) (size : ℕ) : Decidable (h.Ready size) := inferInstanceAs (Decidable (_ ∧ _))

/-- What the search finds then. -/
lemma Ready.site {size fuel : ℕ} {site : Site} (hr : h.Ready size)
    (hsite : h.arena.site fuel size = some site) :
    site = .block 0 (h.arena.freeBlocks 4096) ∨ site = .bump 4096 := by
  obtain ⟨hp, ⟨hne, hle⟩ | ⟨hb, hroom⟩⟩ := hr
  · exact .inl (site_eq_block hp (by omega) rfl hne hle hsite)
  · exact .inr (site_eq_bump hp (by omega) hb hroom hsite)

/-- No page is mapped for the request. -/
lemma Ready.enabled {size : ℕ} (hr : h.Ready size) (hsize : size < 2 ^ 32) (a : ℕ) :
    h.Enabled (.malloc size a) := by
  refine ⟨hsize, ?_⟩
  rintro ⟨fuel, prev, hsite⟩
  rcases hr.site hsite with heq | heq <;> cases heq

/-- The head of the list fits the request. -/
lemma Ready.serves {size : ℕ} (hr : h.Ready size)
    (hfit : h.arena.size (h.arena.freeBlocks 4096) = alignUp size ∨ h.arena.freeBlocks 4096 = 0)
    (a : ℕ) :
    h.Serves (.malloc size a) := by
  intro fuel u b hsite
  rcases hr.site hsite with heq | heq
  · obtain ⟨rfl, rfl⟩ := Site.block.inj heq
    refine hfit.elim .inl fun hempty => ?_
    obtain ⟨hp, ⟨hne, -⟩ | ⟨hb, hroom⟩⟩ := hr
    · exact absurd hempty hne
    · cases site_eq_bump hp (by omega) hb hroom hsite
  · cases heq

/-- A program without a heap. -/
def blank : Uheap := ⟨⟨fun _ => 0, 0, fun _ => false⟩, []⟩

/-- The first request, for which `mmap` returns `4096`. -/
lemma blank_enabled {size : ℕ} (hsize : alignUp size ≤ 4000) (hlt : size < 2 ^ 32) :
    blank.Enabled (.malloc size 4096) := by
  have halloc : allocSize size = alignUp size + 40 := by
    rw [allocSize, targetSize]
    omega
  refine ⟨hlt, fun _ => ⟨by omega, by omega, ?_, fun _ _ => rfl⟩⟩
  rw [halloc, regionSize]
  omega

/-- The first request does not look for a block. -/
lemma blank_serves (size a : ℕ) : blank.Serves (.malloc size a) := by
  intro fuel u b hsite
  cases site_eq_fresh rfl hsite

/-! ## Lists -/

/-- The lists of a heap that stands for a layout. -/
lemma Owns.listsSound (ho : h.Owns L) : h.ListsSound := by
  intro p hp
  rw [ho.inv.isPage_iff] at hp
  have hpage := ho.inv.page p hp
  have hflags := ho.inv.flags p hp
  refine ⟨⟨L.frees p, hpage.list, hpage.nodup, fun b => ?_⟩, fun b hb => ?_⟩
  · rw [ho.inv.isBlock_iff hp]
    constructor
    · intro hb
      exact ⟨hpage.sub b hb, (hflags b (hpage.sub b hb)).mpr hb⟩
    · rintro ⟨hb, hflag⟩
      exact (hflags b hb).mp hflag
  · rw [ho.inv.isBlock_iff hp] at hb
    rw [hflags b hb, ho.live]
    constructor
    · rintro hfree ⟨c, hc, heq⟩
      obtain rfl : b = c := by omega
      exact ho.inv.notMem_frees hp hc hb hfree
    · intro hout
      by_contra hfree
      exact hout ⟨b, ⟨p, hp, hb, hfree⟩, rfl⟩

/-- **The lists stay lists.** In every run in which the sizes of requests do not wrap, a request
that is served from a free block fits it or leaves the room of a header, and no block is put on a
list with a link that is not null, the list of every page block is finite, has no block twice and
has exactly the blocks that are not allocated; and the next call of `malloc` or `free` returns.

**Proof sketch.** Induction on the run: the memory stands for a layout of page blocks and blocks, in
which the list of a page block has its blocks that are not allocated, each once. The loops of the
two functions go along these lists and along that of the page blocks, so they end. -/
theorem lists_sound (hr : Transition.Reach Init Step Cautious h) :
    h.ListsSound ∧
      (∀ size a, h.arena.Heeds size → ∃ fuel r, h.arena.malloc fuel size a = some r) ∧
      ∀ addr ∈ h.pointers, ∃ fuel m', h.arena.free fuel addr = some m' := by
  obtain ⟨L, ho⟩ := exists_owns hr
  refine ⟨ho.listsSound, fun size a hok => ho.inv.malloc_isSome hok a, fun addr haddr => ?_⟩
  obtain ⟨b, hb, rfl, -⟩ := ho.block haddr
  exact ho.inv.free_isSome hb

/-- A program that has asked for two blocks and given the first one back. -/
def oneFreed : Uheap := ((blank.after (.malloc 24 4096)).after (.malloc 8 8192)).after (.free 4136)

/-- Its calls are careful. -/
lemma reach_oneFreed : Transition.Reach Init Step Careful oneFreed := by
  have hready : (blank.after (.malloc 24 4096)).Ready 8 := by decide +kernel
  refine .next (a := .free 4136) (.next (a := .malloc 8 8192) (.next (a := .malloc 24 4096)
    (.start ⟨rfl, rfl⟩) ?_ (step_after ?_ (by decide +kernel))) ?_
      (step_after ?_ (by decide +kernel))) ?_
    (step_after ?_ (by decide +kernel))
  · refine ⟨⟨blank_serves _ _, by decide +kernel⟩, fun size a hcall => ?_⟩
    cases hcall
    omega
  · exact blank_enabled (by decide +kernel) (by omega)
  · refine ⟨⟨hready.serves (.inr (by decide +kernel)) _, by decide +kernel⟩, fun size a hcall => ?_⟩
    cases hcall
    omega
  · exact hready.enabled (by omega) _
  · exact ⟨⟨trivial, fun _ _ _ _ => by decide +kernel⟩, fun size a hcall => by cases hcall⟩
  · change 4136 ∈ (((blank.after (.malloc 24 4096)).after (.malloc 8 8192)).pointers)
    decide +kernel

/-- The freed block is on its list, and the next calls return. -/
theorem lists_sound_oneFreed : oneFreed.arena.freeBlocks 4096 = 4120 ∧ oneFreed.pointers = [4176] ∧
    oneFreed.ListsSound ∧
      (∀ size a, oneFreed.arena.Heeds size → ∃ fuel r, oneFreed.arena.malloc fuel size a = some r) ∧
      ∀ addr ∈ oneFreed.pointers, ∃ fuel m', oneFreed.arena.free fuel addr = some m' :=
  ⟨by decide +kernel, by decide +kernel,
  lists_sound (reach_oneFreed.of_guard_imp fun _ _ hok => hok.1)⟩

/-- Four blocks of `8` bytes. -/
def fourBlocks : Uheap :=
  (((blank.after (.malloc 8 4096)).after (.malloc 8 8192)).after (.malloc 8 8192)).after
    (.malloc 8 8192)

/-- The first and the third are given back, in this order, and the first is asked for again: it
fits, and its link still leads to the third. -/
def retaken : Uheap := ((fourBlocks.after (.free 4136)).after (.free 4184)).after (.malloc 8 8192)

/-- Every request is served from a block that it fits. -/
lemma reach_retaken : Transition.Reach Init Step Serves retaken := by
  have h₁ : (blank.after (.malloc 8 4096)).Ready 8 ∧
      (blank.after (.malloc 8 4096)).arena.freeBlocks 4096 = 0 := by decide +kernel
  have h₂ : ((blank.after (.malloc 8 4096)).after (.malloc 8 8192)).Ready 8 ∧
      ((blank.after (.malloc 8 4096)).after (.malloc 8 8192)).arena.freeBlocks 4096 = 0 := by
      decide +kernel
  have h₃ :
      (((blank.after (.malloc 8 4096)).after (.malloc 8 8192)).after (.malloc 8 8192)).Ready 8 ∧
      (((blank.after (.malloc 8 4096)).after (.malloc 8 8192)).after
        (.malloc 8 8192)).arena.freeBlocks 4096
        = 0 := by decide +kernel
  have hfour : Transition.Reach Init Step Serves fourBlocks := by
    refine .next (a := .malloc 8 8192) (.next (a := .malloc 8 8192) (.next (a := .malloc 8 8192)
      (.next (a := .malloc 8 4096) (.start ⟨rfl, rfl⟩) (blank_serves _ _)
      (step_after (blank_enabled (by decide +kernel) (by omega)) (by decide +kernel)))
      (h₁.1.serves (.inr h₁.2) _) (step_after (h₁.1.enabled (by omega) _) (by decide +kernel)))
      (h₂.1.serves (.inr h₂.2) _) (step_after (h₂.1.enabled (by omega) _) (by decide +kernel)))
      (h₃.1.serves (.inr h₃.2) _) (step_after (h₃.1.enabled (by omega) _) (by decide +kernel))
  have hlive : 4136 ∈ fourBlocks.pointers ∧ 4184 ∈ (fourBlocks.after (.free 4136)).pointers := by
    decide +kernel
  have hready : ((fourBlocks.after (.free 4136)).after (.free 4184)).Ready 8 := by decide +kernel
  exact .next (a := .malloc 8 8192) (.next (a := .free 4184) (.next (a := .free 4136) hfour trivial
    (step_after hlive.1 (by decide +kernel))) trivial (step_after hlive.2 (by decide +kernel)))
    (hready.serves (.inl (by decide +kernel)) _)
    (step_after (hready.enabled (by omega) _) (by decide +kernel))

/-- Along a cycle the loop of `is_page_free` does not end. -/
lemma totalFreeSize_cycle {m : Arena} {S : ℕ → Prop} (hS : ∀ b, S b → S (m.nextMemBlock b))
    (hne : ∀ b, S b → b ≠ 0) (n : ℕ) : ∀ t b, S b → m.totalFreeSize n t b = none := by
  induction n with
  | zero => exact fun _ _ _ => rfl
  | succ n ih =>
    intro t b hb
    rw [totalFreeSize, if_neg (hne b hb)]
    exact ih _ _ (hS b hb)

/-- **A list that does not end.** Every request of the run is served from a block that it fits.
After the first block is given back a second time, it and the third one are linked to each other,
and no call of `free` for a block of the page block returns. -/
theorem lists_cyclic : ∃ h, Transition.Reach Init Step Serves h ∧ ¬h.ListsSound ∧
    4160 ∈ h.pointers ∧ ∀ fuel, h.arena.free fuel 4160 = none := by
  have hlive : 4136 ∈ retaken.pointers := by decide +kernel
  refine ⟨retaken.after (.free 4136), .next (a := .free 4136) reach_retaken trivial
    (step_after hlive (by decide +kernel)), ?_, by decide +kernel, fun fuel => ?_⟩
  · intro hsound
    have hpage : (retaken.after (.free 4136)).arena.IsPage 4096 :=
      ⟨[], lseg_nil.mpr (by decide +kernel), List.not_mem_nil, by omega⟩
    obtain ⟨⟨fs, hseg, -⟩, -⟩ := hsound 4096 hpage
    have hlinks : (retaken.after (.free 4136)).arena.freeBlocks 4096 = 4168 ∧
        (retaken.after (.free 4136)).arena.nextMemBlock 4168 = 4120 ∧
        (retaken.after (.free 4136)).arena.nextMemBlock 4120 = 4168 := by decide +kernel
    have hend := hseg.mem_of_closed (S := fun b => b = 4120 ∨ b = 4168) ?_ (.inr hlinks.1)
    · omega
    · rintro b (rfl | rfl)
      · exact .inr hlinks.2.2
      · exact .inl hlinks.2.1
  · obtain ⟨m, hm⟩ : ∃ m, m = (retaken.after (.free 4136)).arena.release 4160 := ⟨_, rfl⟩
    have hlinks : m.freeBlocks (m.parentPage 4144) = 4168 ∧ m.nextMemBlock 4168 = 4120 ∧
        m.nextMemBlock 4120 = 4168 := by
      rw [hm]
      decide +kernel
    have hnone : m.isPageFree fuel 4144 = none := by
      rw [isPageFree, hlinks.1,
        totalFreeSize_cycle (S := fun b => b = 4120 ∨ b = 4168) ?_ ?_ fuel _ _
        (.inr rfl), Option.map_none]
      · rintro b (rfl | rfl)
        · exact .inr hlinks.2.2
        · exact .inl hlinks.2.1
      · rintro b (rfl | rfl) <;> omega
    have hsub : sub32 4160 16 = 4144 := by decide
    rw [Arena.free, ← hm, hsub, fate, hnone]
    rfl

/-! ## Payloads -/

/-- Rounding up, where it does not wrap. -/
lemma le_alignUp {size : ℕ} (hsize : size ≤ 2 ^ 32 - 48) : size ≤ alignUp size := by
  rw [alignUp, Bits.and_mask_eight (Nat.mod_lt _ (by omega))]
  omega

/-- **Runs of careful calls.** The payloads are as long as was asked for. -/
theorem exists_owns_of_careful (hr : Transition.Reach Init Step Careful h) :
    ∃ L, h.Owns L ∧ ∀ e ∈ h.live, e.2 ≤ h.payloadSize e.1 := by
  refine hr.invariant (I := fun h => ∃ L, h.Owns L ∧ ∀ e ∈ h.live, e.2 ≤ h.payloadSize e.1)
    (fun h hi => ⟨_, owns_of_init hi, fun e he => ?_⟩) ?_
  · rw [hi.2] at he
    exact absurd he List.not_mem_nil
  · rintro h call h' ⟨L, ho, hsize⟩ hok hs
    obtain ⟨L', ho', hkept⟩ := ho.step hok.1 hs
    refine ⟨L', ho', fun e he => ?_⟩
    rcases hkept e he with ⟨hold, heq⟩ | ⟨a, hcall, heq⟩
    · rw [heq]
      exact hsize e hold
    · rw [heq]
      exact le_alignUp (hok.2 e.2 a hcall)

/-- The page block and the block of a live pointer, and its payload. -/
lemma Owns.payload {q : ℕ} (ho : h.Owns L) (hq : q ∈ h.pointers) :
    ∃ p ∈ L.pages, ∃ b ∈ L.blocks p, q = b + 16 ∧ h.payloadSize q = h.arena.size b := by
  obtain ⟨b, ⟨p, hp, hb, -⟩, rfl, hsub⟩ := ho.block hq
  exact ⟨p, hp, b, hb, rfl, by rw [payloadSize, hsub]⟩

/-- A header of a block is one of the layout. -/
lemma Owns.header {b : ℕ} (ho : h.Owns L) (hb : h.IsHeader b) : ∃ p ∈ L.pages, b ∈ L.blocks p := by
  rcases hb with hlive | ⟨p, hp, hlisted⟩
  · obtain ⟨p, hp, c, hc, heq, -⟩ := ho.payload hlive
    obtain rfl : b = c := by omega
    exact ⟨p, hp, hc⟩
  · rw [ho.inv.isPage_iff] at hp
    rw [ho.inv.isListed_iff hp] at hlisted
    exact ⟨p, hp, (ho.inv.page p hp).sub b hlisted⟩

/-- The memory of live blocks in a heap that stands for a layout. -/
lemma Owns.sound (ho : h.Owns L) (hsize : ∀ e ∈ h.live, e.2 ≤ h.payloadSize e.1) : h.Sound := by
  have hptr : ∀ e ∈ h.live, e.1 ∈ h.pointers := fun e he => List.mem_map_of_mem he
  refine ⟨hsize, fun e he => ?_, ?_, fun e he b hb => ?_, fun e he p hp => ?_, fun p b hp hb => ?_⟩
  · obtain ⟨p, hp, b, hb, heq, hlen⟩ := ho.payload (hptr e he)
    have hbounds := (ho.inv.page p hp).bounds hb
    refine ⟨p, ho.inv.isPage_iff.mpr hp, by omega, ?_⟩
    rw [hlen, heq]
    omega
  · refine List.Pairwise.imp_of_mem ?_ (List.pairwise_map.mp ho.nodup)
    intro e f he hf hne
    obtain ⟨p, hp, b, hb, heq, hlen⟩ := ho.payload (hptr e he)
    obtain ⟨q, hq, c, hc, heq', hlen'⟩ := ho.payload (hptr f hf)
    have hapart := ho.inv.blocks_apart hp hq hb hc (by omega)
    refine ⟨hne, ?_⟩
    rw [Apart, hlen, hlen', heq, heq']
    omega
  · obtain ⟨p, hp, c, hc, heq, hlen⟩ := ho.payload (hptr e he)
    obtain ⟨q, hq, hbq⟩ := ho.header hb
    rw [Apart, hlen, heq]
    by_cases hcb : c = b
    · omega
    · have hapart := ho.inv.blocks_apart hp hq hc hbq hcb
      omega
  · obtain ⟨q, hq, b, hb, heq, hlen⟩ := ho.payload (hptr e he)
    have hapart := ho.inv.header_apart hq (ho.inv.isPage_iff.mp hp) hb
    rw [Apart, hlen, heq]
    omega
  · rw [ho.inv.isPage_iff] at hp
    rw [ho.inv.isListed_iff hp] at hb
    have hbounds := (ho.inv.page p hp).bounds ((ho.inv.page p hp).sub b hb)
    omega

/-- **The memory of live blocks is their own.** In every run in which no request is larger than the
address space leaves room for, a request that is served from a free block fits it or leaves the room
of a header, and no block is put on a list with a link that is not null, every pointer addresses as
many bytes as were asked for inside of its page block, payloads overlap neither each other nor a
header, and no size of a free block wraps.

**Proof sketch.** In the layout that the memory stands for, the allocated blocks are those of the
live pointers, and every size is below the address space. The blocks of a page block tile it, so
headers and payloads are apart. -/
theorem heap_sound (hr : Transition.Reach Init Step Careful h) : h.Sound := by
  obtain ⟨L, ho, hsize⟩ := exists_owns_of_careful hr
  exact ho.sound hsize

/-- The program that has given a block back: one pointer is live, and its memory is its own. -/
theorem heap_sound_oneFreed : oneFreed.live = [(4176, 8)] ∧ oneFreed.Sound :=
  ⟨by decide +kernel, heap_sound reach_oneFreed⟩

/-- **A size that wraps.** A block of `24` bytes is free, and `16` bytes are asked for. What is left
has no room for a header: its size becomes `2 ^ 32 - 8`, and its header lies over that of the next
block, the size of which is lost. -/
theorem size_underflow : ∃ h, Transition.Reach Init Step (fun _ _ => True) h ∧
    h.arena.IsPage 4096 ∧ h.arena.IsListed 4096 4152 ∧ h.arena.size 4152 = 2 ^ 32 - 8 ∧
    (4176, 8) ∈ h.live ∧ h.payloadSize 4176 = 0 ∧ ¬h.Sound := by
  have hready : oneFreed.Ready 16 := by decide +kernel
  have hpage : (oneFreed.after (.malloc 16 8192)).arena.IsPage 4096 :=
    ⟨[], lseg_nil.mpr (by decide +kernel), List.not_mem_nil, by omega⟩
  have hlisted : (oneFreed.after (.malloc 16 8192)).arena.IsListed 4096 4152 :=
    ⟨[], lseg_nil.mpr (by decide +kernel), List.not_mem_nil, by omega⟩
  have hlive : (4176, 8) ∈ (oneFreed.after (.malloc 16 8192)).live := by decide +kernel
  have hsize : (oneFreed.after (.malloc 16 8192)).payloadSize 4176 = 0 := by decide +kernel
  refine ⟨oneFreed.after (.malloc 16 8192), .next (a := .malloc 16 8192)
    (reach_oneFreed.of_guard_imp fun _ _ _ => trivial) trivial
    (step_after (hready.enabled (by omega) _) (by decide +kernel)), hpage, hlisted,
    by decide +kernel, hlive, hsize, fun hsound => ?_⟩
  have hle := hsound.size_le _ hlive
  rw [hsize] at hle
  omega

end Uheap

end AlphaOS
