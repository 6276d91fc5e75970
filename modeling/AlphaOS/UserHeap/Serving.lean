import AlphaOS.UserHeap.Stages

set_option relaxedAutoImplicit false
set_option autoImplicit false

/-!
# Serving a request

The two loops of `malloc` end in a memory that stands for a layout, at a block of a list that is
large enough, at a page block with room, or after the last page block. From each of the three the
rest of `malloc` leads to a memory that stands for a layout with one more allocated block.

## Main definitions

* `AlphaOS.Arena.Site.Fits` — what the loops have found.
* `AlphaOS.Arena.Served` — the layout after the call has one more allocated block.
* `AlphaOS.Arena.Heeds` — the sizes do not wrap, and what is left of a block that is split holds a
  header.

## Main results

* `AlphaOS.Arena.Inv.site_fits`, `AlphaOS.Arena.Inv.site_isSome` — the search.
* `AlphaOS.Arena.Inv.malloc` — a call serves its request.
* `AlphaOS.Arena.Inv.malloc_isSome` — a call returns.
-/

namespace AlphaOS

namespace Arena

open Tiling Linked

variable {m m' : Arena} {L : Layout} {a b c e p q x n t size fuel prev : ℕ} {ps : List ℕ}

/-! ## The search -/

/-- What the loops of `malloc` have found among the page blocks `ps`, the first of which comes after
`prev`. -/
def Site.Fits (m : Arena) (L : Layout) (size prev : ℕ) (ps : List ℕ) : Site → Prop
  | .block u b => alignUp size ≤ m.size b ∧
      ∃ p ∈ ps, ∃ fs₁ fs₂ l, L.frees p = fs₁ ++ b :: fs₂ ∧ 0 :: fs₁ = l ++ [u]
  | .bump p => p ∈ ps ∧ targetSize size ≤ m.freeSize p
  | .fresh q => ∃ l, prev :: ps = l ++ [q]

/-- The loop over the free blocks of a page block finds one that is large enough, or none. -/
lemma PageInv.findBlock_eq {aligned u : ℕ} {bs fs : List ℕ} (h : PageInv m p bs fs)
    (hr : m.findBlock fuel aligned p = some (u, b)) :
    b = 0 ∨ b ≠ 0 ∧ aligned ≤ m.size b ∧ ∃ fs₁ fs₂ l, fs = fs₁ ++ b :: fs₂ ∧
      0 :: fs₁ = l ++ [u] := by
  obtain ⟨hstop, l₁, l₂, k, hl, hk⟩ :=
    walk_trail (p := fun b => decide (b = 0 ∨ aligned ≤ m.size b)) h.list (by simp) hr
  by_cases hb : b = 0
  · exact .inl hb
  refine .inr ⟨hb, ?_, ?_⟩
  · simpa [hb] using hstop
  · -- the block is not the null pointer that ends the list
    rcases List.eq_nil_or_concat l₂ with rfl | ⟨l₂, z, rfl⟩
    · have hlast := List.append_inj_right' hl rfl
      exact absurd (by simpa using hlast.symm) hb
    · rw [List.concat_eq_append, ← List.cons_append, ← List.append_assoc] at hl
      exact ⟨l₁, l₂, k, List.append_inj_left' hl rfl, hk⟩

/-- The loop over the free blocks ends. -/
lemma PageInv.findBlock_isSome {bs fs : List ℕ} (h : PageInv m p bs fs) (hfuel : fs.length < fuel)
    (aligned : ℕ) : ∃ r, m.findBlock fuel aligned p = some r := by
  obtain ⟨r, hr⟩ :=
    walk_isSome (p := fun b => decide (b = 0 ∨ aligned ≤ m.size b)) h.list (by simp) hfuel
  have hstep : ∀ q : ℕ × ℕ,
      ((fun q : ℕ × ℕ => (q.2, m.nextMemBlock q.2)) q).2 = m.nextMemBlock q.2 :=
    fun _ => rfl
  have hproj := walk_proj (p := fun b => decide (b = 0 ∨ aligned ≤ m.size b)) hstep fuel
    (0, m.freeBlocks p)
  rw [hr] at hproj
  obtain ⟨s, hs, -⟩ := Option.map_eq_some_iff.mp hproj
  exact ⟨s, hs⟩

/-- The loop over the page blocks finds a block, room, or the end of the list. -/
lemma findSite_fits {site : Site} (hpage : ∀ p ∈ ps, PageInv m p (L.blocks p) (L.frees p))
    (hseg : Lseg m.nextPageBlock x ps 0) (hsite : m.findSite fuel size n prev x = some site) :
    site.Fits m L size prev ps := by
  induction ps generalizing n prev x with
  | nil =>
    obtain rfl : x = 0 := hseg
    cases n with
    | zero => simp [findSite] at hsite
    | succ n =>
      obtain rfl : Site.fresh prev = site := by simpa [findSite] using hsite
      exact ⟨[], rfl⟩
  | cons p ps ih =>
    obtain ⟨rfl, hseg⟩ := hseg
    have hhere := hpage x List.mem_cons_self
    have hpos := hhere.pos
    cases n with
    | zero => simp [findSite] at hsite
    | succ n =>
      rw [findSite, if_neg (by omega)] at hsite
      split at hsite
      · cases hsite
      next u b hfind =>
        split_ifs at hsite with hb hroom
        · -- a block of this page block
          obtain rfl : Site.block u b = site := Option.some.inj hsite
          obtain ⟨-, hle, hlist⟩ := (hhere.findBlock_eq hfind).resolve_left hb
          exact ⟨hle, x, List.mem_cons_self, hlist⟩
        · -- the unused part of this page block
          obtain rfl : Site.bump x = site := Option.some.inj hsite
          exact ⟨List.mem_cons_self, hroom⟩
        · have hrest := ih (fun p hp => hpage p (List.mem_cons_of_mem _ hp)) hseg hsite
          cases site with
          | block u b =>
            obtain ⟨hle, p, hp, hlist⟩ := hrest
            exact ⟨hle, p, List.mem_cons_of_mem _ hp, hlist⟩
          | bump p => exact ⟨List.mem_cons_of_mem _ hrest.1, hrest.2⟩
          | fresh q =>
            obtain ⟨l, hl⟩ := hrest
            exact ⟨prev :: l, by rw [hl, List.cons_append]⟩

/-- The loop over the page blocks ends. -/
lemma findSite_isSome (hpage : ∀ p ∈ ps, PageInv m p (L.blocks p) (L.frees p))
    (hfuel : ∀ p ∈ ps, (L.frees p).length < fuel) (hseg : Lseg m.nextPageBlock x ps 0)
    (hn : ps.length < n) (size prev : ℕ) : ∃ site, m.findSite fuel size n prev x = some site := by
  induction ps generalizing n prev x with
  | nil =>
    obtain rfl : x = 0 := hseg
    obtain ⟨n, rfl⟩ : ∃ k, n = k + 1 := ⟨n - 1, by omega⟩
    exact ⟨.fresh prev, by simp [findSite]⟩
  | cons p ps ih =>
    obtain ⟨rfl, hseg⟩ := hseg
    obtain ⟨n, rfl⟩ : ∃ k, n = k + 1 := ⟨n - 1, by omega⟩
    have hhere := hpage x List.mem_cons_self
    have hpos := hhere.pos
    have hlen : ps.length < n := by simpa using hn
    obtain ⟨⟨u, b⟩, hfind⟩ := hhere.findBlock_isSome (hfuel x List.mem_cons_self) (alignUp size)
    obtain ⟨site, hsite⟩ := ih (fun p hp => hpage p (List.mem_cons_of_mem _ hp))
      (fun p hp => hfuel p (List.mem_cons_of_mem _ hp)) hseg hlen x
    rw [findSite, if_neg (by omega), hfind]
    by_cases hb : b ≠ 0
    · exact ⟨_, if_pos hb⟩
    · by_cases hroom : targetSize size ≤ m.freeSize x
      · exact ⟨.bump x, by simp [hb, hroom]⟩
      · exact ⟨site, by simp [hb, hroom, hsite]⟩

/-- What the search from `mem_pool` on finds. -/
lemma Inv.site_fits {site : Site} (h : Inv m L) (hsite : m.site fuel size = some site) :
    site.Fits m L size 0 L.pages :=
  findSite_fits h.page h.pool.lseg hsite

/-- A bound on the lengths of all lists. -/
lemma exists_fuel (L : Layout) :
    ∃ N, L.pages.length < N ∧ ∀ p ∈ L.pages, (L.frees p).length < N := by
  refine ⟨L.pages.length + (L.pages.map fun p => (L.frees p).length).sum + 1, by omega,
    fun p hp => ?_⟩
  have hle := List.single_le_sum (fun _ _ => Nat.zero_le _) _
    (List.mem_map_of_mem (f := fun p => (L.frees p).length) hp)
  omega

/-- The search ends. -/
lemma Inv.site_isSome (h : Inv m L) (hlen : L.pages.length < fuel)
    (hfuel : ∀ p ∈ L.pages, (L.frees p).length < fuel) (size : ℕ) :
    ∃ site, m.site fuel size = some site :=
  findSite_isSome h.page hfuel h.pool.lseg hlen size 0

/-! ## Blocks of a page block -/

/-- The call has allocated the block at `b` and changed no other allocated block. -/
structure Served (m m' : Arena) (L L' : Layout) (size b : ℕ) : Prop where
  inv : Inv m' L'
  backed : m.Backed L → m'.Backed L'
  allocated : ∀ c, L'.Allocated c ↔ c = b ∨ L.Allocated c
  new : ¬L.Allocated b
  size : m'.size b = alignUp size
  sizes : ∀ c, L.Allocated c → m'.size c = m.size c

/-- A block of a page block that is allocated is not on its list. -/
lemma Inv.notMem_frees (h : Inv m L) (hp : p ∈ L.pages) (hc : L.Allocated c)
    (hmem : c ∈ L.blocks p) :
    c ∉ L.frees p :=
  (((Layout.allocated_iff hp).mp hc).resolve_right (h.not_elsewhere hp hmem)).2

/-- The sizes of allocated blocks after a call that has worked in one page block. -/
lemma Inv.size_of_stage {bs fs ff : List ℕ} {A : ℕ → Prop} (h : Inv m L) (hp : p ∈ L.pages)
    (hs : Stage A m m' p bs fs ff) (hc : L.Allocated c) (hA : c ∈ L.blocks p → A c) :
    m'.size c = m.size c := by
  by_cases hmem : c ∈ L.blocks p
  · exact (hs.kept c (hA hmem)).2
  · obtain ⟨q, hq, hcq, -⟩ := hc
    have hqp : p ≠ q := fun heq => hmem (heq ▸ hcq)
    have hbounds := (h.page q hq).bounds hcq
    exact hs.inside.other h hp hq hqp (by omega) (by omega)

/-- A call that has worked in one page block has served its request when the allocated blocks of the
page block are those from before and one more. -/
lemma Inv.served {bs fs : List ℕ} (h : Inv m L) (hp : p ∈ L.pages)
    (hs : Stage (fun c => c ∈ L.blocks p ∧ c ∉ L.frees p) m m' p bs fs fs)
    (hiff : ∀ c, c ∈ bs ∧ c ∉ fs ↔ c = b ∨ c ∈ L.blocks p ∧ c ∉ L.frees p)
    (hnew : ¬(b ∈ L.blocks p ∧ b ∉ L.frees p)) (hsize : m'.size b = alignUp size) :
    Served m m' L (L.set p bs fs) size b := by
  have hb : b ∈ bs := ((hiff b).mpr (.inl rfl)).1
  refine ⟨h.finish hp hs, h.backed_inside hp hs.inside, fun c => ?_, ?_, hsize, fun c hc => ?_⟩
  · rw [Layout.allocated_set hp, Layout.allocated_iff hp, hiff c, or_assoc]
  · rw [Layout.allocated_iff hp]
    rintro (hmem | ⟨q, hq, hne, hbq, -⟩)
    · exact hnew hmem
    · have hbounds := hs.page.bounds hb
      have hbounds' := (h.page q hq).bounds hbq
      have hapart := h.apart q hq p hp hne
      have hog := hs.inside.ogSize_eq
      omega
  · exact h.size_of_stage hp hs hc fun hmem => ⟨hmem, h.notMem_frees hp hc hmem⟩

/-- A block that has the size of the request is taken. -/
lemma Inv.served_exact {fs₁ fs₂ l : List ℕ} (h : Inv m L) (hp : p ∈ L.pages)
    (hfs : L.frees p = fs₁ ++ b :: fs₂) (hprev : 0 :: fs₁ = l ++ [prev])
    (hsize : m.size b = alignUp size) :
    Served m (m.exactBlock prev b) L (L.set p (L.blocks p) (fs₁ ++ fs₂)) size b := by
  have hnd := (h.page p hp).nodup
  have hb := (h.page p hp).sub b (by simp [hfs])
  rw [hfs] at hnd
  have hout : b ∉ fs₁ ++ fs₂ := (List.nodup_middle.mp hnd).notMem
  have hstage : ∀ A : ℕ → Prop, (∀ c, A c → c ∈ L.blocks p) →
      Stage A m (m.exactBlock prev b) p (L.blocks p) (fs₁ ++ fs₂) (fs₁ ++ fs₂) := by
    intro A hA
    have hs := h.stage hp hA
    rw [hfs] at hs
    exact hs.exactBlock hprev
  refine h.served hp (hstage _ fun c hc => hc.1) (fun c => ?_) ?_ ?_
  · rw [hfs]
    by_cases hcb : c = b
    · subst hcb
      simp only [hb, hout, not_false_eq_true, and_self, true_or]
    · simp only [List.mem_append, List.mem_cons, hcb, false_or]
  · rw [hfs]
    simp
  · rw [((hstage (fun c => c = b) fun c hc => hc ▸ hb).kept b rfl).2, hsize]

/-- A block that is larger than the request is split. -/
lemma Inv.served_split {fs₁ fs₂ l : List ℕ} (h : Inv m L) (hp : p ∈ L.pages)
    (hfs : L.frees p = fs₁ ++ b :: fs₂) (hprev : 0 :: fs₁ = l ++ [prev])
    (hwrap : alignUp size + 40 < 2 ^ 32) (hleft : alignUp size + 16 ≤ m.size b) :
    ∃ bs, Served m (m.splitBlock size prev b) L
      (L.set p bs (fs₁ ++ (b + (alignUp size + 16)) :: fs₂)) size b := by
  have hpage := h.page p hp
  have hb := hpage.sub b (by simp [hfs])
  obtain ⟨bs₁, bs₂, hbs⟩ := List.append_of_mem hb
  have hs := h.stage (A := fun c => c ∈ L.blocks p ∧ c ∉ L.frees p) hp fun c hc => hc.1
  rw [hfs, hbs] at hs
  obtain ⟨hs, hsize⟩ := hs.splitBlock hprev hwrap hleft rfl (by simp)
  have hnew : b + (alignUp size + 16) ∉ L.blocks p := by
    intro hmem
    have hapart := hpage.apart hb hmem (by omega)
    omega
  have hnd := hpage.nodup
  rw [hfs] at hnd
  have hout : b ∉ fs₁ ++ fs₂ := (List.nodup_middle.mp hnd).notMem
  refine ⟨_, h.served hp (by rwa [hfs, hbs]) (fun c => ?_) (by simp [hfs]) hsize⟩
  rw [hfs, hbs]
  by_cases hcb : c = b
  · subst hcb
    simp only [List.mem_append, List.mem_cons, not_or] at hout ⊢
    refine iff_of_true ⟨by simp, hout.1, by omega, hout.2⟩ (.inl trivial)
  · by_cases hcs : c = b + (alignUp size + 16)
    · rw [← hcs, hbs] at hnew
      refine iff_of_false (by simp [hcs]) ?_
      rintro (rfl | ⟨hmem, -⟩)
      · exact hcb rfl
      · exact hnew hmem
    · simp only [List.mem_append, List.mem_cons, hcb, hcs, false_or]

/-- A block is cut from the unused part of a page block. -/
lemma Inv.served_bump (h : Inv m L) (hp : p ∈ L.pages) (hwrap : alignUp size + 40 < 2 ^ 32)
    (hroom : targetSize size ≤ m.freeSize p) :
    Served m (m.allocMemBlock (targetSize size) p) L
      (L.set p (L.blocks p ++ [m.nextFreeAddr p]) (L.frees p)) size (m.nextFreeAddr p) := by
  have hpage := h.page p hp
  have htarget : targetSize size = alignUp size + 16 := by rw [targetSize]; omega
  have hs := (h.stage (A := fun c => c ∈ L.blocks p ∧ c ∉ L.frees p) hp fun c hc => hc.1).carve
    (t := targetSize size) (by omega) hroom
  have hnew : m.nextFreeAddr p ∉ L.blocks p := by
    intro hmem
    have hbounds := hpage.bounds hmem
    omega
  refine h.served hp hs (fun c => ?_) (fun hmem => hnew hmem.1) ?_
  · by_cases hc : c = m.nextFreeAddr p
    · subst hc
      have hout : m.nextFreeAddr p ∉ L.frees p := fun hmem => hnew (hpage.sub _ hmem)
      simp [hout]
    · simp [hc]
  · rw [(carved_allocMemBlock hpage.start_le).size, sub32]
    omega

/-! ## New page blocks -/

/-- A page block without blocks is added. -/
def Layout.addPage (L : Layout) (a : ℕ) : Layout :=
  { pages := L.pages ++ [a]
    blocks := Function.update L.blocks a []
    frees := Function.update L.frees a [] }

/-- The header of a new page block, which has the length `n`; nothing outside of it is written. -/
structure Opened (m m' : Arena) (a n : ℕ) : Prop where
  og : m'.ogSize a = n
  free : m'.freeSize a = n - 24
  next : m'.nextFreeAddr a = a + 24
  list : m'.freeBlocks a = 0
  nextPage : m'.nextPageBlock a = 0
  prevPage : m'.prevPageBlock a = 0
  mem : ∀ x, x < a ∨ a + n ≤ x → m'.mem x = m.mem x
  memPool : m'.memPool = m.memPool
  mapped : ∀ x, m'.mapped x = true ↔ (a ≤ x ∧ x < a + n) ∨ m.mapped x = true

/-- The pages of `len` bytes hold them. -/
lemma le_regionSize (len : ℕ) : len ≤ regionSize len := by
  rw [regionSize]
  omega

/-- Pages have whole lengths. -/
lemma regionSize_mod (len : ℕ) : regionSize len % 4096 = 0 := Nat.mul_mod_left ..

/-- `alloc_page_block` writes the header into the region it maps. -/
lemma Fresh.opened {len : ℕ} (h : Fresh m a len) (hlen : 24 ≤ len) :
    Opened m (m.allocPageBlock a len) a (regionSize len) := by
  have hbound := h.bound
  have hle := le_regionSize len
  have hpages : 4096 * pagesRequired len % 2 ^ 32 = regionSize len := by
    rw [regionSize] at hbound ⊢
    rw [pagesRequired]
    omega
  have hfree : sub32 (regionSize len) 24 = regionSize len - 24 := by
    rw [sub32]
    omega
  have hnext : (a + 24) % 2 ^ 32 = a + 24 := by omega
  constructor
  · simp (disch := omega) only [allocPageBlock, ogSize, setOgSize, setFreeSize, setFreeBlocks,
      setNextPageBlock, setPrevPageBlock, setNextFreeAddr, mem_store_of_ne, mem_store_self, hpages]
  · simp (disch := omega) only [allocPageBlock, freeSize, setOgSize, setFreeSize, setFreeBlocks,
      setNextPageBlock, setPrevPageBlock, setNextFreeAddr, mem_store_of_ne, mem_store_self,
        hpages, hfree]
  · simp (disch := omega) only [allocPageBlock, nextFreeAddr, setNextFreeAddr,
      mem_store_self, hnext]
  · simp (disch := omega) only [allocPageBlock, freeBlocks, setFreeBlocks,
      setNextPageBlock, setPrevPageBlock, setNextFreeAddr, mem_store_of_ne, mem_store_self]
  · simp (disch := omega) only [allocPageBlock, nextPageBlock,
      setNextPageBlock, setPrevPageBlock, setNextFreeAddr, mem_store_of_ne, mem_store_self]
  · simp (disch := omega) only [allocPageBlock, prevPageBlock, setPrevPageBlock, setNextFreeAddr,
      mem_store_of_ne, mem_store_self]
  · intro x hx
    simp (disch := omega) only [allocPageBlock, setOgSize, setFreeSize, setFreeBlocks,
      setNextPageBlock, setPrevPageBlock, setNextFreeAddr, mem_store_of_ne]
    have hout : inRegion a len x = false := decide_eq_false (by omega)
    simp [mmap, hout]
  · rfl
  · intro x
    simp [allocPageBlock, mmap, inRegion]

/-- A page block does not overlap pages that are not mapped. -/
lemma Inv.apart_unmapped (h : Inv m L) (hback : m.Backed L) (hp : p ∈ L.pages) (hn : 0 < n)
    (hfresh : ∀ x, a ≤ x → x < a + n → m.mapped x = false) : p + m.ogSize p ≤ a ∨ a + n ≤ p := by
  by_contra hover
  have hheader := (h.page p hp).header_le
  have hmapped := (hback p hp).2 (max a p) (by omega) (by omega)
  have hunmapped := hfresh (max a p) (by omega) (by omega)
  rw [hmapped] at hunmapped
  cases hunmapped

/-- The memory stands for the layout with one more page block, which has no block. -/
lemma Inv.addPage (h : Inv m L) (hback : m.Backed L) (hn : 24 ≤ n) (hwhole : n % 4096 = 0)
    (hfresh : ∀ x, a ≤ x → x < a + n → m.mapped x = false) (hpage : PageInv m' a [] [])
    (hog : m'.ogSize a = n)
    (hmem : ∀ p ∈ L.pages, ∀ x, p ≤ x → x < p + m.ogSize p → x ≠ p + 16 → m'.mem x = m.mem x)
    (hmapped : ∀ x, m'.mapped x = true ↔ (a ≤ x ∧ x < a + n) ∨ m.mapped x = true)
    (hpool : Dlist 0 m'.nextPageBlock m'.prevPageBlock m'.memPool (L.pages ++ [a])) :
    Inv m' (L.addPage a) ∧ m'.Backed (L.addPage a) := by
  have hapart : ∀ p ∈ L.pages, p + m.ogSize p ≤ a ∨ a + n ≤ p :=
    fun p hp => h.apart_unmapped hback hp (by omega) hfresh
  have hog' : ∀ p ∈ L.pages, m'.ogSize p = m.ogSize p := by
    intro p hp
    have hheader := (h.page p hp).header_le
    exact hmem p hp p le_rfl (by omega) (by omega)
  have hne : ∀ p ∈ L.pages, p ≠ a := by
    intro p hp heq
    have hheader := (h.page p hp).header_le
    have hpa := hapart p hp
    omega
  have hself : (L.addPage a).blocks a = [] ∧ (L.addPage a).frees a = [] :=
    ⟨Function.update_self _ _ _, Function.update_self _ _ _⟩
  have hold : ∀ p ∈ L.pages, (L.addPage a).blocks p = L.blocks p ∧
      (L.addPage a).frees p = L.frees p :=
    fun p hp => ⟨Function.update_of_ne (hne p hp) _ _, Function.update_of_ne (hne p hp) _ _⟩
  have hcases : ∀ p ∈ (L.addPage a).pages, p ∈ L.pages ∨ p = a := by
    intro p hp
    simpa [Layout.addPage] using hp
  refine ⟨⟨hpool, fun p hp => ?_, fun p hp => ?_, fun p hp q hq hpq => ?_⟩, fun p hp => ?_⟩
  · rcases hcases p hp with hp | rfl
    · rw [(hold p hp).1, (hold p hp).2]
      have hheader := (h.page p hp).header_le
      refine (h.page p hp).congr (fun k hk => hmem p hp _ (by omega) (by omega) (by omega))
        fun b hb k hk => ?_
      have hbounds := (h.page p hp).bounds hb
      exact hmem p hp _ (by omega) (by omega) (by omega)
    · rw [hself.1, hself.2]
      exact hpage
  · rcases hcases p hp with hp | rfl
    · rw [(hold p hp).1, (hold p hp).2]
      refine (h.flags p hp).congr fun b hb => ?_
      have hbounds := (h.page p hp).bounds hb
      exact hmem p hp _ (by omega) (by omega) (by omega)
    · rw [hself.1, hself.2]
      intro b hb
      exact absurd hb List.not_mem_nil
  · rcases hcases p hp with hpL | rfl
    · rcases hcases q hq with hqL | rfl
      · rw [hog' p hpL, hog' q hqL]
        exact h.apart p hpL q hqL hpq
      · rw [hog' p hpL, hog]
        exact hapart p hpL
    · rcases hcases q hq with hqL | rfl
      · rw [hog' q hqL, hog]
        exact (hapart q hqL).symm
      · exact absurd rfl hpq
  · rcases hcases p hp with hpL | rfl
    · rw [hog' p hpL]
      refine ⟨(hback p hpL).1, fun x hlo hhi => ?_⟩
      rw [hmapped x]
      exact .inr ((hback p hpL).2 x hlo hhi)
    · rw [hog]
      refine ⟨hwhole, fun x hlo hhi => ?_⟩
      rw [hmapped x]
      exact .inl ⟨hlo, hhi⟩

/-- A page block whose header was just written has no block. -/
lemma Opened.pageInv (h : Opened m m' a n) (hpos : 0 < a) (hn : 24 ≤ n) (hbound : a + n < 2 ^ 32) :
    PageInv m' a [] [] := by
  refine ⟨hpos, ?_, ?_, ?_, ?_, ?_, List.nodup_nil, ?_⟩
  · rw [h.og]
    exact hbound
  · exact h.next.symm
  · rw [h.next, h.free, h.og]
    omega
  · exact fun b hb => absurd hb List.not_mem_nil
  · exact h.list
  · exact fun b hb => absurd hb List.not_mem_nil

/-- The new page block has no allocated block. -/
lemma Layout.allocated_addPage (ha : a ∉ L.pages) : (L.addPage a).Allocated c ↔ L.Allocated c := by
  constructor
  · rintro ⟨p, hp, hb, hfree⟩
    have hne : p ≠ a := by
      rintro rfl
      simp [addPage] at hb
    simp only [addPage, Function.update_of_ne hne, List.mem_append, List.mem_singleton,
      hne, or_false]
      at hp hb hfree
    exact ⟨p, hp, hb, hfree⟩
  · rintro ⟨p, hp, hb, hfree⟩
    have hne : p ≠ a := fun heq => ha (heq ▸ hp)
    refine ⟨p, List.mem_append_left _ hp, ?_, ?_⟩
    · simpa [addPage, Function.update_of_ne hne] using hb
    · simpa [addPage, Function.update_of_ne hne] using hfree

/-- A page block is added, and a block is cut from it. -/
lemma Inv.served_page (hinv : Inv m' (L.addPage a)) (hback : m'.Backed (L.addPage a))
    (ha : a ∉ L.pages) (hwrap : alignUp size + 40 < 2 ^ 32)
    (hroom : targetSize size ≤ m'.freeSize a) (hnext : m'.nextFreeAddr a = a + 24)
    (hsizes : ∀ c, L.Allocated c → m'.size c = m.size c) :
    ∃ L', Served m (m'.allocMemBlock (targetSize size) a) L L' size (a + 24) := by
  have hserved := hinv.served_bump (List.mem_append_right _ List.mem_cons_self) hwrap hroom
  rw [hnext] at hserved
  refine ⟨_, hserved.inv, fun _ => hserved.backed hback, fun c =>
    ?_, ?_, hserved.size, fun c hc => ?_⟩
  · rw [hserved.allocated c, Layout.allocated_addPage ha]
  · rw [← Layout.allocated_addPage ha]
    exact hserved.new
  · rw [hserved.sizes c ((Layout.allocated_addPage ha).mpr hc), hsizes c hc]

/-- `alloc_mem_block` does not use `mem_pool`. -/
lemma allocMemBlock_memPool (m : Arena) (t p v : ℕ) :
    { m with memPool := v }.allocMemBlock t p = { m.allocMemBlock t p with memPool := v } := by
  simp only [allocMemBlock, setFreeSize, setNextFreeAddr, setSize, setParentPage, setNextMemBlock,
    setIsAllocated, store, freeSize, nextFreeAddr]

/-- The first page block. -/
lemma Inv.served_first (h : Inv m L) (hback : m.Backed L) (hpool : m.memPool = 0)
    (hwrap : alignUp size + 40 < 2 ^ 32) (hfresh : Fresh m a (allocSize size)) :
      ∃ L', Served m (m.firstPage size a) L L' size (a + 24) := by
  have halloc : allocSize size = alignUp size + 40 := by
    rw [allocSize, targetSize]
    omega
  have hempty : L.pages = [] := by
    have hlist := h.pool
    rw [hpool] at hlist
    exact hlist.eq_nil
  have hle := le_regionSize (allocSize size)
  have ho := hfresh.opened (by omega)
  obtain ⟨m₁, hm₁⟩ : ∃ m₁, m₁ = m.allocPageBlock a (allocSize size) := ⟨_, rfl⟩
  rw [← hm₁] at ho
  have hpos := hfresh.pos
  obtain ⟨hinv, hback'⟩ : Inv { m₁ with memPool := a } (L.addPage a) ∧
      Backed { m₁ with memPool := a } (L.addPage a) := by
    refine h.addPage hback (n := regionSize (allocSize size)) (by omega) (regionSize_mod _)
      (fun x hlo hhi => hfresh.unmapped x (decide_eq_true ⟨hlo, hhi⟩)) ?_ ho.og ?_ ho.mapped ?_
    · exact (ho.pageInv hpos (by omega) hfresh.bound).congr (fun _ _ => rfl) fun _ _ _ _ => rfl
    · intro p hp
      rw [hempty] at hp
      exact absurd hp List.not_mem_nil
    · rw [hempty]
      refine ⟨by simp, by simpa using hpos.ne, a, rfl, ho.prevPage, rfl, ho.nextPage⟩
  have hna : ∀ c, ¬L.Allocated c := by
    rintro c ⟨p, hp, -⟩
    rw [hempty] at hp
    exact List.not_mem_nil hp
  have htarget : targetSize size = alignUp size + 16 := by rw [targetSize]; omega
  have hroom : targetSize size ≤ m₁.freeSize a := by
    rw [ho.free]
    omega
  obtain ⟨L', hL'⟩ := hinv.served_page hback' (by simp [hempty]) hwrap hroom ho.next
    fun c hc => absurd hc (hna c)
  rw [allocMemBlock_memPool, hm₁] at hL'
  exact ⟨L', hL'⟩

/-- A page block after the last one. -/
lemma Inv.served_next {l : List ℕ} (h : Inv m L) (hback : m.Backed L)
    (hlast : L.pages = l ++ [prev]) (hwrap : alignUp size + 40 < 2 ^ 32)
    (hfresh : Fresh m a (allocSize size)) :
    ∃ L', Served m (m.nextPage size a prev) L L' size (a + 24) := by
  have halloc : allocSize size = alignUp size + 40 := by
    rw [allocSize, targetSize]
    omega
  have htarget : targetSize size = alignUp size + 16 := by rw [targetSize]; omega
  have hle := le_regionSize (allocSize size)
  have hpos := hfresh.pos
  have hbound := hfresh.bound
  have ho := hfresh.opened (by omega)
  have hun : ∀ x, a ≤ x → x < a + regionSize (allocSize size) → m.mapped x = false :=
    fun x hlo hhi => hfresh.unmapped x (decide_eq_true ⟨hlo, hhi⟩)
  obtain ⟨n, hn⟩ : ∃ n, n = regionSize (allocSize size) := ⟨_, rfl⟩
  rw [← hn] at ho hbound hle hun
  obtain ⟨m₁, hm₁⟩ : ∃ m₁, m₁ = m.allocPageBlock a (allocSize size) := ⟨_, rfl⟩
  rw [← hm₁] at ho
  obtain ⟨m₂, hm₂⟩ : ∃ m₂, m₂ = (m₁.setPrevPageBlock a prev).setNextPageBlock prev a := ⟨_, rfl⟩
  have hapart : ∀ p ∈ L.pages, p + m.ogSize p ≤ a ∨ a + n ≤ p :=
    fun p hp => h.apart_unmapped hback hp (by omega) hun
  have hprev : prev ∈ L.pages := by simp [hlast]
  have hheader : ∀ p ∈ L.pages, 24 ≤ m.ogSize p := by
    intro p hp
    have hle := (h.page p hp).header_le
    omega
  have hprevApart := hapart prev hprev
  have hprevHeader := hheader prev hprev
  have ha : a ∉ L.pages := by
    intro hmem
    have hself := hapart a hmem
    have hselfHeader := hheader a hmem
    omega
  -- outside of the new page block, the link of the last one is the only word written
  have hmem : ∀ x, x < a ∨ a + n ≤ x → x ≠ prev + 16 → m₂.mem x = m.mem x := by
    intro x hx hne
    rw [hm₂, setNextPageBlock, mem_store_of_ne hne, setPrevPageBlock, mem_store_of_ne (by omega)]
    exact ho.mem x hx
  have hpage : ∀ p ∈ L.pages, ∀ x, p ≤ x → x < p + m.ogSize p → x ≠ p + 16 →
      m₂.mem x = m.mem x := by
    intro p hp x hlo hhi hne
    have hpa := hapart p hp
    refine hmem x (by omega) fun heq => ?_
    have hpq : p ≠ prev := fun heq' => hne (heq' ▸ heq)
    have hpp := h.apart p hp prev hprev hpq
    omega
  have hopen : ∀ k < 16, m₂.mem (a + k) = m₁.mem (a + k) := by
    intro k hk
    rw [hm₂, setNextPageBlock, mem_store_of_ne (by omega), setPrevPageBlock,
      mem_store_of_ne (by omega)]
  have hpool : Dlist 0 m₂.nextPageBlock m₂.prevPageBlock m₂.memPool (L.pages ++ [a]) := by
    have hlist := h.pool
    have hsame : m₂.memPool = m.memPool := by rw [hm₂]; exact ho.memPool
    rw [hlast] at hlist ha ⊢
    rw [hsame]
    refine hlist.snoc ha (by omega) (fun c hc => ?_) (fun c hc => ?_) ?_ ?_ ?_
    · have hcL : c ∈ L.pages := by simp [hlast, hc]
      have hcp : c ≠ prev := by
        rintro rfl
        exact (List.nodup_append.mp hlist.1).2.2 c hc c (by simp) rfl
      have hca := hapart c hcL
      have hcHeader := hheader c hcL
      exact hmem _ (by omega) (by omega)
    · have hcL : c ∈ L.pages := by rwa [hlast]
      have hcHeader := hheader c hcL
      exact hpage c hcL _ (by omega) (by omega) (by omega)
    · rw [hm₂]
      exact mem_store_self ..
    · rw [hm₂, prevPageBlock, setNextPageBlock, mem_store_of_ne (by omega)]
      exact mem_store_self ..
    · rw [hm₂, nextPageBlock, setNextPageBlock, mem_store_of_ne (by omega), setPrevPageBlock,
        mem_store_of_ne (by omega)]
      exact ho.nextPage
  obtain ⟨hinv, hback'⟩ : Inv m₂ (L.addPage a) ∧ m₂.Backed (L.addPage a) := by
    refine h.addPage hback (by omega) (hn ▸ regionSize_mod _) hun ?_
      ((hopen 0 (by omega)).trans ho.og) hpage ?_ hpool
    · exact (ho.pageInv hpos (by omega) hbound).congr hopen fun _ hb => absurd hb List.not_mem_nil
    · rw [hm₂]
      exact ho.mapped
  rw [nextPage, ← hm₁]
  simp only [← hm₂]
  refine hinv.served_page hback' ha hwrap ?_ ((hopen 8 (by omega)).trans ho.next) fun c hc => ?_
  · have hfree : m₂.freeSize a = n - 24 := (hopen 4 (by omega)).trans ho.free
    omega
  · obtain ⟨p, hp, hb, -⟩ := hc
    have hbounds := (h.page p hp).bounds hb
    exact hpage p hp c (by omega) (by omega) (by omega)

/-! ## Calls of `malloc` -/

/-- The sizes of the request do not wrap, and a block that it is served from has its size or leaves
the room of a header. -/
structure Heeds (m : Arena) (size : ℕ) : Prop where
  wrap : alignUp size + 40 < 2 ^ 32
  left : ∀ fuel u b, m.site fuel size = some (.block u b) →
    m.size b = alignUp size ∨ alignUp size + 16 ≤ m.size b

/-- An allocated block and its header end before the address space does. -/
lemma Inv.allocated_lt (h : Inv m L) (hb : L.Allocated b) : b + m.size b + 16 < 2 ^ 32 := by
  obtain ⟨p, hp, hmem, -⟩ := hb
  have hbounds := (h.page p hp).bounds hmem
  have hbound := (h.page p hp).bound
  omega

/-- The block that was allocated ends before the address space does. -/
lemma Served.payload_eq {L' : Layout} (h : Served m m' L L' size b) : payload b = b + 16 := by
  have hlt := h.inv.allocated_lt ((h.allocated b).mpr (.inl rfl))
  rw [payload]
  omega

/-- A block is taken from a list. -/
lemma Inv.served_take {u : ℕ} (h : Inv m L) (hok : m.Heeds size)
    (hsite : m.site fuel size = some (.block u b)) {k : ℕ} (hr : m.takeBlock k size u b = some m') :
    ∃ L', Served m m' L L' size b := by
  obtain ⟨-, p, hp, fs₁, fs₂, l, hfs, hprev⟩ := h.site_fits hsite
  have hleft := hok.left fuel u b hsite
  rw [takeBlock] at hr
  split_ifs at hr with hlt
  · obtain ⟨-, -, rfl⟩ := Option.map_eq_some_iff.mp hr
    obtain ⟨bs, hserved⟩ := h.served_split hp hfs hprev hok.wrap (by omega)
    exact ⟨_, hserved⟩
  · obtain rfl : m.exactBlock u b = m' := Option.some.inj hr
    exact ⟨_, h.served_exact hp hfs hprev (by omega)⟩

/-- Without a page block, the search asks for one. -/
lemma mapsPage_of_memPool (h : m.memPool = 0) (size : ℕ) : m.MapsPage size :=
  ⟨1, 0, by simp [site, findSite, h]⟩

/-- **A call of `malloc` serves its request**: it allocates one block, of the size asked for, and
changes no other allocated block.

**Proof sketch.** The loops end at a block, at a page block or after the last one. In each case the
stores that follow are those of one of the lemmas above. -/
theorem Inv.malloc (h : Inv m L) (hback : m.Backed L) (hok : m.Heeds size)
    (hfresh : m.MapsPage size → m.Fresh a (allocSize size))
    (hr : m.malloc fuel size a = some (q, m')) :
    ∃ L' b, Served m m' L L' size b ∧ q = b + 16 := by
  suffices hserved : ∃ b L', Served m m' L L' size b ∧ q = payload b by
    obtain ⟨b, L', hs, hq⟩ := hserved
    exact ⟨L', b, hs, hq.trans hs.payload_eq⟩
  have hstart : m.Fresh a (allocSize size) → (a + 24) % 2 ^ 32 = a + 24 := by
    intro hf
    have hle := le_regionSize (allocSize size)
    have hbound := hf.bound
    have halloc : allocSize size = alignUp size + 40 := by
      have hwrap := hok.wrap
      rw [allocSize, targetSize]
      omega
    omega
  rw [Arena.malloc] at hr
  split_ifs at hr with hpool
  · obtain ⟨rfl, rfl⟩ := Prod.mk.inj (Option.some.inj hr)
    have hf := hfresh (mapsPage_of_memPool hpool size)
    obtain ⟨L', hs⟩ := h.served_first hback hpool hok.wrap hf
    exact ⟨a + 24, L', hs, by rw [hstart hf]⟩
  · split at hr
    · cases hr
    next u b hsite =>
      obtain ⟨m'', htake, heq⟩ := Option.map_eq_some_iff.mp hr
      obtain ⟨rfl, rfl⟩ := Prod.mk.inj heq
      obtain ⟨L', hs⟩ := h.served_take hok hsite htake
      exact ⟨b, L', hs, rfl⟩
    next p hsite =>
      obtain ⟨rfl, rfl⟩ := Prod.mk.inj (Option.some.inj hr)
      obtain ⟨hp, hroom⟩ := h.site_fits hsite
      exact ⟨_, _, h.served_bump hp hok.wrap hroom, rfl⟩
    next u hsite =>
      obtain ⟨rfl, rfl⟩ := Prod.mk.inj (Option.some.inj hr)
      have hf := hfresh ⟨fuel, u, hsite⟩
      obtain ⟨l, hl⟩ := h.site_fits hsite
      -- there is a page block, so the last one is not the null pointer that the loop begins with
      obtain ⟨l', hlast⟩ : ∃ l', L.pages = l' ++ [u] := by
        cases l with
        | nil =>
          obtain ⟨-, hempty⟩ : 0 = u ∧ L.pages = [] := by simpa using hl
          have hlist := h.pool
          rw [hempty] at hlist
          exact absurd hlist.lseg hpool
        | cons z l => exact ⟨l, by simpa using (List.cons.inj hl).2⟩
      obtain ⟨L', hs⟩ := h.served_next hback hlast hok.wrap hf
      exact ⟨a + 24, L', hs, by rw [hstart hf]⟩

/-- Taking a block from a list returns: the list that is printed after a split ends. -/
lemma Inv.takeBlock_isSome {u k : ℕ} (h : Inv m L) (hok : m.Heeds size)
    (hsite : m.site fuel size = some (.block u b)) (hk : ∀ p ∈ L.pages, (L.frees p).length < k) :
    ∃ m', m.takeBlock k size u b = some m' := by
  obtain ⟨-, p, hp, fs₁, fs₂, l, hfs, hprev⟩ := h.site_fits hsite
  have hleft := hok.left fuel u b hsite
  have hlen := hk p hp
  rw [takeBlock]
  split_ifs with hlt
  · obtain ⟨bs, hserved⟩ := h.served_split hp hfs hprev hok.wrap (by omega)
    have hpage := hserved.inv.page p hp
    simp only [Layout.set, Function.update_self] at hpage
    have hb : b ∈ bs := by
      have halloc := (hserved.allocated b).mpr (.inl rfl)
      rw [Layout.allocated_set hp] at halloc
      have hmem := (h.page p hp).sub b (by simp [hfs])
      exact (halloc.resolve_right (h.not_elsewhere hp hmem)).1
    obtain ⟨z, hz⟩ := walk_isSome (p := fun c => c == 0) (n := k) hpage.list rfl
      (by rw [hfs] at hlen; simpa using hlen)
    simp only [hpage.parent b hb, hz]
    exact ⟨_, rfl⟩
  · exact ⟨_, rfl⟩

/-- **A call of `malloc` returns.** -/
theorem Inv.malloc_isSome (h : Inv m L) (hok : m.Heeds size) (a : ℕ) :
    ∃ fuel r, m.malloc fuel size a = some r := by
  obtain ⟨N, hlen, hfuel⟩ := exists_fuel L
  refine ⟨N, ?_⟩
  rw [Arena.malloc]
  split_ifs with hpool
  · exact ⟨_, rfl⟩
  · obtain ⟨site, hsite⟩ := h.site_isSome hlen hfuel size
    rw [hsite]
    cases site with
    | block u b =>
      obtain ⟨m', hm'⟩ := h.takeBlock_isSome hok hsite hfuel
      exact ⟨(payload b, m'), by simp [hm']⟩
    | bump p => exact ⟨_, rfl⟩
    | fresh u => exact ⟨_, rfl⟩

end Arena

end AlphaOS
