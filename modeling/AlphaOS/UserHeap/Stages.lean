import AlphaOS.UserHeap.Layout

set_option relaxedAutoImplicit false
set_option autoImplicit false

/-!
# Stages of a call

`malloc` and `free` work in one page block by writing a few words, one after the other. A stage is
the memory after some of these stores. At each stage the page block has its blocks and its list; the
flags may be ahead of the list, or behind it. One lemma for each kind of store says which lists the
page block has next, and the branches of the two functions are sequences of stores.

## Main definitions

* `AlphaOS.Arena.Stage` — the lists of a page block at a stage.

## Main results

* `AlphaOS.Arena.Stage.payload`, `setFlag`, `cut`, `join`, `setLink`, `setNext`, `carve` — the
  stores.
* `AlphaOS.Arena.Stage.exactBlock`, `splitBlock`, `append`, `merge` — the branches.
-/

namespace AlphaOS

namespace Arena

open Tiling Linked

variable {A : ℕ → Prop} {m₀ m m' : Arena} {a p b c s t x v n prev : ℕ}
    {bs bs₁ bs₂ fs fs' fs₁ fs₂ ff ff' l r r' : List ℕ}

/-- Since `m₀` a call has written to the page block at `p` only. The page block has the blocks `bs`
and the list `fs`, and the blocks `ff` are not allocated. The blocks with `A` were there before,
with the same sizes. -/
structure Stage (A : ℕ → Prop) (m₀ m : Arena) (p : ℕ) (bs fs ff : List ℕ) : Prop where
  page : PageInv m p bs fs
  flags : Flags m bs ff
  inside : Inside m₀ m p
  kept : ∀ c, A c → c ∈ bs ∧ m.size c = m₀.size c

/-- Before the first store. -/
lemma Inv.stage {L : Layout} (h : Inv m L) (hp : p ∈ L.pages) (hA : ∀ c, A c → c ∈ L.blocks p) :
    Stage A m m p (L.blocks p) (L.frees p) (L.frees p) :=
  ⟨h.page p hp, h.flags p hp, ⟨fun _ _ => rfl, rfl, rfl⟩, fun c hc => ⟨hA c hc, rfl⟩⟩

/-- After the last store. -/
lemma Inv.finish {L : Layout} (h : Inv m₀ L) (hp : p ∈ L.pages) (hs : Stage A m₀ m p bs fs fs) :
    Inv m (L.set p bs fs) :=
  h.inside hp hs.inside hs.page hs.flags

/-! ## Stores that leave the lists -/

/-- A store that is in none of the words that the lists are read from. -/
lemma Stage.store (h : Stage A m₀ m p bs fs ff) (hlo : p + 24 ≤ x) (hhi : x < p + m.ogSize p)
    (hb : ∀ b ∈ bs, x < b ∨ b + 16 ≤ x) (v : ℕ) : Stage A m₀ (m.store x v) p bs fs ff := by
  refine ⟨h.page.congr (fun k hk => ?_) fun b hmem k hk => ?_, h.flags.congr fun b hmem => ?_,
    h.inside.trans (Inside.store (by omega) (by omega) (by omega) hhi v), fun c hc => ?_⟩
  · exact mem_store_of_ne (by omega) v
  · have hout := hb b hmem
    exact mem_store_of_ne (by omega) v
  · have hout := hb b hmem
    exact mem_store_of_ne (by omega) v
  · obtain ⟨hmem, hsize⟩ := h.kept c hc
    have hout := hb c hmem
    exact ⟨hmem, (mem_store_of_ne (by omega) v).trans hsize⟩

/-- A store to the payload of a block. -/
lemma Stage.payload (h : Stage A m₀ m p bs fs ff) (hb : b ∈ bs) (hlo : b + 16 ≤ x)
    (hhi : x < b + m.size b + 16) (v : ℕ) : Stage A m₀ (m.store x v) p bs fs ff := by
  have hbounds := h.page.bounds hb
  refine h.store (by omega) (by omega) (fun c hc => ?_) v
  by_cases hne : b = c
  · exact .inr (by omega)
  · have hapart := h.page.apart hb hc hne
    omega

/-- The flag of a block is written. -/
lemma Stage.setFlag (h : Stage A m₀ m p bs fs ff) (hb : b ∈ bs) (hv : v < 256)
    (hself : v = 0 ↔ b ∈ ff') (hother : ∀ c, c ≠ b → (c ∈ ff' ↔ c ∈ ff)) :
    Stage A m₀ (m.setIsAllocated b v) p bs fs ff' := by
  have hbounds := h.page.bounds hb
  have hkeep : ∀ c ∈ bs, ∀ k < 12, (m.setIsAllocated b v).mem (c + k) = m.mem (c + k) := by
    intro c hc k hk
    by_cases hne : b = c
    · exact mem_store_of_ne (by omega) _
    · have hapart := h.page.apart hb hc hne
      exact mem_store_of_ne (by omega) _
  refine ⟨h.page.congr (fun k hk => ?_) hkeep, fun c hc => ?_,
    h.inside.trans (Inside.store (by omega) (by omega) (by omega) (by omega) _), fun c hc => ?_⟩
  · exact mem_store_of_ne (by omega) _
  · by_cases hne : c = b
    · subst hne
      rw [← hself, isAllocated, setIsAllocated, mem_store_self]
      omega
    · rw [hother c hne, isAllocated, setIsAllocated, mem_store_of_ne (by omega)]
      exact h.flags c hc
  · obtain ⟨hmem, hsize⟩ := h.kept c hc
    exact ⟨hmem, (hkeep c hmem 0 (by omega)).trans hsize⟩

/-! ## Links -/

/-- A link is a function of the block. -/
lemma nextMemBlock_setNextMemBlock (m : Arena) (a v : ℕ) :
    (m.setNextMemBlock a v).nextMemBlock = Function.update m.nextMemBlock a v := by
  funext c
  by_cases hne : c = a
  · subst hne
    rw [Function.update_self]
    exact mem_store_self ..
  · rw [Function.update_of_ne hne]
    exact mem_store_of_ne (by omega) v

/-- The list with the word it begins in: `free_blocks` stands where the link of a block at `p + 4`
would. -/
lemma PageInv.chain (h : PageInv m p bs fs) : Lseg m.nextMemBlock (p + 4) ((p + 4) :: fs) 0 :=
  ⟨rfl, h.list⟩

/-- The link of a block, or `free_blocks`, is written. -/
lemma Stage.link (h : Stage A m₀ m p bs fs ff) (ha : a = p + 4 ∨ a ∈ bs)
    (hlist : Lseg (Function.update m.nextMemBlock a v) (p + 4) ((p + 4) :: fs') 0) (hnd : fs'.Nodup)
    (hsub : ∀ c ∈ fs', c ∈ bs) : Stage A m₀ (m.setNextMemBlock a v) p bs fs' ff := by
  have hheader := h.page.header_le
  have hbounds : a = p + 4 ∨ p + 24 ≤ a ∧ a + 16 ≤ p + m.ogSize p := by
    refine ha.imp_right fun hmem => ?_
    have hblock := h.page.bounds hmem
    omega
  have hkeep : ∀ c ∈ bs, ∀ k < 16, k ≠ 8 → (m.setNextMemBlock a v).mem (c + k) = m.mem (c + k) := by
    intro c hc k hk hne
    refine mem_store_of_ne ?_ v
    have hcb := h.page.bounds hc
    rcases ha with rfl | ha
    · omega
    · by_cases heq : a = c
      · omega
      · have hapart := h.page.apart ha hc heq
        omega
  have hog : (m.setNextMemBlock a v).ogSize p = m.ogSize p := mem_store_of_ne (by omega) v
  have hfree : (m.setNextMemBlock a v).freeSize p = m.freeSize p := mem_store_of_ne (by omega) v
  have hnext : (m.setNextMemBlock a v).nextFreeAddr p = m.nextFreeAddr p :=
    mem_store_of_ne (by omega) v
  refine ⟨⟨h.page.pos, ?_, ?_, ?_, fun c hc => ?_, ?_, hnd, hsub⟩, h.flags.congr fun c hc => ?_,
    h.inside.trans (Inside.store (by omega) (by omega) (by omega) (by omega) _), fun c hc => ?_⟩
  · rw [hog]
    exact h.page.bound
  · rw [hnext]
    exact h.page.tiles.congr fun c hc => congrArg (· + 16) (hkeep c hc 0 (by omega) (by omega))
  · rw [hnext, hfree, hog]
    exact h.page.rest
  · rw [parentPage, hkeep c hc 4 (by omega) (by omega)]
    exact h.page.parent c hc
  · rw [← nextMemBlock_setNextMemBlock] at hlist
    exact hlist.2
  · exact hkeep c hc 12 (by omega) (by omega)
  · obtain ⟨hmem, hsize⟩ := h.kept c hc
    exact ⟨hmem, (hkeep c hmem 0 (by omega) (by omega)).trans hsize⟩

/-- The list after a node of it is replaced. -/
lemma Stage.setLink (h : Stage A m₀ m p bs fs ff) (hchain : (p + 4) :: fs = l ++ a :: r)
    (hchain' : (p + 4) :: fs' = l ++ a :: r') (hv : Lseg m.nextMemBlock v r' 0) (hnd : fs'.Nodup)
    (hsub : ∀ c ∈ fs', c ∈ bs) : Stage A m₀ (m.setNextMemBlock a v) p bs fs' ff := by
  have hhead : ∀ c ∈ bs, c ≠ p + 4 := by
    intro c hc heq
    have hbounds := h.page.bounds hc
    omega
  have hnd' : ((p + 4) :: fs').Nodup :=
    List.nodup_cons.mpr ⟨fun hmem => hhead _ (hsub _ hmem) rfl, hnd⟩
  have hmem : a ∈ (p + 4) :: fs := hchain ▸ List.mem_append_right _ List.mem_cons_self
  rw [hchain'] at hnd'
  obtain ⟨-, hr, hdis⟩ := List.nodup_append.mp hnd'
  refine h.link ?_ ?_ hnd hsub
  · exact (List.mem_cons.mp hmem).imp_right (h.page.sub a)
  · have hseg := h.page.chain
    rw [hchain] at hseg
    rw [hchain']
    exact hseg.redirect (fun ha => hdis a ha a List.mem_cons_self rfl) hv (List.nodup_cons.mp hr).1

/-- The link of a block that is not on the list is written. -/
lemma Stage.setNext (h : Stage A m₀ m p bs fs ff) (hb : b ∈ bs) (hfree : b ∉ fs) (v : ℕ) :
    Stage A m₀ (m.setNextMemBlock b v) p bs fs ff := by
  refine h.link (.inr hb) (h.page.chain.update fun hmem => ?_) h.page.nodup h.page.sub
  have hbounds := h.page.bounds hb
  rcases List.mem_cons.mp hmem with heq | hmem
  · omega
  · exact hfree hmem

/-! ## Sizes -/

/-- The size of a block is written, and the blocks `bs'` tile the used part with it. -/
lemma Stage.setSize {bs' : List ℕ} (h : Stage A m₀ m p bs fs ff) (ha : a ∈ bs)
    (htiles : Tiles (fun c => (m.setSize a n).size c + 16) (p + 24) bs' (m.nextFreeAddr p))
    (hout : ∀ c ∈ bs', c + 16 ≤ a ∨ a ≤ c) (hparent : ∀ c ∈ bs', m.parentPage c = p)
    (hflags : Flags m bs' ff') (hsub : ∀ c ∈ fs, c ∈ bs') (hA : ∀ c, A c → c ≠ a ∧ c ∈ bs') :
    Stage A m₀ (m.setSize a n) p bs' fs ff' := by
  have hbounds := h.page.bounds ha
  have hkeep : ∀ c ∈ bs', ∀ k < 16, 0 < k → (m.setSize a n).mem (c + k) = m.mem (c + k) := by
    intro c hc k hk hpos
    have hca := hout c hc
    exact mem_store_of_ne (by omega) n
  have hog : (m.setSize a n).ogSize p = m.ogSize p := mem_store_of_ne (by omega) n
  have hfree : (m.setSize a n).freeSize p = m.freeSize p := mem_store_of_ne (by omega) n
  have hnext : (m.setSize a n).nextFreeAddr p = m.nextFreeAddr p := mem_store_of_ne (by omega) n
  have hhead : (m.setSize a n).freeBlocks p = m.freeBlocks p := mem_store_of_ne (by omega) n
  refine ⟨⟨h.page.pos, ?_, ?_, ?_, fun c hc => ?_, ?_, h.page.nodup, hsub⟩,
    hflags.congr fun c hc => ?_,
    h.inside.trans (Inside.store (by omega) (by omega) (by omega) (by omega) _), fun c hc => ?_⟩
  · rw [hog]
    exact h.page.bound
  · rw [hnext]
    exact htiles
  · rw [hnext, hfree, hog]
    exact h.page.rest
  · rw [parentPage, hkeep c hc 4 (by omega) (by omega)]
    exact hparent c hc
  · rw [hhead]
    exact h.page.list.congr fun c hc => hkeep c (hsub c hc) 8 (by omega) (by omega)
  · exact hkeep c hc 12 (by omega) (by omega)
  · exact ⟨(hA c hc).2, (mem_store_of_ne (hA c hc).1 n).trans (h.kept c hc).2⟩

/-- A block is cut in two: its size is lowered, and a header has been written behind what is left of
it. -/
lemma Stage.cut (h : Stage A m₀ m p (bs₁ ++ b :: bs₂) fs ff) (hs : s = b + (n + 16))
    (hsum : n + 16 + m.size s = m.size b) (hparent : m.parentPage s = p)
    (hflag : m.isAllocated s = 0) (hA : ¬A b) :
    Stage A m₀ (m.setSize b n) p (bs₁ ++ b :: s :: bs₂) fs (s :: ff) := by
  have hb : b ∈ bs₁ ++ b :: bs₂ := List.mem_append_right _ List.mem_cons_self
  have hmem : ∀ c, c ∈ bs₁ ++ b :: s :: bs₂ ↔ c = s ∨ c ∈ bs₁ ++ b :: bs₂ := by
    intro c
    simp only [List.mem_append, List.mem_cons]
    tauto
  have hnd := h.page.tiles.nodup fun c _ => Nat.succ_pos _
  -- `s` is inside of `b`, and so it is not one of the blocks
  have hnew : s ∉ bs₁ ++ b :: bs₂ := by
    intro hs'
    have hapart := h.page.apart hb hs' (by omega)
    omega
  have hself : (m.setSize b n).size b = n := mem_store_self ..
  have hother : ∀ c, c ≠ b → (m.setSize b n).size c = m.size c := fun c hc => mem_store_of_ne hc n
  refine h.setSize hb ?_ (fun c hc => ?_) (fun c hc => ?_) (fun c hc => ?_)
    (fun c hc => ?_) fun c hc => ?_
  · have hsame : ∀ c ∈ bs₁ ++ bs₂, (fun c => (m.setSize b n).size c + 16) c = m.size c + 16 := by
      intro c hc
      refine congrArg (· + 16) (hother c ?_)
      rintro rfl
      exact (List.nodup_middle.mp hnd).notMem hc
    have hcut := h.page.tiles.cut hsame ?_
    · simp only [hself, ← hs] at hcut
      exact hcut
    · simp only [hself, ← hs]
      rw [hother s (by omega)]
      omega
  · rcases (hmem c).mp hc with rfl | hc
    · omega
    · by_cases hne : b = c
      · omega
      · have hapart := h.page.apart hb hc hne
        omega
  · rcases (hmem c).mp hc with rfl | hc
    · exact hparent
    · exact h.page.parent c hc
  · rcases (hmem c).mp hc with rfl | hc
    · simpa using hflag
    · have hne : c ≠ s := fun heq => hnew (heq ▸ hc)
      simpa [hne] using h.flags c hc
  · exact (hmem c).mpr (.inr (h.page.sub c hc))
  · exact ⟨fun heq => hA (heq ▸ hc), (hmem c).mpr (.inr (h.kept c hc).1)⟩

/-- Two neighbours become one block. -/
lemma Stage.join (h : Stage A m₀ m p (bs₁ ++ a :: b :: bs₂) fs ff) (hb : b ∉ fs)
    (hn : n = m.size a + m.size b + 16) (hA : ∀ c, A c → c ≠ a ∧ c ≠ b) :
    Stage A m₀ (m.setSize a n) p (bs₁ ++ a :: bs₂) fs ff := by
  have ha : a ∈ bs₁ ++ a :: b :: bs₂ := List.mem_append_right _ List.mem_cons_self
  have hmem : ∀ c, c ∈ bs₁ ++ a :: b :: bs₂ ↔ c = b ∨ c ∈ bs₁ ++ a :: bs₂ := by
    intro c
    simp only [List.mem_append, List.mem_cons]
    tauto
  have hnd := h.page.tiles.nodup fun c _ => Nat.succ_pos _
  have hself : (m.setSize a n).size a = n := mem_store_self ..
  have hother : ∀ c, c ≠ a → (m.setSize a n).size c = m.size c := fun c hc => mem_store_of_ne hc n
  refine h.setSize ha ?_ (fun c hc => ?_) (fun c hc => ?_) (fun c hc => ?_)
    (fun c hc => ?_) fun c hc => ?_
  · refine h.page.tiles.join (fun c hc => ?_) ?_
    · rw [hother c]
      rintro rfl
      obtain ⟨-, hnd₂, hdis⟩ := List.nodup_append.mp hnd
      rcases List.mem_append.mp hc with hc | hc
      · exact hdis c hc c List.mem_cons_self rfl
      · exact (List.nodup_cons.mp hnd₂).1 (List.mem_cons_of_mem _ hc)
    · rw [hself]
      omega
  · by_cases hne : a = c
    · omega
    · have hapart := h.page.apart ha ((hmem c).mpr (.inr hc)) hne
      omega
  · exact h.page.parent c ((hmem c).mpr (.inr hc))
  · exact h.flags c ((hmem c).mpr (.inr hc))
  · exact ((hmem c).mp (h.page.sub c hc)).resolve_left fun heq => hb (heq ▸ hc)
  · exact ⟨(hA c hc).1, ((hmem c).mp (h.kept c hc).1).resolve_left (hA c hc).2⟩

/-! ## New blocks -/

/-- What `alloc_mem_block` writes: two words of the page block's header, and the header of a block
at `e`. -/
structure Carved (m m' : Arena) (p e t : ℕ) : Prop where
  free : m'.freeSize p = sub32 (m.freeSize p) t
  next : m'.nextFreeAddr p = (e + t) % 2 ^ 32
  size : m'.size e = sub32 t 16
  parent : m'.parentPage e = p
  flag : m'.isAllocated e = 1
  mem : ∀ x, x ≠ p + 4 → x ≠ p + 8 → (x < e ∨ e + 16 ≤ x) → m'.mem x = m.mem x
  memPool : m'.memPool = m.memPool
  mapped : m'.mapped = m.mapped

/-- `alloc_mem_block` writes its block behind the used part. -/
lemma carved_allocMemBlock (hle : p + 24 ≤ m.nextFreeAddr p) :
    Carved m (m.allocMemBlock t p) p (m.nextFreeAddr p) t := by
  have hword : p + 24 ≤ m.mem (p + 8) := hle
  constructor
  · simp (disch := omega) [allocMemBlock, freeSize, mem_store_of_ne]
  · simp (disch := omega) [allocMemBlock, nextFreeAddr, mem_store_of_ne]
  · simp (disch := omega) [allocMemBlock, Arena.size, mem_store_of_ne]
  · simp (disch := omega) [allocMemBlock, parentPage, mem_store_of_ne]
  · simp (disch := omega) [allocMemBlock, isAllocated, mem_store_of_ne]
  · intro x h4 h8 hx
    simp (disch := omega) [allocMemBlock, mem_store_of_ne]
  · rfl
  · rfl

/-- A block is cut from the unused part of the page block. -/
lemma Stage.carve (h : Stage A m₀ m p bs fs fs) (h16 : 16 ≤ t) (ht : t ≤ m.freeSize p) :
    Stage A m₀ (m.allocMemBlock t p) p (bs ++ [m.nextFreeAddr p]) fs fs := by
  have hstart := h.page.start_le
  have hrest := h.page.rest
  have hbound := h.page.bound
  have hc := carved_allocMemBlock (t := t) hstart
  obtain ⟨e, he⟩ : ∃ e, m.nextFreeAddr p = e := ⟨_, rfl⟩
  obtain ⟨m', hm'⟩ : ∃ m', m.allocMemBlock t p = m' := ⟨_, rfl⟩
  rw [he, hm'] at hc
  rw [he] at hrest hstart
  rw [he, hm']
  have hog : m'.ogSize p = m.ogSize p := hc.mem p (by omega) (by omega) (by omega)
  have hfree : m'.freeSize p = m.freeSize p - t := by rw [hc.free, sub32]; omega
  have hnext : m'.nextFreeAddr p = e + t := by rw [hc.next]; omega
  have hsize : m'.size e = t - 16 := by rw [hc.size, sub32]; omega
  -- the header of a block that was there before is not written
  have hblock : ∀ b ∈ bs, ∀ k < 16, m'.mem (b + k) = m.mem (b + k) := by
    intro b hb k hk
    have hbounds := h.page.bounds hb
    exact hc.mem _ (by omega) (by omega) (by omega)
  have hnew : e ∉ fs := by
    intro hmem
    have hbounds := h.page.bounds (h.page.sub e hmem)
    omega
  refine ⟨⟨h.page.pos, ?_, ?_, ?_, fun b hb => ?_, ?_, h.page.nodup, ?_⟩, fun b hb => ?_,
    h.inside.trans ⟨fun x hx => hc.mem x (by omega) (by omega) (by omega), hc.memPool, hc.mapped⟩,
    fun b hA => ?_⟩
  · rw [hog]
    exact h.page.bound
  · have hsame : ∀ b ∈ bs, (fun b => m'.size b + 16) b = m.size b + 16 :=
      fun b hb => congrArg (· + 16) (hblock b hb 0 (by omega))
    have htiles := (he ▸ h.page.tiles).snoc hsame
    have hend : e + (m'.size e + 16) = m'.nextFreeAddr p := by omega
    rwa [hend] at htiles
  · rw [hnext, hfree, hog]
    omega
  · rcases List.mem_append.mp hb with hb | hb
    · rw [parentPage, hblock b hb 4 (by omega)]
      exact h.page.parent b hb
    · rw [List.mem_singleton.mp hb]
      exact hc.parent
  · rw [freeBlocks, hc.mem _ (by omega) (by omega) (by omega)]
    exact h.page.list.congr fun b hb => hblock b (h.page.sub b hb) 8 (by omega)
  · exact fun b hb => List.mem_append_left _ (h.page.sub b hb)
  · rcases List.mem_append.mp hb with hb | hb
    · rw [isAllocated, hblock b hb 12 (by omega)]
      exact h.flags b hb
    · rw [List.mem_singleton.mp hb, hc.flag]
      simpa using hnew
  · obtain ⟨hmem, hkept⟩ := h.kept b hA
    exact ⟨List.mem_append_left _ hmem, (hblock b hmem 0 (by omega)).trans hkept⟩

/-! ## Branches of `malloc` -/

/-- The link that leads to a block of the list is made to lead to another. -/
lemma Stage.relink (h : Stage A m₀ m p bs (fs₁ ++ b :: fs₂) ff) (hprev : 0 :: fs₁ = l ++ [prev])
    (hv : Lseg m.nextMemBlock v r' 0) (hnd : (fs₁ ++ r').Nodup) (hsub : ∀ c ∈ fs₁ ++ r', c ∈ bs) :
    Stage A m₀ (m.relink prev b v) p bs (fs₁ ++ r') ff := by
  have hparent := h.page.parent b (h.page.sub b (List.mem_append_right _ List.mem_cons_self))
  cases l with
  | nil =>
    -- the block is the first of its list
    obtain ⟨rfl, rfl⟩ : 0 = prev ∧ fs₁ = [] := by simpa using hprev
    rw [Arena.relink, if_pos rfl, hparent]
    exact h.setLink (l := []) rfl rfl hv hnd hsub
  | cons z l =>
    obtain ⟨rfl, rfl⟩ : 0 = z ∧ fs₁ = l ++ [prev] := by simpa using hprev
    have hpos : prev ≠ 0 := by
      rintro rfl
      exact h.page.zero_notMem (by simp)
    rw [Arena.relink, if_neg hpos]
    exact h.setLink (l := (p + 4) :: l) (r := b :: fs₂) (by simp) (by simp) hv hnd hsub

/-- **Taking a block that has the size of the request.** -/
theorem Stage.exactBlock (h : Stage A m₀ m p bs (fs₁ ++ b :: fs₂) (fs₁ ++ b :: fs₂))
    (hprev : 0 :: fs₁ = l ++ [prev]) :
    Stage A m₀ (m.exactBlock prev b) p bs (fs₁ ++ fs₂) (fs₁ ++ fs₂) := by
  have hnd := h.page.nodup
  have hb : b ∈ bs := h.page.sub b (List.mem_append_right _ List.mem_cons_self)
  have hout : b ∉ fs₁ ++ fs₂ := (List.nodup_middle.mp hnd).notMem
  have hflag : Stage A m₀ (m.setIsAllocated b 1) p bs (fs₁ ++ b :: fs₂) (fs₁ ++ fs₂) := by
    refine h.setFlag hb (by omega) ?_ fun c hc => ?_
    · simpa using hout
    · simp [hc]
  obtain ⟨z, -, rfl, hrest⟩ := lseg_append.mp hflag.page.list
  refine hflag.relink hprev hrest (List.nodup_middle.mp hnd).of_cons fun c hc => ?_
  refine h.page.sub c ?_
  simp only [List.mem_append, List.mem_cons] at hc ⊢
  tauto

/-- The stores of a split before the size of the block is lowered: the header of the second part. -/
lemma Stage.splitHeader (h : Stage A m₀ m p bs fs ff) (hb : b ∈ bs) (hlo : b + 16 ≤ s)
    (hhi : s + 16 ≤ b + m.size b + 16) :
    ∃ m', m' = ((m.setSize s n).setIsAllocated s 0).setParentPage s
        (((m.setSize s n).setIsAllocated s 0).parentPage b) ∧
      Stage A m₀ m' p bs fs ff ∧ m'.size s = n ∧ m'.parentPage s = p ∧ m'.isAllocated s = 0 ∧
      m'.size b = m.size b := by
  have h₁ : Stage A m₀ (m.setSize s n) p bs fs ff := h.payload hb hlo (by omega) n
  have hsize₁ : (m.setSize s n).size b = m.size b := mem_store_of_ne (by omega) _
  have h₂ : Stage A m₀ ((m.setSize s n).setIsAllocated s 0) p bs fs ff :=
    h₁.payload hb (by omega) (by omega) _
  have hsize₂ : ((m.setSize s n).setIsAllocated s 0).size b = m.size b :=
    (mem_store_of_ne (by omega) _).trans hsize₁
  have hparent := h₂.page.parent b hb
  refine ⟨_, rfl, h₂.payload hb (by omega) (by omega) _, ?_, ?_, ?_, ?_⟩
  · simp (disch := omega) [size, mem_store_of_ne]
  · rw [hparent]
    exact mem_store_self ..
  · simp (disch := omega) [isAllocated, mem_store_of_ne]
  · exact (mem_store_of_ne (by omega) _).trans hsize₂

/-- The stores of a split after the size of the block is lowered: the flag, and the list. -/
lemma Stage.splitLinks (h : Stage A m₀ m p bs (fs₁ ++ b :: fs₂) (s :: (fs₁ ++ b :: fs₂)))
    (hprev : 0 :: fs₁ = l ++ [prev]) (hs : s ∈ bs) (hnew : s ∉ fs₁ ++ b :: fs₂) :
    Stage A m₀
      ((((m.setIsAllocated b 1).setNextMemBlock s ((m.setIsAllocated b 1).nextMemBlock b)).relink
      prev b s).setNextMemBlock b 0) p bs (fs₁ ++ s :: fs₂) (fs₁ ++ s :: fs₂) := by
  have hnd := h.page.nodup
  have hb : b ∈ bs := h.page.sub b (List.mem_append_right _ List.mem_cons_self)
  have hne : b ≠ s := fun heq => hnew (heq ▸ List.mem_append_right _ List.mem_cons_self)
  have hout : b ∉ fs₁ ++ s :: fs₂ := by
    have hfree : b ∉ fs₁ ++ fs₂ := (List.nodup_middle.mp hnd).notMem
    simp only [List.mem_append, List.mem_cons, not_or] at hfree ⊢
    tauto
  have hnd' : (fs₁ ++ s :: fs₂).Nodup := by
    refine List.nodup_middle.mpr (List.nodup_cons.mpr ⟨fun hmem => hnew ?_, ?_⟩)
    · simp only [List.mem_append, List.mem_cons] at hmem ⊢
      tauto
    · exact (List.nodup_middle.mp hnd).of_cons
  have h₁ : Stage A m₀ (m.setIsAllocated b 1) p bs (fs₁ ++ b :: fs₂) (fs₁ ++ s :: fs₂) := by
    refine h.setFlag hb (by omega) ?_ fun c hc => ?_
    · simpa using hout
    · simp only [List.mem_append, List.mem_cons]
      tauto
  obtain ⟨m₁, hm₁⟩ : ∃ m₁, m₁ = m.setIsAllocated b 1 := ⟨_, rfl⟩
  rw [← hm₁] at h₁ ⊢
  have h₂ := h₁.setNext hs hnew (m₁.nextMemBlock b)
  -- the second part has the link of the whole
  have hlist : Lseg (m₁.setNextMemBlock s (m₁.nextMemBlock b)).nextMemBlock s (s :: fs₂) 0 := by
    obtain ⟨z, -, rfl, hrest⟩ := lseg_append.mp h₁.page.list
    rw [nextMemBlock_setNextMemBlock, lseg_cons, Function.update_self]
    refine ⟨rfl, hrest.update fun hmem => hnew ?_⟩
    exact List.mem_append_right _ (List.mem_cons_of_mem _ hmem)
  have h₃ := h₂.relink hprev hlist hnd' fun c hc => by
    by_cases heq : c = s
    · exact heq ▸ hs
    · refine h.page.sub c ?_
      simp only [List.mem_append, List.mem_cons] at hc ⊢
      tauto
  exact h₃.setNext hb hout 0

/-- **Taking a part of a block.** What is left is a block of the list, in the place of the whole.

**Proof sketch.** The header of the second part is written into the payload of the block, where
nothing reads it. Lowering the size of the block makes the second part a block of the page block,
and then it takes the place of the first one on the list. -/
theorem Stage.splitBlock {sz : ℕ}
    (h : Stage A m₀ m p (bs₁ ++ b :: bs₂) (fs₁ ++ b :: fs₂) (fs₁ ++ b :: fs₂))
    (hprev : 0 :: fs₁ = l ++ [prev]) (hwrap : alignUp sz + 40 < 2 ^ 32)
    (hleft : alignUp sz + 16 ≤ m.size b) (hs : s = b + (alignUp sz + 16)) (hA : ¬A b) :
    Stage A m₀ (m.splitBlock sz prev b) p (bs₁ ++ b :: s :: bs₂) (fs₁ ++ s :: fs₂)
      (fs₁ ++ s :: fs₂) ∧
      (m.splitBlock sz prev b).size b = alignUp sz := by
  have hb : b ∈ bs₁ ++ b :: bs₂ := List.mem_append_right _ List.mem_cons_self
  have hbounds := h.page.bounds hb
  have hbound := h.page.bound
  have htarget : targetSize sz = alignUp sz + 16 := by rw [targetSize]; omega
  have haddr : splitAddr sz b = s := by rw [splitAddr, htarget]; omega
  have hn : sub32 (m.size b) (targetSize sz) = m.size b - (alignUp sz + 16) := by
    rw [htarget, sub32]
    omega
  have hnew : s ∉ fs₁ ++ b :: fs₂ := by
    intro hmem
    have hapart := h.page.apart hb (h.page.sub s hmem) (by omega)
    omega
  obtain ⟨m₁, hm₁, h₁, hsize, hparent, hflag, hsizeb⟩ :=
    h.splitHeader (s := s) (n := m.size b - (alignUp sz + 16)) hb (by omega) (by omega)
  have h₂ := h₁.cut hs (by omega) hparent hflag hA
  -- seen from the memory where the block has its new size, it keeps it
  have hafter : Stage (fun c => c = b) (m₁.setSize b (alignUp sz)) (m₁.setSize b (alignUp sz)) p
      (bs₁ ++ b :: s :: bs₂) (fs₁ ++ b :: fs₂) (s :: (fs₁ ++ b :: fs₂)) :=
    ⟨h₂.page, h₂.flags, ⟨fun _ _ => rfl, rfl, rfl⟩, fun c hc => ⟨by simp [hc], rfl⟩⟩
  rw [Arena.splitBlock]
  simp only [haddr, hn, ← hm₁]
  refine ⟨h₂.splitLinks hprev (by simp) hnew, ?_⟩
  rw [((hafter.splitLinks hprev (by simp) hnew).kept b rfl).2]
  exact mem_store_self ..

/-! ## Branches of `free` -/

/-- **Putting a block at the end of the list.** The word it is linked from is `free_blocks` when the
list is empty. -/
theorem Stage.append (h : Stage A m₀ m p bs fs (fs ++ [b])) (hb : b ∈ bs) (hout : b ∉ fs)
    (hnext : m.nextMemBlock b = 0) (hlast : (p + 4) :: fs = l ++ [a]) :
    Stage A m₀ (m.setNextMemBlock a b) p bs (fs ++ [b]) (fs ++ [b]) := by
  have hchain : (p + 4) :: (fs ++ [b]) = l ++ a :: [b] := by
    rw [← List.cons_append, hlast]
    simp
  refine h.setLink hlast hchain ⟨rfl, hnext⟩ ?_ fun c hc => ?_
  · exact h.page.nodup.append (by simp) (by simpa using hout)
  · rcases List.mem_append.mp hc with hc | hc
    · exact h.page.sub c hc
    · rw [List.mem_singleton.mp hc]
      exact hb

/-- The second of two neighbours, moved to the front. -/
lemma perm_second : (bs₁ ++ a :: b :: bs₂).Perm (b :: (bs₁ ++ a :: bs₂)) := by
  have hmid : ((bs₁ ++ [a]) ++ b :: bs₂).Perm (b :: ((bs₁ ++ [a]) ++ bs₂)) := List.perm_middle
  simpa using hmid

/-- **Making a block part of the one before it.** -/
theorem Stage.merge (h : Stage A m₀ m p (bs₁ ++ a :: b :: bs₂) fs (fs ++ [b])) (hout : b ∉ fs)
    (hn : n = m.size a + m.size b + 16) (hA : ∀ c, A c → c ≠ a ∧ c ≠ b) :
    Stage A m₀ (m.setSize a n) p (bs₁ ++ a :: bs₂) fs fs := by
  have hjoin := h.join hout hn hA
  have hnd : (bs₁ ++ a :: b :: bs₂).Nodup := h.page.tiles.nodup fun c _ => Nat.succ_pos _
  refine ⟨hjoin.page, hjoin.flags.of_mem_iff fun c hc => ?_, hjoin.inside, hjoin.kept⟩
  have hne : c ≠ b := by
    rintro rfl
    exact (perm_second.nodup_iff.mp hnd).notMem hc
  simp [hne]

end Arena

end AlphaOS
