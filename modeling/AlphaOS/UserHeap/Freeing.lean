import AlphaOS.UserHeap.Serving

set_option relaxedAutoImplicit false
set_option autoImplicit false

/-!
# Giving a block back

`free` finds out whether all blocks of the page block are free now; then it unmaps the page block.
Otherwise the block becomes part of the last block of the list, or the new last block.

## Main definitions

* `AlphaOS.Arena.Fate.Lists` — `free` puts the block on the list.
* `AlphaOS.Arena.Freed` — the layout after the call has one allocated block less.

## Main results

* `AlphaOS.Arena.PageInv.isPageFree_iff` — `is_page_free` answers as its name says.
* `AlphaOS.Arena.Inv.free_cases` — what a call does.
* `AlphaOS.Arena.Inv.free` — a call gives its block back.
* `AlphaOS.Arena.Inv.free_isSome` — a call returns.
-/

namespace AlphaOS

namespace Arena

open Tiling Linked

variable {m m' : Arena} {L : Layout} {a b c p q x n t fuel addr last : ℕ} {bs fs : List ℕ}

/-! ## `is_page_free` -/

/-- The loop of `is_page_free` adds up the blocks of the list. -/
lemma totalFreeSize_eq {r : ℕ} (hseg : Lseg m.nextMemBlock x fs 0) (hnull : 0 ∉ fs)
    (ht : t < 2 ^ 32) (hr : m.totalFreeSize n t x = some r) :
    r = (t + (fs.map fun b => m.size b + 16).sum) % 2 ^ 32 := by
  induction fs generalizing n t x with
  | nil =>
    obtain rfl : x = 0 := hseg
    cases n with
    | zero => simp [totalFreeSize] at hr
    | succ n =>
      obtain rfl : t = r := by simpa [totalFreeSize] using hr
      simpa using (Nat.mod_eq_of_lt ht).symm
  | cons b fs ih =>
    obtain ⟨rfl, hseg⟩ := hseg
    rw [List.mem_cons, not_or] at hnull
    cases n with
    | zero => simp [totalFreeSize] at hr
    | succ n =>
      rw [totalFreeSize, if_neg (Ne.symm hnull.1)] at hr
      rw [ih hseg hnull.2 (Nat.mod_lt _ (by omega)) hr, List.map_cons, List.sum_cons]
      omega

/-- The loop of `is_page_free` ends. -/
lemma totalFreeSize_isSome (hseg : Lseg m.nextMemBlock x fs 0) (hlen : fs.length < n) (t : ℕ) :
    ∃ r, m.totalFreeSize n t x = some r := by
  induction fs generalizing n t x with
  | nil =>
    obtain rfl : x = 0 := hseg
    obtain ⟨n, rfl⟩ : ∃ k, n = k + 1 := ⟨n - 1, by omega⟩
    exact ⟨t, by simp [totalFreeSize]⟩
  | cons b fs ih =>
    obtain ⟨rfl, hseg⟩ := hseg
    obtain ⟨n, rfl⟩ : ∃ k, n = k + 1 := ⟨n - 1, by omega⟩
    have hn : fs.length < n := by simpa using hlen
    obtain ⟨r, hr⟩ := ih hseg hn ((t + m.size x + 16) % 2 ^ 32)
    by_cases hx : x = 0
    · exact ⟨t, by simp [totalFreeSize, hx]⟩
    · exact ⟨r, by rw [totalFreeSize, if_neg hx, hr]⟩

/-- **`is_page_free` answers as its name says**: the answer is yes when every block of the page
block is on the list or is the one that is freed.

**Proof sketch.** The blocks tile the used part of the page block. Those that are added up have its
width when they are all of them, and only then; the sums are at most `og_size`, so none of them
wraps. -/
theorem PageInv.isPageFree_iff {v : Bool} (h : PageInv m p bs fs) (hb : b ∈ bs) (hout : b ∉ fs)
    (hv : m.isPageFree fuel b = some v) : v = true ↔ ∀ c ∈ bs, c = b ∨ c ∈ fs := by
  have hparent := h.parent b hb
  have hrest := h.rest
  have hbound := h.bound
  have hnd : (b :: fs).Nodup := List.nodup_cons.mpr ⟨hout, h.nodup⟩
  have hsub : ∀ c ∈ b :: fs, c ∈ bs := by
    intro c hc
    rcases List.mem_cons.mp hc with rfl | hc
    · exact hb
    · exact h.sub c hc
  obtain ⟨hle, hall⟩ := h.tiles.sum_le (fun c _ => Nat.succ_pos _) hnd hsub
  have hbs := h.tiles.nodup fun c _ => Nat.succ_pos _
  have hsumAll := h.tiles.sum
  rw [isPageFree, hparent] at hv
  obtain ⟨total, htotal, rfl⟩ := Option.map_eq_some_iff.mp hv
  have hsum := totalFreeSize_eq h.list h.zero_notMem (Nat.mod_lt _ (by omega)) htotal
  have hwidths : (∀ c ∈ bs, c = b ∨ c ∈ fs) →
      ((b :: fs).map fun b => m.size b + 16).sum = (bs.map fun b => m.size b + 16).sum := by
    intro hc
    have hperm : (b :: fs).Perm bs :=
      (List.perm_ext_iff_of_nodup hnd hbs).mpr fun c =>
        ⟨hsub c, fun hmem => List.mem_cons.mpr (hc c hmem)⟩
    exact (hperm.map _).sum_eq
  rw [List.map_cons, List.sum_cons] at hle hall hwidths
  obtain ⟨S, hS⟩ : ∃ S, S = (fs.map fun b => m.size b + 16).sum := ⟨_, rfl⟩
  rw [← hS] at hle hall hsum hwidths
  rw [decide_eq_true_iff]
  constructor
  · intro hog c hc
    exact List.mem_cons.mp (hall (by omega) c hc)
  · intro hc
    have heq := hwidths hc
    omega

/-! ## What `free` decides -/

/-- `free` puts the block on the list. -/
def Fate.Lists : Fate → Prop
  | .first => True
  | .append _ => True
  | _ => False

/-- The tests and the loops of `free` return. -/
lemma PageInv.fate_isSome (h : PageInv m p bs fs) (hb : b ∈ bs) (hlen : fs.length < n) :
    ∃ f, m.fate n b = some f := by
  have hparent := h.parent b hb
  obtain ⟨r, hr⟩ := totalFreeSize_isSome h.list hlen ((m.freeSize p + m.size b + 16 + 24) % 2 ^ 32)
  have hfree : m.isPageFree n b = some (decide (r = m.ogSize p)) := by
    rw [isPageFree, hparent, hr]
    rfl
  rw [fate, hfree, hparent]
  cases decide (r = m.ogSize p) with
  | true => exact ⟨_, rfl⟩
  | false =>
    by_cases hempty : m.freeBlocks p = 0
    · exact ⟨_, if_pos hempty⟩
    · rcases List.eq_nil_or_concat fs with rfl | ⟨l, z, rfl⟩
      · exact absurd h.list hempty
      · rw [List.concat_eq_append] at hlen h
        have hlast := walk_last h.list h.zero_notMem (n := n) (by simp at hlen; omega)
        simp only [if_neg hempty, hlast]
        exact ⟨_, rfl⟩

/-- The last block of the list, when `free` has looked for it. -/
lemma PageInv.last_eq (h : PageInv m p bs fs) (hempty : m.freeBlocks p ≠ 0)
    (hwalk : walk m.nextMemBlock (fun c => m.nextMemBlock c == 0) fuel (m.freeBlocks p) =
      some last) :
    ∃ l, fs = l ++ [last] := by
  rcases List.eq_nil_or_concat fs with rfl | ⟨l, z, rfl⟩
  · exact absurd h.list hempty
  · rw [List.concat_eq_append] at h ⊢
    have hlast := walk_last h.list h.zero_notMem (n := l.length + 1) (by omega)
    exact ⟨l, by rw [walk_unique hwalk hlast]⟩

/-! ## Blocks of a page block -/

/-- The call has given the block at `b` back and changed no other allocated block. -/
structure Freed (m m' : Arena) (L L' : Layout) (b : ℕ) : Prop where
  inv : Inv m' L'
  backed : m.Backed L → m'.Backed L'
  allocated : ∀ c, L'.Allocated c ↔ L.Allocated c ∧ c ≠ b
  sizes : ∀ c, L'.Allocated c → m'.size c = m.size c

/-- The block is marked as free, and it is not on the list yet. -/
lemma Inv.released (h : Inv m L) (hp : p ∈ L.pages) (hb : b ∈ L.blocks p) :
    Stage (fun c => c ∈ L.blocks p ∧ c ∉ L.frees p ∧ c ≠ b) m (m.setIsAllocated b 0) p (L.blocks p)
      (L.frees p) (L.frees p ++ [b]) := by
  refine (h.stage hp fun c hc => hc.1).setFlag hb (by omega) (by simp) fun c hc => ?_
  simp [hc]

/-- Marking the block leaves the sizes. -/
lemma Inv.size_released (h : Inv m L) (hp : p ∈ L.pages) (hb : b ∈ L.blocks p)
    (hc : c ∈ L.blocks p) :
    (m.setIsAllocated b 0).size c = m.size c := by
  by_cases hne : b = c
  · exact mem_store_of_ne (by omega) _
  · have hapart := (h.page p hp).apart hb hc hne
    exact mem_store_of_ne (by omega) _

/-- A call that has worked in one page block has given the block back when the allocated blocks of
the page block are those from before without it. -/
lemma Inv.freed (h : Inv m L) (hp : p ∈ L.pages) (hb : b ∈ L.blocks p)
    (hs : Stage (fun c => c ∈ L.blocks p ∧ c ∉ L.frees p ∧ c ≠ b) m m' p bs fs fs)
    (hiff : ∀ c, c ∈ bs ∧ c ∉ fs ↔ (c ∈ L.blocks p ∧ c ∉ L.frees p) ∧ c ≠ b) :
    Freed m m' L (L.set p bs fs) b := by
  have halloc : ∀ c, (L.set p bs fs).Allocated c ↔ L.Allocated c ∧ c ≠ b := by
    intro c
    have helse : L.Elsewhere p c → c ≠ b := fun hc heq => h.not_elsewhere hp hb (heq ▸ hc)
    rw [Layout.allocated_set hp, Layout.allocated_iff hp, hiff c]
    tauto
  refine ⟨h.finish hp hs, h.backed_inside hp hs.inside, halloc, fun c hc => ?_⟩
  obtain ⟨hc, hne⟩ := (halloc c).mp hc
  exact h.size_of_stage hp hs hc fun hmem => ⟨hmem, h.notMem_frees hp hc hmem, hne⟩

/-- The block is put after the last block of the list, `free_blocks` standing before the first one.
-/
lemma Inv.freed_append {l : List ℕ} (h : Inv m L) (hp : p ∈ L.pages) (hb : b ∈ L.blocks p)
    (hout : b ∉ L.frees p) (hnext : m.nextMemBlock b = 0)
    (hlast : (p + 4) :: L.frees p = l ++ [a]) :
    Freed m ((m.setIsAllocated b 0).setNextMemBlock a b) L
      (L.set p (L.blocks p) (L.frees p ++ [b])) b := by
  have hnext' : (m.setIsAllocated b 0).nextMemBlock b = 0 :=
    (mem_store_of_ne (by omega) _).trans hnext
  refine h.freed hp hb ((h.released hp hb).append hb hout hnext' hlast) fun c => ?_
  rw [List.mem_append, List.mem_singleton, not_or, and_assoc]

/-- The block becomes part of the last block of the list. -/
lemma Inv.freed_merge (h : Inv m L) (hp : p ∈ L.pages) (hb : b ∈ L.blocks p) (hout : b ∉ L.frees p)
    (hlast : last ∈ L.frees p) (hend : (last + m.size last + 16) % 2 ^ 32 = b) :
    ∃ bs₁ bs₂, L.blocks p = bs₁ ++ last :: b :: bs₂ ∧
      Freed m ((m.setIsAllocated b 0).setSize last ((m.size last + m.size b + 16) % 2 ^ 32)) L
        (L.set p (bs₁ ++ last :: bs₂) (L.frees p)) b := by
  have hpage := h.page p hp
  have hlastb := hpage.sub last hlast
  have hbounds := hpage.bounds hlastb
  have hbounds' := hpage.bounds hb
  have hbound := hpage.bound
  obtain ⟨bs₁, bs₂, hbs⟩ := hpage.tiles.neighbours (fun c _ => Nat.succ_pos _) hlastb hb (by omega)
  have hs := h.released hp hb
  have hnd : (L.blocks p).Nodup := hpage.tiles.nodup fun c _ => Nat.succ_pos _
  rw [hbs] at hs
  have hmerged := hs.merge (n := (m.size last + m.size b + 16) % 2 ^ 32) hout ?_ ?_
  · refine ⟨bs₁, bs₂, hbs, h.freed hp hb (by rwa [hbs]) fun c => ?_⟩
    rw [hbs] at hnd ⊢
    have hnotMem := (perm_second.nodup_iff.mp hnd).notMem
    rw [perm_second.mem_iff, List.mem_cons]
    by_cases hcb : c = b
    · subst hcb
      simp [hnotMem]
    · simp [hcb]
  · rw [h.size_released hp hb hlastb, h.size_released hp hb hb]
    omega
  · rintro c ⟨-, hfree, hne⟩
    exact ⟨fun heq => hfree (heq ▸ hlast), hne⟩

/-! ## Page blocks -/

/-- A store under a condition. -/
lemma mem_ite_store (m : Arena) (P : Prop) [Decidable P] (x v y : ℕ) :
    (if P then m.store x v else m).mem y = if P ∧ y = x then v else m.mem y := by
  by_cases hP : P
  · by_cases hy : y = x
    · simp [hP, hy]
    · simp [hP, hy, mem_store_of_ne hy]
  · simp [hP]

/-- What is written when a page block is taken out of the list: a link of each of its neighbours,
and `mem_pool`. -/
lemma unlinkPage_eq {nx pv : ℕ} (hnx : m.nextPageBlock p = nx) (hpv : m.prevPageBlock p = pv)
    (hnext : nx = 0 ∨ nx + 24 ≤ p ∨ p + 24 ≤ nx) (hprev : pv = 0 ∨ pv + 24 ≤ p ∨ p + 24 ≤ pv) :
    (∀ x, (m.unlinkPage p).mem x = if pv ≠ 0 ∧ x = pv + 16 then nx
      else if nx ≠ 0 ∧ x = nx + 20 then pv else m.mem x) ∧
    (m.unlinkPage p).memPool = (if m.memPool = p then nx else m.memPool) ∧
    (m.unlinkPage p).mapped = m.mapped := by
  obtain ⟨m₂, hm₂⟩ : ∃ m₂, m₂ = if nx ≠ 0 then m.setPrevPageBlock nx pv else m := ⟨_, rfl⟩
  have hmem₂ : ∀ x, m₂.mem x = if nx ≠ 0 ∧ x = nx + 20 then pv else m.mem x := by
    intro x
    rw [hm₂]
    exact mem_ite_store ..
  have hpv₂ : m₂.prevPageBlock p = pv := by
    rw [prevPageBlock, hmem₂, if_neg (by omega)]
    exact hpv
  have hnx₂ : m₂.nextPageBlock p = nx := by
    rw [nextPageBlock, hmem₂, if_neg (by omega)]
    exact hnx
  obtain ⟨m₃, hm₃⟩ : ∃ m₃, m₃ = if pv ≠ 0 then m₂.setNextPageBlock pv nx else m₂ := ⟨_, rfl⟩
  have hmem₃ : ∀ x, m₃.mem x = if pv ≠ 0 ∧ x = pv + 16 then nx else m₂.mem x := by
    intro x
    rw [hm₃]
    exact mem_ite_store ..
  have hnx₃ : m₃.nextPageBlock p = nx := by
    rw [nextPageBlock, hmem₃, if_neg (by omega)]
    exact hnx₂
  have hpool : m₃.memPool = m.memPool ∧ m₃.mapped = m.mapped := by
    rw [hm₃, hm₂]
    split_ifs <;> exact ⟨rfl, rfl⟩
  have heq : m.unlinkPage p = if p = m₃.memPool then { m₃ with memPool := nx } else m₃ := by
    simp only [unlinkPage, hnx, hpv, ← hm₂, hnx₂, hpv₂, ← hm₃, hnx₃]
  rw [heq, hpool.1]
  by_cases hhead : p = m.memPool
  · rw [if_pos hhead, if_pos hhead.symm]
    exact ⟨fun x => (hmem₃ x).trans (by rw [hmem₂]), rfl, hpool.2⟩
  · rw [if_neg hhead, if_neg (Ne.symm hhead)]
    exact ⟨fun x => (hmem₃ x).trans (by rw [hmem₂]), hpool.1, hpool.2⟩
/-- A page block is dropped. -/
def Layout.dropPage (L : Layout) (l₁ l₂ : List ℕ) : Layout := { L with pages := l₁ ++ l₂ }

/-- The other page blocks of a list. -/
lemma Inv.mem_other {l₁ l₂ : List ℕ} (h : Inv m L) (hpages : L.pages = l₁ ++ p :: l₂) :
    q ∈ l₁ ++ l₂ ↔ q ∈ L.pages ∧ q ≠ p := by
  have hnd := h.pool.1
  rw [hpages] at hnd ⊢
  have hout := (List.nodup_middle.mp hnd).notMem
  by_cases hqp : q = p
  · subst hqp
    simp [hout]
  · simp [hqp]

/-- The allocated blocks without those of one page block. -/
lemma Inv.allocated_dropPage {l₁ l₂ : List ℕ} (h : Inv m L) (hpages : L.pages = l₁ ++ p :: l₂) :
    (L.dropPage l₁ l₂).Allocated c ↔ L.Elsewhere p c := by
  constructor
  · rintro ⟨q, hq, hb⟩
    obtain ⟨hq, hne⟩ := (h.mem_other hpages).mp hq
    exact ⟨q, hq, hne, hb⟩
  · rintro ⟨q, hq, hne, hb⟩
    exact ⟨q, (h.mem_other hpages).mpr ⟨hq, hne⟩, hb⟩

/-- The memory stands for the layout without one of its page blocks. -/
lemma Inv.dropPage {l₁ l₂ : List ℕ} (h : Inv m L) (hpages : L.pages = l₁ ++ p :: l₂)
    (hmem : ∀ q ∈ l₁ ++ l₂, ∀ x, q ≤ x → x < q + m.ogSize q → x ≠ q + 16 → x ≠ q + 20 →
      m'.mem x = m.mem x)
    (hpool : Dlist 0 m'.nextPageBlock m'.prevPageBlock m'.memPool (l₁ ++ l₂)) :
    Inv m' (L.dropPage l₁ l₂) := by
  have hog : ∀ q ∈ l₁ ++ l₂, m'.ogSize q = m.ogSize q := by
    intro q hq
    have hheader := (h.page q ((h.mem_other hpages).mp hq).1).header_le
    exact hmem q hq q le_rfl (by omega) (by omega) (by omega)
  refine ⟨hpool, fun q hq => ?_, fun q hq => ?_, fun q hq r hr hne => ?_⟩
  · have hpage := h.page q ((h.mem_other hpages).mp hq).1
    have hheader := hpage.header_le
    refine hpage.congr (fun k hk => hmem q hq _ (by omega) (by omega) (by omega) (by omega))
      fun b hb k hk => ?_
    have hbounds := hpage.bounds hb
    exact hmem q hq _ (by omega) (by omega) (by omega) (by omega)
  · have hqL := ((h.mem_other hpages).mp hq).1
    refine (h.flags q hqL).congr fun b hb => ?_
    have hbounds := (h.page q hqL).bounds hb
    exact hmem q hq _ (by omega) (by omega) (by omega) (by omega)
  · rw [hog q hq, hog r hr]
    exact h.apart q ((h.mem_other hpages).mp hq).1 r ((h.mem_other hpages).mp hr).1 hne

/-- A word is in one page block only. -/
lemma Inv.same_page (h : Inv m L) (hp : p ∈ L.pages) (hq : q ∈ L.pages) (hlo : p ≤ x)
    (hhi : x < p + m.ogSize p) (hlo' : q ≤ x) (hhi' : x < q + m.ogSize q) : p = q := by
  by_contra hne
  have hapart := h.apart p hp q hq hne
  omega

/-- The page block is taken out of the list and unmapped, when the memory differs from one that
stands for the layout inside of this page block only. -/
lemma Inv.unmapped {m₁ : Arena} (h : Inv m L) (hp : p ∈ L.pages) (hin : Inside m m₁ p) :
    ∃ l₁ l₂, L.pages = l₁ ++ p :: l₂ ∧ Inv (m₁.unmapFreePage p) (L.dropPage l₁ l₂) ∧
      (m₁.unmapFreePage p).mapped = (m.munmap p (m.ogSize p)).mapped ∧
      ∀ q ∈ l₁ ++ l₂, ∀ x, q ≤ x → x < q + m.ogSize q → x ≠ q + 16 → x ≠ q + 20 →
        (m₁.unmapFreePage p).mem x = m.mem x := by
  obtain ⟨l₁, l₂, hpages⟩ := List.append_of_mem hp
  have hpool : Dlist 0 m₁.nextPageBlock m₁.prevPageBlock m₁.memPool (l₁ ++ p :: l₂) := by
    rw [hin.memPool, ← hpages]
    exact h.pool.congr fun q hq => hin.links h hp hq
  obtain ⟨nx, hnx⟩ : ∃ nx, m₁.nextPageBlock p = nx := ⟨_, rfl⟩
  obtain ⟨pv, hpv⟩ : ∃ pv, m₁.prevPageBlock p = pv := ⟨_, rfl⟩
  have hunlink := hpool.unlink
  obtain ⟨hnext, hprev⟩ := hpool.neighbours
  rw [hnx] at hnext hunlink
  rw [hpv] at hprev hunlink
  have hother : ∀ q ∈ l₁ ++ l₂, q ∈ L.pages ∧ q ≠ p := fun q hq => (h.mem_other hpages).mp hq
  have hheader : ∀ q ∈ L.pages, 24 ≤ m.ogSize q := by
    intro q hq
    have hle := (h.page q hq).header_le
    omega
  -- the links that are written are in the headers of other page blocks
  have hsep : ∀ y, y = 0 ∨ y ∈ l₁ ++ l₂ → ∀ q ∈ L.pages, ∀ x, q ≤ x → x < q + m.ogSize q → ∀ k < 24,
      y ≠ 0 → x = y + k → y = q := by
    intro y hy q hq x hlo hhi k hk hne heq
    have hyL := (hother y (hy.resolve_left hne)).1
    have hyHeader := hheader y hyL
    exact h.same_page hyL hq (x := x) (by omega) (by omega) hlo hhi
  have hnext' : nx = 0 ∨ nx ∈ l₁ ++ l₂ := hnext.imp_right (List.mem_append_right _)
  have hprev' : pv = 0 ∨ pv ∈ l₁ ++ l₂ := hprev.imp_right (List.mem_append_left _)
  have hpapart : ∀ y, y = 0 ∨ y ∈ l₁ ++ l₂ → y = 0 ∨ y + 24 ≤ p ∨ p + 24 ≤ y := by
    intro y hy
    refine hy.imp_right fun hmem => ?_
    obtain ⟨hyL, hne⟩ := hother y hmem
    have hapart := h.apart y hyL p hp hne
    have hyHeader := hheader y hyL
    have hpHeader := hheader p hp
    omega
  obtain ⟨hmem, hhead, hmap⟩ := unlinkPage_eq hnx hpv (hpapart nx hnext') (hpapart pv hprev')
  have hwords : ∀ q ∈ l₁ ++ l₂, ∀ x, q ≤ x → x < q + m.ogSize q → x ≠ q + 16 → x ≠ q + 20 →
      (m₁.unlinkPage p).mem x = m.mem x := by
    intro q hq x hlo hhi h16 h20
    obtain ⟨hqL, hqp⟩ := hother q hq
    have hprevq := hsep pv hprev' q hqL x hlo hhi 16 (by omega)
    have hnextq := hsep nx hnext' q hqL x hlo hhi 20 (by omega)
    rw [hmem, if_neg, if_neg]
    · exact hin.other h hp hqL (Ne.symm hqp) hlo hhi
    · rintro ⟨hne, heq⟩
      exact h20 (hnextq hne heq ▸ heq)
    · rintro ⟨hne, heq⟩
      exact h16 (hprevq hne heq ▸ heq)
  have hlinks : ∀ q ∈ l₁ ++ l₂,
      (m₁.unlinkPage p).nextPageBlock q = Linked.store 0 m₁.nextPageBlock pv nx q ∧
      (m₁.unlinkPage p).prevPageBlock q = Linked.store 0 m₁.prevPageBlock nx pv q := by
    intro q hq
    have hqL := (hother q hq).1
    have hqHeader := hheader q hqL
    have hprevq := hsep pv hprev' q hqL
    have hnextq := hsep nx hnext' q hqL
    constructor
    · rw [nextPageBlock, hmem]
      have hoff : ¬(nx ≠ 0 ∧ q + 16 = nx + 20) := by
        rintro ⟨hne, heq⟩
        have hsame := hnextq (q + 16) (by omega) (by omega) 20 (by omega) hne heq
        omega
      by_cases hpq : pv ≠ 0 ∧ q = pv
      · obtain ⟨hne, rfl⟩ := hpq
        rw [if_pos ⟨hne, rfl⟩, Linked.store_self hne]
      · rw [if_neg (by omega), if_neg hoff, Linked.store_of_nil_or_ne (by omega)]
        rfl
    · rw [prevPageBlock, hmem]
      have hoff : ¬(pv ≠ 0 ∧ q + 20 = pv + 16) := by
        rintro ⟨hne, heq⟩
        have hsame := hprevq (q + 20) (by omega) (by omega) 16 (by omega) hne heq
        omega
      rw [if_neg hoff]
      by_cases hnq : nx ≠ 0 ∧ q = nx
      · obtain ⟨hne, rfl⟩ := hnq
        rw [if_pos ⟨hne, rfl⟩, Linked.store_self hne]
      · rw [if_neg (by omega), Linked.store_of_nil_or_ne (by omega)]
        rfl
  have hog : (m₁.unlinkPage p).ogSize p = m.ogSize p := by
    have hpn := hpapart nx hnext'
    have hpp := hpapart pv hprev'
    rw [ogSize, hmem, if_neg (by omega), if_neg (by omega)]
    exact hin.ogSize_eq
  refine ⟨l₁, l₂, hpages, h.dropPage hpages hwords ?_, ?_, hwords⟩
  · change Dlist 0 (m₁.unlinkPage p).nextPageBlock (m₁.unlinkPage p).prevPageBlock
      (m₁.unlinkPage p).memPool (l₁ ++ l₂)
    rw [hhead]
    exact hunlink.congr hlinks
  · simp only [unmapFreePage, munmap, hog, hmap, hin.mapped]

/-- The other page blocks stay mapped when one is unmapped. -/
lemma Inv.backed_dropPage {l₁ l₂ : List ℕ} (h : Inv m L) (hp : p ∈ L.pages)
    (hpages : L.pages = l₁ ++ p :: l₂) (hmap : m'.mapped = (m.munmap p (m.ogSize p)).mapped)
    (hog : ∀ q ∈ l₁ ++ l₂, m'.ogSize q = m.ogSize q) (hback : m.Backed L) :
    m'.Backed (L.dropPage l₁ l₂) := by
  intro q hq
  obtain ⟨hqL, hqp⟩ := (h.mem_other hpages).mp hq
  rw [hog q hq]
  refine ⟨(hback q hqL).1, fun x hlo hhi => ?_⟩
  have hwhole := (hback p hp).1
  have hapart := h.apart q hqL p hp hqp
  have hregion : regionSize (m.ogSize p) = m.ogSize p := by
    rw [regionSize]
    omega
  have hxout : inRegion p (m.ogSize p) x = false := by
    rw [inRegion, hregion]
    exact decide_eq_false (by omega)
  have hx := (hback q hqL).2 x hlo hhi
  simp only [hmap, munmap, hx, hxout, Bool.not_false, Bool.and_self]

/-- The page block is unmapped, all its blocks being free. -/
lemma Inv.freed_unmap (h : Inv m L) (hp : p ∈ L.pages) (hb : b ∈ L.blocks p)
    (hall : ∀ c ∈ L.blocks p, c = b ∨ c ∈ L.frees p) :
    ∃ l₁ l₂, L.pages = l₁ ++ p :: l₂ ∧
      Freed m ((m.setIsAllocated b 0).unmapFreePage p) L (L.dropPage l₁ l₂) b := by
  obtain ⟨l₁, l₂, hpages, hinv, hmap, hmem⟩ := h.unmapped hp (h.released hp hb).inside
  refine ⟨l₁, l₂, hpages, hinv, h.backed_dropPage hp hpages hmap fun q hq => ?_, fun c => ?_,
    fun c hc => ?_⟩
  · have hheader := (h.page q ((h.mem_other hpages).mp hq).1).header_le
    exact hmem q hq q le_rfl (by omega) (by omega) (by omega)
  · have helse : L.Elsewhere p c → c ≠ b := fun hc heq => h.not_elsewhere hp hb (heq ▸ hc)
    have hhere : c ∈ L.blocks p ∧ c ∉ L.frees p → c = b :=
      fun hc => (hall c hc.1).resolve_right hc.2
    rw [h.allocated_dropPage hpages, Layout.allocated_iff hp]
    tauto
  · obtain ⟨q, hq, hcq, -⟩ := hc
    have hbounds := (h.page q ((h.mem_other hpages).mp hq).1).bounds hcq
    exact hmem q hq c (by omega) (by omega) (by omega) (by omega)

/-! ## Calls of `free` -/

/-- The block is not put on the list with a link that is not null. -/
def Unlinked (m : Arena) (b : ℕ) : Prop :=
  ∀ fuel f, (m.setIsAllocated b 0).fate fuel b = some f → f.Lists → m.nextMemBlock b = 0

/-- The header of the block that a pointer belongs to. -/
lemma sub32_payload (h : b + 16 < 2 ^ 32) : sub32 (b + 16) 16 = b := by
  rw [sub32]
  omega

/-- **What a call of `free` does.** It unmaps the page block, it makes the block the last of the
list, or it makes it part of the last block of the list. -/
theorem Inv.free_cases (h : Inv m L) (hp : p ∈ L.pages) (hb : b ∈ L.blocks p)
    (hout : b ∉ L.frees p) (hr : m.free fuel (b + 16) = some m') :
    ∃ f, (m.setIsAllocated b 0).fate fuel b = some f ∧
      ((f = .unmap ∧ (∀ c ∈ L.blocks p, c = b ∨ c ∈ L.frees p) ∧
          m' = (m.setIsAllocated b 0).unmapFreePage p) ∨
        (¬∀ c ∈ L.blocks p, c = b ∨ c ∈ L.frees p) ∧
          ((f.Lists ∧ ∃ l a, (p + 4) :: L.frees p = l ++ [a] ∧
              m' = (m.setIsAllocated b 0).setNextMemBlock a b) ∨
            ∃ l last, f = .merge last ∧ L.frees p = l ++ [last] ∧
              (last + m.size last + 16) % 2 ^ 32 = b ∧
              m' = (m.setIsAllocated b 0).setSize last
                ((m.size last + m.size b + 16) % 2 ^ 32))) := by
  have hlt := h.allocated_lt ⟨p, hp, hb, hout⟩
  have hs := h.released hp hb
  have hparent := hs.page.parent b hb
  rw [Arena.free, release, sub32_payload (by omega)] at hr
  obtain ⟨f, hf, rfl⟩ := Option.map_eq_some_iff.mp hr
  refine ⟨f, hf, ?_⟩
  rw [fate, hparent] at hf
  split at hf
  · cases hf
  next htrue =>
    obtain rfl : Fate.unmap = f := Option.some.inj hf
    refine .inl ⟨rfl, (hs.page.isPageFree_iff hb hout htrue).mp rfl, ?_⟩
    rw [dispose, hparent]
  next hfalse =>
    have hnot := mt (hs.page.isPageFree_iff hb hout hfalse).mpr Bool.false_ne_true
    refine .inr ⟨hnot, ?_⟩
    split_ifs at hf with hempty
    · obtain rfl : Fate.first = f := Option.some.inj hf
      -- the list is empty, and the word that leads to its first block is `free_blocks`
      have hnil : L.frees p = [] := by
        have hlist := hs.page.list
        have hnull := hs.page.zero_notMem
        rw [hempty] at hlist
        cases hfs : L.frees p with
        | nil => rfl
        | cons c fs =>
          rw [hfs] at hlist hnull
          exact absurd (hlist.eq_head ▸ List.mem_cons_self) hnull
      refine .inl ⟨trivial, [], p + 4, by rw [hnil]; rfl, ?_⟩
      rw [dispose, hparent]
      rfl
    · obtain ⟨last, hwalk, rfl⟩ := Option.map_eq_some_iff.mp hf
      obtain ⟨l, hl⟩ := hs.page.last_eq hempty hwalk
      have hlastb := (h.page p hp).sub last (by simp [hl])
      split_ifs with hmerge
      · rw [h.size_released hp hb hlastb] at hmerge
        refine .inr ⟨l, last, rfl, hl, hmerge.2, ?_⟩
        rw [dispose, h.size_released hp hb hlastb, h.size_released hp hb hb]
      · exact .inl ⟨trivial, (p + 4) :: l, last, by rw [hl]; rfl, rfl⟩

/-- **A call of `free` gives its block back**: it changes no other allocated block. -/
theorem Inv.free (h : Inv m L) (hb : L.Allocated b) (hok : m.Unlinked b)
    (hr : m.free fuel (b + 16) = some m') : ∃ L', Freed m m' L L' b := by
  obtain ⟨p, hp, hmem, hout⟩ := hb
  obtain ⟨f, hf, ⟨-, hall, rfl⟩ | ⟨-, ⟨hlists, l, a, hlast, rfl⟩ | ⟨l, last, -, hl, hend, rfl⟩⟩⟩ :=
    h.free_cases hp hmem hout hr
  · obtain ⟨l₁, l₂, -, hfreed⟩ := h.freed_unmap hp hmem hall
    exact ⟨_, hfreed⟩
  · exact ⟨_, h.freed_append hp hmem hout (hok fuel f hf hlists) hlast⟩
  · obtain ⟨bs₁, bs₂, -, hfreed⟩ := h.freed_merge hp hmem hout (by simp [hl]) hend
    exact ⟨_, hfreed⟩

/-- **A call of `free` returns.** -/
theorem Inv.free_isSome (h : Inv m L) (hb : L.Allocated b) :
    ∃ fuel m', m.free fuel (b + 16) = some m' := by
  have hlt := h.allocated_lt hb
  obtain ⟨p, hp, hmem, -⟩ := hb
  obtain ⟨f, hf⟩ :=
    (h.released hp hmem).page.fate_isSome hmem (n := (L.frees p).length + 1) (by omega)
  refine ⟨(L.frees p).length + 1, (m.setIsAllocated b 0).dispose b f, ?_⟩
  rw [Arena.free, release, sub32_payload (by omega), hf, Option.map_some]

end Arena

end AlphaOS
