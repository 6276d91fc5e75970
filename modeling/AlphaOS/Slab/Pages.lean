import AlphaOS.Slab.Steps

set_option relaxedAutoImplicit false
set_option autoImplicit false

/-!
# The pages of the slab allocator

Which pages the calls map and unmap, in every run of `kmalloc` and `kfree` that stays in the
allocator's data. The lists of the caches do not matter here: a head that is out of date can only
lead to a slab, and every slab knows its objects.

## Main definitions

* `AlphaOS.Slabs.kfreePages` — the number of pages that `kfree` gives to `unmmap`.
* `AlphaOS.Slabs.Relinked` — a change of the lists only.
* `AlphaOS.Slabs.Grown`, `AlphaOS.Slabs.Shrunk` — what `kmalloc` and `kfree` do to the pages.
* `AlphaOS.Kheap.Paged` — the invariant without the lists.

## Main results

* `AlphaOS.Slabs.grown_kmalloc`, `AlphaOS.Slabs.shrunk_kfree` — the two functions and the pages.
* `AlphaOS.Kheap.Paged.kmalloc`, `AlphaOS.Kheap.Paged.kfree` — the two functions keep the invariant.

## Design

`AlphaOS.Kheap.Inv` needs the lists to be right, so it holds of the runs in which `kmalloc` for the
last class finds no head. `AlphaOS.Kheap.Paged` is kept by every call.
-/

namespace AlphaOS

namespace Slabs

variable {s s' s'' : Slabs} {c : Fin 8} {a b n page p ptr size v : ℕ}

/-- The number of pages that `kfree` gives to `unmmap`. -/
def kfreePages (s : Slabs) (ptr : ℕ) : ℕ :=
  match s.cacheOwner (alignDown4k ptr) with
  | none => s.totalCount (alignDown4k ptr)
  | some _ =>
    if (s.freeCount (alignDown4k ptr) + 1) % 2 ^ 16 = s.totalCount (alignDown4k ptr) then 1 else 0

/-! ## Changes of the lists -/

/-- The states differ in the links and heads of the lists only. -/
structure Relinked (s s' : Slabs) : Prop where
  cacheOwner : s'.cacheOwner = s.cacheOwner
  totalCount : s'.totalCount = s.totalCount
  freeCount : s'.freeCount = s.freeCount
  freeList : s'.freeList = s.freeList
  mapped : s'.mapped = s.mapped

/-- Nothing has been linked. -/
lemma Relinked.refl (s : Slabs) : Relinked s s := ⟨rfl, rfl, rfl, rfl, rfl⟩

/-- Two changes of links are one. -/
lemma Relinked.trans (h : Relinked s s') (h' : Relinked s' s'') : Relinked s s'' :=
  ⟨h'.cacheOwner.trans h.cacheOwner, h'.totalCount.trans h.totalCount,
    h'.freeCount.trans h.freeCount, h'.freeList.trans h.freeList, h'.mapped.trans h.mapped⟩

/-- A backward link. -/
lemma relinked_storePrev (h : s.storePrev a v = some s') : Relinked s s' := by
  rw [storePrev] at h
  split_ifs at h
  obtain rfl := Option.some.inj h
  exact ⟨rfl, rfl, rfl, rfl, rfl⟩

/-- A forward link. -/
lemma relinked_storeNext (h : s.storeNext a v = some s') : Relinked s s' := by
  rw [storeNext] at h
  split_ifs at h
  obtain rfl := Option.some.inj h
  exact ⟨rfl, rfl, rfl, rfl, rfl⟩

/-- A slab taken out of its list. -/
lemma relinked_unlink (h : s.unlink a = some s') : Relinked s s' := by
  obtain ⟨s₁, h₁, h₂⟩ := Option.bind_eq_some_iff.mp h
  exact (relinked_storeNext h₁).trans (relinked_storePrev h₂)

/-- A slab put on the full list. -/
lemma relinked_pushFull (h : s.pushFull c a = some s') : Relinked s s' := by
  obtain ⟨s₁, h₁, h₂⟩ := Option.bind_eq_some_iff.mp h
  obtain rfl := Option.some.inj h₂
  exact (relinked_storePrev h₁).trans ⟨rfl, rfl, rfl, rfl, rfl⟩

/-- A slab put on the partial list. -/
lemma relinked_pushPartial (h : s.pushPartial c a = some s') : Relinked s s' := by
  obtain ⟨s₁, h₁, h₂⟩ := Option.bind_eq_some_iff.mp h
  obtain rfl := Option.some.inj h₂
  exact (relinked_storePrev h₁).trans ⟨rfl, rfl, rfl, rfl, rfl⟩

/-- `kmalloc` moves a slab to the full list. -/
lemma relinked_moveToFull (h : s.moveToFull c a = some s') : Relinked s s' := by
  obtain ⟨s₁, h₁, h₂⟩ := Option.bind_eq_some_iff.mp h
  have hpush := relinked_pushFull h₂
  exact (relinked_storePrev h₁).trans ⟨hpush.1, hpush.2, hpush.3, hpush.4, hpush.5⟩

/-- `kfree` moves a slab to the partial list. -/
lemma relinked_moveToPartial (h : s.moveToPartial c a = some s') : Relinked s s' := by
  obtain ⟨s₁, h₁, h₂⟩ := Option.bind_eq_some_iff.mp h
  have hpush := relinked_pushPartial h₂
  exact (relinked_unlink h₁).trans ⟨hpush.1, hpush.2, hpush.3, hpush.4, hpush.5⟩

/-- `kfree` releases a slab. -/
lemma relinked_release (h : s.release c a = some s') : Relinked (s.unmapPages a 1) s' := by
  obtain ⟨s₁, h₁, h₂⟩ := Option.bind_eq_some_iff.mp h
  obtain rfl := Option.some.inj h₂
  obtain ⟨hown, htotal, hcount, hlist, hmap⟩ := relinked_unlink h₁
  exact ⟨hown, htotal, hcount, hlist, by simp [unmapPages, hmap]⟩

/-- **Taking an object** from the first partial slab, whatever the head of the list is. -/
lemma popPartial_spec (h : s.popPartial c = some (p, s')) :
    s.mapped (s.partialHead c) = true ∧ 0 < s.freeCount (s.partialHead c) ∧
      p = s.freeList (s.partialHead c) (s.freeCount (s.partialHead c) - 1) ∧
      Relinked (s.takeLast (s.partialHead c)) s' := by
  rw [popPartial] at h
  split_ifs at h with hguard hone
  · obtain ⟨s₁, h₁, h₂⟩ := Option.bind_eq_some_iff.mp h
    obtain ⟨hp, rfl⟩ := Prod.mk.inj (Option.some.inj h₂)
    refine ⟨by simpa using fun hz => hguard (.inl hz), by omega, hp.symm, relinked_moveToFull h₁⟩
  · obtain ⟨hp, rfl⟩ := Prod.mk.inj (Option.some.inj h)
    refine ⟨by simpa using fun hz => hguard (.inl hz), by omega, hp.symm, Relinked.refl _⟩

/-- No page is among no pages. -/
lemma inPages_zero (page a : ℕ) : inPages page 0 a = false := by
  rw [inPages, decide_eq_false_iff_not]
  omega

/-- **Freeing an object**, whatever the lists are. -/
lemma freeObject_spec (h : s.freeObject c a p = some s') :
    Relinked ((s.putLast a p).unmapPages a
      (if (s.freeCount a + 1) % 2 ^ 16 = s.totalCount a then 1 else 0)) s' := by
  obtain ⟨s₁, hlists, h₂⟩ : ∃ s₁, Relinked (s.putLast a p) s₁ ∧
      (if s₁.freeCount a = s₁.totalCount a then s₁.release c a else some s₁) = some s' := by
    rw [freeObject] at h
    dsimp only at h
    split at h
    · obtain ⟨s₁, h₁, h₂⟩ := Option.bind_eq_some_iff.mp h
      exact ⟨s₁, relinked_moveToPartial h₁, h₂⟩
    · exact ⟨_, Relinked.refl _, h⟩
  have hcount : s₁.freeCount a = (s.freeCount a + 1) % 2 ^ 16 := by
    rw [hlists.freeCount]
    exact Function.update_self _ _ _
  rw [hcount, show s₁.totalCount a = s.totalCount a from congrFun hlists.totalCount a] at h₂
  split_ifs at h₂ ⊢
  · obtain ⟨hown, htotal, hfree, hlist, hmap⟩ := relinked_release h₂
    refine ⟨hown.trans hlists.cacheOwner, htotal.trans hlists.totalCount,
      hfree.trans hlists.freeCount,
      hlist.trans hlists.freeList, ?_⟩
    rw [hmap]
    simp [unmapPages, hlists.mapped]
  · obtain rfl := Option.some.inj h₂
    refine ⟨hlists.cacheOwner, hlists.totalCount, hlists.freeCount, hlists.freeList, ?_⟩
    rw [hlists.mapped]
    simp [unmapPages, inPages_zero]

/-! ## The pages that a call maps or unmaps -/

/-- Pages have been mapped, and no other page has changed its owner or its number of pages. -/
structure Grown (s s' : Slabs) (page n : ℕ) : Prop where
  mapped : ∀ b, s'.mapped b = (inPages page n b || s.mapped b)
  cacheOwner : ∀ b, ¬ inPages page n b = true → s'.cacheOwner b = s.cacheOwner b
  totalCount : ∀ b, ¬ inPages page n b = true → s'.totalCount b = s.totalCount b

/-- Pages have been unmapped, and no page has changed its owner or its number of pages. -/
structure Shrunk (s s' : Slabs) (page n : ℕ) : Prop where
  mapped : ∀ b, s'.mapped b = (s.mapped b && !inPages page n b)
  cacheOwner : s'.cacheOwner = s.cacheOwner
  totalCount : s'.totalCount = s.totalCount

/-- **`kmalloc` maps the pages it asks for**, and no others. -/
lemma grown_kmalloc (h : s.kmalloc size page = some (p, s')) : Grown s s' page (s.demand size) := by
  rw [kmalloc] at h
  rw [demand]
  cases hclass : sizeToClass size with
  | none =>
    rw [hclass] at h
    obtain ⟨-, rfl⟩ := Prod.mk.inj (Option.some.inj h)
    exact ⟨fun b => rfl, fun b hb => (Kheap.sameAt_fpAllocation hb).cacheOwner,
      fun b hb => (Kheap.sameAt_fpAllocation hb).totalCount⟩
  | some c =>
    rw [hclass] at h
    dsimp only at h ⊢
    split_ifs at h ⊢ with hhead
    · obtain ⟨-, -, -, hrel⟩ := popPartial_spec h
      refine ⟨fun b => ?_, fun b _ => congrFun hrel.cacheOwner b, fun b _ =>
        congrFun hrel.totalCount b⟩
      rw [inPages_zero, Bool.false_or, hrel.mapped]
      rfl
    · obtain ⟨-, rfl⟩ := Prod.mk.inj (Option.some.inj h)
      have hsame : ∀ b, ¬ inPages page 1 b = true → SameAt s (s.newSlab c page).2 b :=
        fun b hb => Kheap.sameAt_newSlab fun he => hb (inPages_one.mpr he)
      exact ⟨fun b => rfl, fun b hb => (hsame b hb).cacheOwner, fun b hb => (hsame b hb).totalCount⟩

/-- **`kfree` unmaps the pages it gives to `unmmap`**, and no others. -/
lemma shrunk_kfree (h : s.kfree ptr = some s') :
    s.mapped (alignDown4k ptr) = true ∧ Shrunk s s' (alignDown4k ptr) (s.kfreePages ptr) := by
  rw [kfree] at h
  split_ifs at h with hmap
  refine ⟨by simpa using hmap, ?_⟩
  rw [kfreePages]
  cases howner : s.cacheOwner (alignDown4k ptr) with
  | none =>
    rw [howner] at h
    obtain rfl := Option.some.inj h
    exact ⟨fun b => rfl, rfl, rfl⟩
  | some c =>
    rw [howner] at h
    have hrel := freeObject_spec h
    exact ⟨fun b => congrFun hrel.mapped b, hrel.cacheOwner, hrel.totalCount⟩

end Slabs

namespace Kheap

variable {h h' : Kheap} {s' : Slabs} {c d : Fin 8} {a b p q page size : ℕ}

/-! ## The invariant -/

/-- **The invariant without the lists.** -/
structure Paged (h : Kheap) : Prop extends Spans h where
  slab : ∀ c a, h.slabs.IsSlab c a → SlabOk h c a
  /-- A page without a slab has no free objects. -/
  plain : ∀ a, h.slabs.mapped a = true → h.slabs.cacheOwner a = none → h.slabs.freeCount a = 0

/-- Before the first call nothing is mapped. -/
lemma paged_of_init (hi : h.Init) : Paged h := by
  obtain ⟨-, -, hmap, hlive⟩ := hi
  have hspans : Spans h := by constructor <;> simp [hlive]
  refine ⟨hspans, fun c a hc => ?_, fun a ha => ?_⟩
  · rw [Slabs.IsSlab, hmap] at hc
    exact absurd hc.1 (by simp)
  · rw [hmap] at ha
    exact absurd ha (by simp)

/-! ## `kmalloc` -/

/-- **Taking an object** of the slab at the head of a partial list, of whatever class it is.

**Proof sketch.** The head may be out of date. But a page with a free object has a slab, and the top
of its stack is an object of it that is not live. -/
lemma Paged.popPartial (hpg : Paged h) (hs : h.slabs.popPartial c = some (p, s')) :
    p ∉ h.live ∧ Paged ⟨s', p :: h.live⟩ := by
  obtain ⟨hmap, hpos, rfl, hrel⟩ := Slabs.popPartial_spec hs
  generalize h.slabs.partialHead c = a at *
  obtain ⟨d, howner⟩ : ∃ d, h.slabs.cacheOwner a = some d := by
    refine Option.ne_none_iff_exists'.mp fun hnone => ?_
    have := hpg.plain a hmap hnone
    omega
  have hok := hpg.slab d a ⟨hmap, howner⟩
  obtain ⟨halign, hfresh⟩ := hok.top hpos
  have hmapped : s'.mapped = h.slabs.mapped := hrel.mapped
  have hown : s'.cacheOwner = h.slabs.cacheOwner := hrel.cacheOwner
  have htotal : s'.totalCount = h.slabs.totalCount := hrel.totalCount
  have hcount : s'.freeCount = Function.update h.slabs.freeCount a (h.slabs.freeCount a - 1) :=
    hrel.freeCount
  have hlist : s'.freeList = h.slabs.freeList := hrel.freeList
  refine ⟨hfresh, ?_, fun e b hb => ?_, fun b hb hnone => ?_⟩
  · refine hpg.toSpans.of_kept (List.nodup_cons.mpr ⟨hfresh, hpg.nodup⟩) (fun q hq => ?_)
      (fun q hq hnone => ?_) fun b hb hnone => ?_
    · dsimp only
      rw [hmapped]
      rcases List.mem_cons.mp hq with rfl | hq
      · rw [halign]
        exact hmap
      · exact hpg.mapped q hq
    · dsimp only at hnone
      rw [hown] at hnone
      rcases List.mem_cons.mp hq with rfl | hq
      · rw [halign, howner] at hnone
        exact absurd hnone (by simp)
      · exact ⟨hq, hnone⟩
    · dsimp only
      rw [hmapped, hown, htotal]
      exact ⟨hb, hnone, rfl⟩
  · have hold : h.slabs.IsSlab e b := ⟨hmapped ▸ hb.1, hown ▸ hb.2⟩
    by_cases hba : b = a
    · subst hba
      exact (hpg.slab e b hold).pop hpos (congrFun htotal b) (by rw [hcount, Function.update_self])
        (congrFun hlist b)
    · refine (hpg.slab e b hold).congr (congrFun htotal b) ?_ (congrFun hlist b) ?_
      · dsimp only
        rw [hcount, Function.update_of_ne hba]
      · exact liveIn_cons_of_ne s' fun he => hba (he.symm.trans halign)
  · dsimp only at hb hnone ⊢
    rw [hmapped] at hb
    rw [hown] at hnone
    have hba : b ≠ a := by
      rintro rfl
      rw [howner] at hnone
      exact absurd hnone (by simp)
    rw [hcount, Function.update_of_ne hba]
    exact hpg.plain b hb hnone

/-- **A new slab.** -/
lemma Paged.newSlab (hpg : Paged h) (hf : Fresh h.slabs page 1) (c : Fin 8) :
    (h.slabs.newSlab c page).1 ∉ h.live ∧
      Paged ⟨(h.slabs.newSlab c page).2, (h.slabs.newSlab c page).1 :: h.live⟩ := by
  have hok := hpg.toSpans.slabOk_newSlab (c := c) hf
  have halign := alignDown4k_newSlab h.slabs c hok.page
  have hfresh := hpg.toSpans.newSlab_notMem hf c
  have hnew := isSlab_newSlab h.slabs c page
  -- a page that was mapped is another one, and has not changed
  have hne : ∀ b, h.slabs.mapped b = true → b ≠ page := fun b hmap he =>
    hf.notMem hmap (Slabs.inPages_one.mpr he)
  have hsame : ∀ b, h.slabs.mapped b = true → Slabs.SameAt h.slabs (h.slabs.newSlab c page).2 b :=
    fun b hmap => sameAt_newSlab (hne b hmap)
  have hold : ∀ b, b ≠ page → (h.slabs.newSlab c page).2.mapped b = true →
      h.slabs.mapped b = true := fun b hb hmap => (sameAt_newSlab hb).mapped ▸ hmap
  refine ⟨hfresh, ?_, fun e b hb => ?_, fun b hb hnone => ?_⟩
  · refine hpg.toSpans.of_kept (List.nodup_cons.mpr ⟨hfresh, hpg.nodup⟩) (fun q hq => ?_)
      (fun q hq hnone => ?_) fun b hb hnone => ?_
    · rcases List.mem_cons.mp hq with rfl | hq
      · rw [halign]
        exact hnew.1
      · exact (hsame _ (hpg.mapped q hq)).mapped.trans (hpg.mapped q hq)
    · rcases List.mem_cons.mp hq with rfl | hq
      · rw [halign] at hnone
        exact absurd (hnew.2.symm.trans hnone) (by simp)
      · exact ⟨hq, (hsame _ (hpg.mapped q hq)).cacheOwner ▸ hnone⟩
    · have hs := hsame b hb
      exact ⟨hs.mapped.trans hb, hs.cacheOwner.trans hnone, hs.totalCount⟩
  · by_cases hbp : b = page
    · subst hbp
      obtain rfl := hb.unique hnew
      exact hok
    · have hs := sameAt_newSlab (s := h.slabs) (c := c) hbp
      exact (hpg.slab e b (hs.isSlab.mp hb)).congr hs.totalCount hs.freeCount hs.freeList
        (liveIn_cons_of_ne _ fun he => hbp (he.symm.trans halign))
  · by_cases hbp : b = page
    · subst hbp
      exact absurd (hnew.2.symm.trans hnone) (by simp)
    · have hs := sameAt_newSlab (s := h.slabs) (c := c) hbp
      exact hs.freeCount.trans (hpg.plain b (hold b hbp hb) (hs.cacheOwner ▸ hnone))

/-- **An allocation of whole pages.** -/
lemma Paged.fpAllocation (hpg : Paged h) (hf : Fresh h.slabs page (Slabs.fpPages size)) :
    page + 16 ∉ h.live ∧ Paged ⟨(h.slabs.fpAllocation size page).2, (page + 16) :: h.live⟩ := by
  obtain ⟨hfresh, hspans⟩ := hpg.toSpans.fpAllocation hf
  have halign := alignDown4k_header (hf.isPage (Nat.succ_pos _))
  refine ⟨hfresh, hspans, fun e b hb => ?_, fun b hb hnone => ?_⟩
  · have hout : ¬ Slabs.inPages page (Slabs.fpPages size) b = true := by
      intro hin
      have howner := (fpAllocation_fields (s := h.slabs) hin).2
      exact absurd (hb.2.symm.trans howner) (by simp)
    have hs := sameAt_fpAllocation (s := h.slabs) hout
    refine (hpg.slab e b (hs.isSlab.mp hb)).congr hs.totalCount hs.freeCount hs.freeList
      (liveIn_cons_of_ne _ fun he => hout ?_)
    rw [← he, halign]
    exact inPages_self (Nat.succ_pos _)
  · by_cases hin : Slabs.inPages page (Slabs.fpPages size) b = true
    · exact if_pos hin
    · have hs := sameAt_fpAllocation (s := h.slabs) hin
      exact hs.freeCount.trans (hpg.plain b (hs.mapped ▸ hb) (hs.cacheOwner ▸ hnone))

/-- **`kmalloc` keeps the invariant** and returns a pointer that is not live. -/
theorem Paged.kmalloc (hpg : Paged h) (hf : Fresh h.slabs page (h.slabs.demand size))
    (hs : h.slabs.kmalloc size page = some (p, s')) : p ∉ h.live ∧ Paged ⟨s', p :: h.live⟩ := by
  rw [Slabs.kmalloc] at hs
  rw [Slabs.demand] at hf
  cases hclass : sizeToClass size with
  | none =>
    rw [hclass] at hs hf
    obtain ⟨rfl, rfl⟩ := Prod.mk.inj (Option.some.inj hs)
    exact hpg.fpAllocation hf
  | some c =>
    rw [hclass] at hs hf
    dsimp only at hs hf
    split_ifs at hs hf with hhead
    · exact hpg.popPartial hs
    · obtain ⟨rfl, rfl⟩ := Prod.mk.inj (Option.some.inj hs)
      exact hpg.newSlab hf c

/-! ## `kfree` -/

/-- **Freeing an object** releases its slab when no other object of it is live.

**Proof sketch.** When all objects of the slab are on its stack, the pointer that is freed was the
only live one in the page, so no live pointer is left in the page that is unmapped. -/
lemma Paged.freeObject (hpg : Paged h) (hp : p ∈ h.live)
    (howner : h.slabs.cacheOwner (alignDown4k p) = some c)
    (hs : h.slabs.freeObject c (alignDown4k p) p = some s') : Paged ⟨s', h.live.erase p⟩ := by
  have hrel := Slabs.freeObject_spec hs
  have hslab : h.slabs.IsSlab c (alignDown4k p) := ⟨hpg.mapped p hp, howner⟩
  have hok := hpg.slab c _ hslab
  have hlt := hok.freeCount_lt hp rfl
  have hcap := capacity_le c
  have hlast := hok.liveIn_eq_singleton hp rfl
  rw [Nat.mod_eq_of_lt (by omega), hok.total] at hrel
  generalize hn : (if h.slabs.freeCount (alignDown4k p) + 1 = capacity c then 1 else 0) = n at hrel
  have hown : s'.cacheOwner = h.slabs.cacheOwner := hrel.cacheOwner
  have htotal : s'.totalCount = h.slabs.totalCount := hrel.totalCount
  have hcount : s'.freeCount = Function.update h.slabs.freeCount (alignDown4k p)
      (h.slabs.freeCount (alignDown4k p) + 1) :=
        hrel.freeCount.trans (freeCount_putLast (p := p) hlt)
  have hlist : s'.freeList = (h.slabs.putLast (alignDown4k p) p).freeList := hrel.freeList
  have hmapped : ∀ b, s'.mapped b = (h.slabs.mapped b && !Slabs.inPages (alignDown4k p) n b) :=
    fun b => congrFun hrel.mapped b
  have hunmap : ∀ b, s'.mapped b = true → h.slabs.mapped b = true := fun b hb =>
    (Bool.and_eq_true_iff.mp ((hmapped b).symm.trans hb)).1
  -- a page other than that of the object stays mapped, and so does its page with a live pointer
  have hkeep : ∀ b, b ≠ alignDown4k p ∨ n = 0 → s'.mapped b = h.slabs.mapped b := by
    intro b hb
    rw [hmapped]
    by_cases hzero : n = 0
    · rw [hzero, Slabs.inPages_zero, Bool.not_false, Bool.and_true]
    · have hone : n = 1 := by
        split_ifs at hn <;> omega
      rw [hone]
      exact mapped_release (hb.resolve_right hzero)
  have hother : ∀ b, h.slabs.cacheOwner b = none → b ≠ alignDown4k p := by
    rintro b hnone rfl
    exact absurd (howner.symm.trans hnone) (by simp)
  refine ⟨?_, fun e b hb => ?_, fun b hb hnone => ?_⟩
  · refine hpg.toSpans.of_kept (hpg.nodup.erase p) (fun q hq => ?_) (fun q hq hnone => ?_)
      fun b hb hnone => ?_
    · refine (hkeep _ ?_).trans (hpg.mapped q (List.mem_of_mem_erase hq))
      split_ifs at hn with hall
      · exact .inl (hpg.toSpans.ne_of_last (hlast.mp hall) hq)
      · exact .inr hn.symm
    · dsimp only at hnone
      rw [hown] at hnone
      exact ⟨List.mem_of_mem_erase hq, hnone⟩
    · dsimp only
      rw [hkeep b (.inl (hother b hnone)), hown, htotal]
      exact ⟨hb, hnone, rfl⟩
  · have hold : h.slabs.IsSlab e b := ⟨hunmap b hb.1, hown ▸ hb.2⟩
    by_cases hbp : b = alignDown4k p
    · subst hbp
      refine (hpg.slab e _ hold).push hp rfl (congrFun htotal _)
        (by rw [hcount, Function.update_self]) ?_
      rw [hlist]
      exact Function.update_self _ _ _
    · refine (hpg.slab e b hold).congr (congrFun htotal b) ?_ ?_ ?_
      · dsimp only
        rw [hcount, Function.update_of_ne hbp]
      · dsimp only
        rw [hlist]
        exact Function.update_of_ne hbp _ _
      · exact liveIn_erase_of_ne s' fun he => hbp he.symm
  · dsimp only at hb hnone ⊢
    rw [hown] at hnone
    rw [hcount, Function.update_of_ne (hother b hnone)]
    exact hpg.plain b (hunmap b hb) hnone

/-- **`kfree` keeps the invariant.** -/
theorem Paged.kfree (hpg : Paged h) (hp : p ∈ h.live) (hs : h.slabs.kfree p = some s') :
    Paged ⟨s', h.live.erase p⟩ := by
  rw [Slabs.kfree, if_neg (by rw [hpg.mapped p hp]; simp)] at hs
  cases howner : h.slabs.cacheOwner (alignDown4k p) with
  | none =>
    rw [howner] at hs
    obtain rfl := Option.some.inj hs
    refine ⟨hpg.toSpans.freePages hp howner, fun e b hb => ?_, fun b hb => ?_⟩
    · have hb' : h.slabs.IsSlab e b := ⟨(Bool.and_eq_true_iff.mp hb.1).1, hb.2⟩
      refine (hpg.slab e b hb').congr rfl rfl rfl (liveIn_erase_of_ne _ fun he => ?_)
      rw [Slabs.IsSlab, ← he, howner] at hb'
      exact absurd hb'.2 (by simp)
    · exact hpg.plain b (Bool.and_eq_true_iff.mp hb).1
  | some c =>
    rw [howner] at hs
    exact hpg.freeObject hp howner hs

/-- **Every call keeps the invariant.** -/
lemma Paged.step {call : Call} (hpg : Paged h) (hstep : h.Step call h') : Paged h' := by
  obtain ⟨hen, hexec⟩ := hstep
  cases call with
  | kmalloc size page =>
    obtain ⟨⟨p, s'⟩, hs, rfl⟩ := Option.map_eq_some_iff.mp hexec
    exact (hpg.kmalloc hen.2 hs).2
  | kfree ptr =>
    obtain ⟨s', hs, rfl⟩ := Option.map_eq_some_iff.mp hexec
    exact hpg.kfree hen hs

end Kheap

end AlphaOS
