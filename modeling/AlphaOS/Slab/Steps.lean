import AlphaOS.Slab.Invariant

set_option relaxedAutoImplicit false
set_option autoImplicit false

/-!
# `kmalloc` and `kfree` keep the invariant

One lemma for each path of the two functions: it does not leave the allocator's data, and it keeps
the invariant.

## Main definitions

* `AlphaOS.Kheap.Evolves` — what a call can do to the stack `free_list` of a slab.
* `AlphaOS.Kheap.Alone` — the guard: `kmalloc` for the last class only while its cache has no slab
  recorded.

## Main results

* `AlphaOS.Kheap.Inv.kmalloc`, `AlphaOS.Kheap.Inv.kfree` — the two functions.
* `AlphaOS.Kheap.inv_of_reach` — every reachable state has the invariant.
-/

namespace AlphaOS

namespace Slabs

variable {s : Slabs} {c : Fin 8} {a b v p : ℕ}

/-! ## The relinking code -/

/-- A backward link is stored in a slab that is mapped, and none at null. -/
lemma storePrev_eq (h : a = 0 ∨ s.mapped a = true) :
    s.storePrev a v = some { s with prev := Linked.store 0 s.prev a v } := if_pos h

/-- A forward link is stored in a slab that is mapped, and none at null. -/
lemma storeNext_eq (h : a = 0 ∨ s.mapped a = true) :
    s.storeNext a v = some { s with next := Linked.store 0 s.next a v } := if_pos h

/-- Taking an object does not make `free_count` larger. -/
lemma freeCount_takeLast_le (s : Slabs) (a b : ℕ) : (s.takeLast a).freeCount b ≤ s.freeCount b := by
  dsimp only [takeLast]
  by_cases hba : b = a
  · subst hba
    rw [Function.update_self]
    omega
  · rw [Function.update_of_ne hba]

/-- Moving a slab to the full list, when its neighbours are mapped. -/
lemma moveToFull_eq (hnext : s.next a = 0 ∨ s.mapped (s.next a) = true)
    (hfull : s.fullHead c = 0 ∨ s.mapped (s.fullHead c) = true) :
    s.moveToFull c a = some { s with
      next := Function.update s.next a (s.fullHead c)
      prev := Function.update
        (Linked.store 0 (Linked.store 0 s.prev (s.next a) 0) (s.fullHead c) a) a 0
      partialHead := Function.update s.partialHead c (s.next a)
      fullHead := Function.update s.fullHead c a } := by
  rw [moveToFull, storePrev_eq hnext, Option.bind_eq_bind, Option.bind_some, pushFull]
  rw [storePrev_eq (by exact hfull)]
  rfl

/-- Unlinking a slab whose neighbours are mapped. -/
lemma unlink_eq (hself : s.prev a ≠ a) (hnext : s.next a = 0 ∨ s.mapped (s.next a) = true)
    (hprev : s.prev a = 0 ∨ s.mapped (s.prev a) = true) :
    s.unlink a = some { s with
      next := Linked.store 0 s.next (s.prev a) (s.next a)
      prev := Linked.store 0 s.prev (s.next a) (s.prev a) } := by
  have hsame : Linked.store 0 s.next (s.prev a) (s.next a) a = s.next a :=
    Linked.store_of_ne hself.symm
  rw [unlink, storeNext_eq hprev, Option.bind_eq_bind, Option.bind_some]
  dsimp only
  rw [hsame, storePrev_eq (by exact hnext)]

/-- A head moved on when it was the slab. -/
lemma head_eq (f : Fin 8 → ℕ) :
    (if f c = a then Function.update f c v else f) =
      Function.update f c (if f c = a then v else f c) := by
  split_ifs with h
  · rfl
  · rw [Function.update_eq_self]

/-- Moving a slab to the partial list, when its neighbours are mapped. -/
lemma moveToPartial_eq (hself : s.prev a ≠ a)
    (hnext : s.next a = 0 ∨ s.mapped (s.next a) = true)
    (hprev : s.prev a = 0 ∨ s.mapped (s.prev a) = true)
    (hpart : s.partialHead c = 0 ∨ s.mapped (s.partialHead c) = true) :
    s.moveToPartial c a = some { s with
      next := Function.update (Linked.store 0 s.next (s.prev a) (s.next a)) a (s.partialHead c)
      prev := Function.update (Linked.store 0 (Linked.store 0 s.prev (s.next a) (s.prev a))
        (s.partialHead c) a) a 0
      partialHead := Function.update s.partialHead c a
      fullHead := Function.update s.fullHead c
        (if s.fullHead c = a then s.next a else s.fullHead c) } := by
  have hsame : Linked.store 0 s.next (s.prev a) (s.next a) a = s.next a :=
    Linked.store_of_ne hself.symm
  rw [moveToPartial, unlink_eq hself hnext hprev, Option.bind_eq_bind, Option.bind_some,
    pushPartial]
  dsimp only
  rw [storePrev_eq (by exact hpart), hsame, head_eq]
  rfl

/-- Releasing a slab whose neighbours are mapped. -/
lemma release_eq (hself : s.prev a ≠ a) (hnext : s.next a = 0 ∨ s.mapped (s.next a) = true)
    (hprev : s.prev a = 0 ∨ s.mapped (s.prev a) = true) :
    s.release c a = some { s with
      next := Linked.store 0 s.next (s.prev a) (s.next a)
      prev := Linked.store 0 s.prev (s.next a) (s.prev a)
      partialHead := Function.update s.partialHead c
        (if s.partialHead c = a then s.next a else s.partialHead c)
      mapped := fun b => s.mapped b && !inPages a 1 b } := by
  have hsame : Linked.store 0 s.next (s.prev a) (s.next a) a = s.next a :=
    Linked.store_of_ne hself.symm
  rw [release, unlink_eq hself hnext hprev, Option.bind_eq_bind, Option.bind_some]
  dsimp only
  rw [hsame, head_eq]
  rfl

/-- The slab in the page `a` is gone, with the head of the partial list of its class left to
itself. -/
structure Dropped (s s' : Slabs) (c : Fin 8) (a : ℕ) : Prop where
  links : ∀ b, b ≠ a → s'.next b = s.next b ∧ s'.prev b = s.prev b
  cacheOwner : s'.cacheOwner = s.cacheOwner
  totalCount : s'.totalCount = s.totalCount
  freeCount : s'.freeCount = s.freeCount
  freeList : s'.freeList = s.freeList
  partialHead : ∀ d, d ≠ c → s'.partialHead d = s.partialHead d
  fullHead : s'.fullHead = s.fullHead
  mapped : s'.mapped = fun b => s.mapped b && !inPages a 1 b
  head : s'.partialHead c = a

/-- Both relinkings of `kfree`, for a slab that is alone on its partial list: the first makes it its
own successor, the second leaves it at the head. -/
lemma relink_single (hpos : 0 < a) (hnext : s.next a = 0) (hprev : s.prev a = 0)
    (hhead : s.partialHead c = a) (hfull : s.fullHead c ≠ a) (hmap : s.mapped a = true) :
    ∃ s₂ s₃, s.moveToPartial c a = some s₂ ∧ s₂.freeCount = s.freeCount ∧
      s₂.totalCount = s.totalCount ∧ s₂.release c a = some s₃ ∧ Dropped s s₃ c a := by
  have hself : s.prev a ≠ a := by omega
  obtain ⟨s₂, hs₂, hnext₂, hprev₂, hlinks₂, hrest₂⟩ : ∃ s₂ : Slabs, s.moveToPartial c a = some s₂ ∧
      s₂.next a = a ∧ s₂.prev a = 0 ∧
      (∀ b, b ≠ a → s₂.next b = s.next b ∧ s₂.prev b = s.prev b) ∧
      s₂ = { s with
        next := s₂.next
        prev := s₂.prev
        partialHead := Function.update s.partialHead c a } := by
    refine ⟨_, moveToPartial_eq hself (.inl hnext) (.inl hprev) (.inr (hhead ▸ hmap)), ?_, ?_,
      fun b hb => ⟨?_, ?_⟩, ?_⟩
    · exact (Function.update_self _ _ _).trans hhead
    · exact Function.update_self _ _ _
    · exact (Function.update_of_ne hb _ _).trans (Linked.store_of_nil_or_ne (.inl hprev))
    · refine (Function.update_of_ne hb _ _).trans ?_
      refine (Linked.store_of_nil_or_ne (.inr fun he => hb (he.trans hhead))).trans ?_
      exact Linked.store_of_nil_or_ne (.inl hnext)
    · rw [if_neg hfull, Function.update_eq_self]
  have hmapped₂ : s₂.mapped = s.mapped := by rw [hrest₂]
  have hrel := release_eq (s := s₂) (c := c) (a := a) (by omega)
    (.inr (by rw [hnext₂, hmapped₂]; exact hmap)) (.inl hprev₂)
  refine ⟨s₂, _, hs₂, by rw [hrest₂], by rw [hrest₂], hrel, ?_⟩
  refine ⟨fun b hb => ⟨?_, ?_⟩, ?_, ?_, ?_, ?_, fun d hd => ?_, ?_, ?_, ?_⟩
  · exact (Linked.store_of_nil_or_ne (.inl hprev₂)).trans (hlinks₂ b hb).1
  · exact (Linked.store_of_nil_or_ne (.inr fun he => hb (he.trans hnext₂))).trans (hlinks₂ b hb).2
  · rw [hrest₂]
  · rw [hrest₂]
  · rw [hrest₂]
  · rw [hrest₂]
  · refine (Function.update_of_ne hd _ _).trans ?_
    rw [hrest₂]
    exact Function.update_of_ne hd _ _
  · rw [hrest₂]
  · rw [hrest₂]
  · have hhead₂ : s₂.partialHead c = a := by
      rw [hrest₂]
      exact Function.update_self _ _ _
    exact (Function.update_self _ _ _).trans ((if_pos hhead₂).trans hnext₂)

end Slabs

namespace Kheap

variable {h h' : Kheap} {s' : Slabs} {c d : Fin 8} {a b p q : ℕ} {P F : Fin 8 → List ℕ}

/-! ## One slab -/

/-- What a call can do to the stack of a slab: nothing is pushed, or the slab is new, or the pointer
that is freed is pushed. -/
def Evolves (freed : Option ℕ) (h h' : Kheap) : Prop := ∀ c a, h'.slabs.IsSlab c a →
  (h.slabs.IsSlab c a ∧ h'.slabs.freeList a = h.slabs.freeList a ∧
    h'.slabs.freeCount a ≤ h.slabs.freeCount a) ∨
  (h'.slabs.freeCount a < capacity c ∧
    ∀ i < capacity c, h'.slabs.freeList a i = Slabs.objAddr c a i) ∨
  h.slabs.IsSlab c a ∧ ∃ p, freed = some p ∧ p ∈ h.live ∧ alignDown4k p = a ∧
    h'.slabs.freeList a = Function.update (h.slabs.freeList a) (h.slabs.freeCount a) p ∧
    h'.slabs.freeCount a = h.slabs.freeCount a + 1

/-- The live objects of a slab after one of them has been allocated. -/
lemma liveIn_cons_self (s' : Slabs) (hp : alignDown4k p = a) :
    liveIn ⟨s', p :: h.live⟩ a = p :: h.liveIn a := by
  simp [liveIn, hp]

/-- The live objects of another slab after an allocation. -/
lemma liveIn_cons_of_ne (s' : Slabs) (hp : alignDown4k p ≠ a) :
    liveIn ⟨s', p :: h.live⟩ a = h.liveIn a := by
  simp [liveIn, hp]

/-- The live objects of another slab after one is freed. -/
lemma liveIn_erase_of_ne (s' : Slabs) (hp : alignDown4k p ≠ a) :
    liveIn ⟨s', h.live.erase p⟩ a = h.liveIn a := by
  rw [liveIn, liveIn, ← List.erase_filter, List.erase_of_not_mem]
  simp [hp]

/-- The live objects of a slab after one of them is freed. -/
lemma liveIn_erase_self (s' : Slabs) : liveIn ⟨s', h.live.erase p⟩ a = (h.liveIn a).erase p := by
  rw [liveIn, liveIn, List.erase_filter]

/-- A slab whose stack and live objects are as before. -/
lemma SlabOk.congr (hok : SlabOk h c a) (htotal : h'.slabs.totalCount a = h.slabs.totalCount a)
    (hcount : h'.slabs.freeCount a = h.slabs.freeCount a)
    (hlist : h'.slabs.freeList a = h.slabs.freeList a) (hlive : h'.liveIn a = h.liveIn a) :
    SlabOk h' c a := by
  obtain ⟨hpage, htot, hparts⟩ := hok
  refine ⟨hpage, htotal.trans htot, ?_⟩
  rw [Slabs.freeEntries, hcount, hlist, hlive]
  exact hparts

/-- The stack with its last entry apart. -/
lemma freeEntries_eq (hpos : 0 < h.slabs.freeCount a) :
    h.slabs.freeEntries a = (List.range (h.slabs.freeCount a - 1)).map (h.slabs.freeList a) ++
      [h.slabs.freeList a (h.slabs.freeCount a - 1)] := by
  have hsucc : h.slabs.freeCount a = h.slabs.freeCount a - 1 + 1 := by omega
  rw [Slabs.freeEntries]
  conv_lhs => rw [hsucc, List.range_succ, List.map_append]
  rfl

/-- The objects of a slab, listed by the stack and the clients, are distinct. -/
lemma SlabOk.nodup (hok : SlabOk h c a) : (h.slabs.freeEntries a ++ h.liveIn a).Nodup :=
  hok.parts.nodup_iff.mpr (Slabs.nodup_objects c a)

/-- An object of the slab lies in its page. -/
lemma SlabOk.alignDown_eq (hok : SlabOk h c a) (hp : p ∈ h.slabs.freeEntries a ++ h.liveIn a) :
    alignDown4k p = a := by
  obtain ⟨i, hi, rfl⟩ := Slabs.mem_objects.mp (hok.parts.mem_iff.mp hp)
  exact Slabs.alignDown4k_objAddr hok.page hi

/-- The object on top of the stack is in the slab and not live. -/
lemma SlabOk.top (hok : SlabOk h c a) (hpos : 0 < h.slabs.freeCount a) :
    alignDown4k (h.slabs.freeList a (h.slabs.freeCount a - 1)) = a ∧
      h.slabs.freeList a (h.slabs.freeCount a - 1) ∉ h.live := by
  have hmem : h.slabs.freeList a (h.slabs.freeCount a - 1) ∈ h.slabs.freeEntries a := by
    rw [freeEntries_eq hpos]
    simp
  have halign := hok.alignDown_eq (List.mem_append_left _ hmem)
  refine ⟨halign, fun hlive => ?_⟩
  exact (List.nodup_append.mp hok.nodup).2.2 _ hmem _ (mem_liveIn.mpr ⟨hlive, halign⟩) rfl

/-- Popping the top of the stack. -/
lemma SlabOk.pop (hok : SlabOk h c a) (hpos : 0 < h.slabs.freeCount a)
    (htotal : s'.totalCount a = h.slabs.totalCount a)
    (hcount : s'.freeCount a = h.slabs.freeCount a - 1)
    (hlist : s'.freeList a = h.slabs.freeList a) :
    SlabOk ⟨s', h.slabs.freeList a (h.slabs.freeCount a - 1) :: h.live⟩ c a := by
  refine ⟨hok.page, htotal.trans hok.total, ?_⟩
  rw [liveIn_cons_self s' (hok.top hpos).1, Slabs.freeEntries]
  dsimp only
  rw [hcount, hlist]
  have hparts := hok.parts
  rw [freeEntries_eq hpos, List.append_assoc] at hparts
  exact hparts

/-- Pushing a live object. -/
lemma SlabOk.push (hok : SlabOk h c a) (hp : p ∈ h.live) (hpa : alignDown4k p = a)
    (htotal : s'.totalCount a = h.slabs.totalCount a)
    (hcount : s'.freeCount a = h.slabs.freeCount a + 1)
    (hlist : s'.freeList a =
      Function.update (h.slabs.freeList a) (h.slabs.freeCount a) p) :
    SlabOk ⟨s', h.live.erase p⟩ c a := by
  have hstack : s'.freeEntries a = h.slabs.freeEntries a ++ [p] := by
    rw [Slabs.freeEntries, hcount, hlist, List.range_succ, List.map_append, Slabs.freeEntries]
    congr 1
    · refine List.map_congr_left fun i hi => ?_
      rw [Function.update_of_ne (Nat.ne_of_lt (List.mem_range.mp hi))]
    · simp
  refine ⟨hok.page, htotal.trans hok.total, ?_⟩
  rw [liveIn_erase_self, hstack, List.append_assoc]
  have hmem : p ∈ h.liveIn a := mem_liveIn.mpr ⟨hp, hpa⟩
  exact ((List.perm_cons_erase hmem).symm.append_left _).trans hok.parts

/-- The free and the live objects add up. -/
lemma SlabOk.count (hok : SlabOk h c a) :
    h.slabs.freeCount a + (h.liveIn a).length = capacity c := by
  have hlen := hok.parts.length_eq
  rw [List.length_append, Slabs.length_objects, Slabs.freeEntries, List.length_map,
    List.length_range] at hlen
  exact hlen

/-! ## Outcomes -/

/-- A call that changes the class `c` keeps the invariant and the heads of the other classes. -/
structure Outcome (freed : Option ℕ) (h h' : Kheap) (c : Fin 8) (P F : Fin 8 → List ℕ) : Prop where
  inv : ∃ P₁ F₁, Inv h' (Function.update P c P₁) (Function.update F c F₁)
  evolves : Evolves freed h h'
  heads : ∀ d, d ≠ c → h'.slabs.partialHead d = h.slabs.partialHead d

/-- The frame of a call that changes slabs of one class, and unmaps none that has a live object. -/
lemma frame_class {live' : List ℕ} (hmap : ∀ b, s'.mapped b = true → h.slabs.mapped b = true)
    (hown : s'.cacheOwner = h.slabs.cacheOwner)
    (hkept : ∀ q ∈ live', h.slabs.IsSlab c (alignDown4k q) → s'.mapped (alignDown4k q) = true)
    (hsame : ∀ b, ¬ h.slabs.IsSlab c b → Slabs.SameAt h.slabs s' b)
    (hlive : ∀ b, ¬ h.slabs.IsSlab c b → liveIn ⟨s', live'⟩ b = h.liveIn b)
    (hheads : ∀ d, d ≠ c → s'.partialHead d = h.slabs.partialHead d ∧
      s'.fullHead d = h.slabs.fullHead d) :
    Frame h ⟨s', live'⟩ c (h.slabs.IsSlab c) := by
  constructor
  · exact hsame
  · exact hlive
  · exact hheads
  · intro b hb d hd
    have hnot : ¬ h.slabs.IsSlab d b := fun hdb => hd (hdb.unique hb)
    refine ⟨hnot, fun hdb => hnot ⟨hmap b hdb.1, ?_⟩⟩
    rw [← hown]
    exact hdb.2
  · intro b hb _ hnone
    rw [hb.2] at hnone
    exact absurd hnone (by simp)
  · intro q hq hslab
    refine ⟨hkept q hq hslab, ?_⟩
    dsimp only
    rw [hown]
    exact hslab.2

/-- The nodes of a cache's lists are mapped. -/
lemma Cache.mapped {P F : List ℕ} (hc : Cache h c P F) (ha : a ∈ P ++ F) :
    h.slabs.mapped a = true := ((hc.slab_iff a).mpr ha).1

/-- The slabs of the class after the top of the stack of `a` has been taken. -/
lemma Cache.slab_pop {P F : List ℕ} (hc : Cache h c P F) (ha : a ∈ P ++ F)
    (hpos : 0 < h.slabs.freeCount a) (htotal : s'.totalCount = h.slabs.totalCount)
    (hcount : s'.freeCount = Function.update h.slabs.freeCount a (h.slabs.freeCount a - 1))
    (hlist : s'.freeList = h.slabs.freeList) :
    ∀ b ∈ P ++ F, SlabOk ⟨s', h.slabs.freeList a (h.slabs.freeCount a - 1) :: h.live⟩ c b := by
  intro b hb
  have htop := (hc.slab a ha).top hpos
  by_cases hba : b = a
  · subst hba
    exact (hc.slab b hb).pop hpos (by rw [htotal]) (by rw [hcount, Function.update_self])
      (by rw [hlist])
  · refine (hc.slab b hb).congr (by rw [htotal]) ?_ (by rw [hlist]) ?_
    · rw [hcount, Function.update_of_ne hba]
    · exact liveIn_cons_of_ne s' fun he => hba (he.symm.trans htop.1)

/-- **Taking an object from a slab that keeps others.** -/
lemma Inv.takeLast {P₁ : List ℕ} (hinv : Inv h P F) (h7 : c ≠ 7) (hP : P c = a :: P₁)
    (hpos : 0 < h.slabs.freeCount a - 1) :
    Outcome none h ⟨h.slabs.takeLast a,
      h.slabs.freeList a (h.slabs.freeCount a - 1) :: h.live⟩ c P F := by
  have hc := hinv.caches c
  have hmem : a ∈ P c ++ F c := by simp [hP]
  have hslab := (hc.slab_iff a).mpr hmem
  obtain ⟨htop, hfresh⟩ := (hc.slab a hmem).top (by omega)
  have hother : ∀ b, ¬ h.slabs.IsSlab c b → b ≠ a := fun b hb he => hb (he ▸ hslab)
  have hframe : Frame h ⟨h.slabs.takeLast a,
      h.slabs.freeList a (h.slabs.freeCount a - 1) :: h.live⟩ c (h.slabs.IsSlab c) := by
    refine frame_class (fun b hb => hb) rfl (fun q _ hq => hq.1) (fun b hb => ?_) (fun b hb => ?_)
      fun d _ => ⟨rfl, rfl⟩
    · exact ⟨rfl, rfl, rfl, rfl, Function.update_of_ne (hother b hb) _ _, rfl, rfl⟩
    · exact liveIn_cons_of_ne _ fun he => hother b hb (he.symm.trans htop)
  obtain ⟨hlist, hcount⟩ := hc.partials h7
  refine ⟨⟨P c, F c, hinv.of_frame hframe ?_ (List.nodup_cons.mpr ⟨hfresh, hinv.nodup⟩)⟩, ?_,
    fun d _ => rfl⟩
  · refine ⟨hc.slab_iff, hc.nodup, hc.slab_pop hmem (by omega) rfl rfl rfl, fun _ => ⟨hlist, ?_⟩,
      fun h7' => absurd h7' h7, hc.fulls, ?_⟩
    · intro b hb
      have hcb := hcount b hb
      have hca := hcount a (by simp [hP])
      change 0 < Function.update h.slabs.freeCount a (h.slabs.freeCount a - 1) b ∧
        Function.update h.slabs.freeCount a (h.slabs.freeCount a - 1) b < capacity c
      by_cases hba : b = a
      · subst hba
        rw [Function.update_self]
        omega
      · rw [Function.update_of_ne hba]
        exact hcb
    · intro b hb
      have hba : b ≠ a := by
        rintro rfl
        exact (List.nodup_append.mp hc.nodup).2.2 b (by simp [hP]) b hb rfl
      exact (Function.update_of_ne hba _ _).trans (hc.fullCount b hb)
  · intro d b hdb
    exact .inl ⟨hdb, rfl, Slabs.freeCount_takeLast_le h.slabs a b⟩

/-- The first slab of a partial list is followed by a slab of the list or by none. -/
lemma Cache.partial_head {P₁ F₁ : List ℕ} (hc : Cache h c (a :: P₁) F₁) (h7 : c ≠ 7) :
    h.slabs.partialHead c = a ∧ h.slabs.prev a = 0 ∧
      (h.slabs.next a = 0 ∨ h.slabs.next a ∈ P₁) := by
  have hlist := (hc.partials h7).list
  have hsplit : Linked.Dlist 0 h.slabs.next h.slabs.prev (h.slabs.partialHead c)
    ([] ++ a :: P₁) := hlist
  obtain ⟨-, -, q, hhead, hprev, -⟩ := hlist
  exact ⟨hhead, hprev, hsplit.neighbours.1⟩

/-- **Taking the last object of a slab** moves it to the full list. -/
lemma Inv.moveToFull {P₁ : List ℕ} (hinv : Inv h P F) (h7 : c ≠ 7) (hP : P c = a :: P₁)
    (hone : h.slabs.freeCount a = 1) :
    ∃ s', (h.slabs.takeLast a).moveToFull c a = some s' ∧
      Outcome none h ⟨s', h.slabs.freeList a (h.slabs.freeCount a - 1) :: h.live⟩ c P F := by
  have hc := hinv.caches c
  rw [hP] at hc
  have hmem : a ∈ a :: P₁ ++ F c := by simp
  have hslab := (hc.slab_iff a).mpr hmem
  have hpos : 0 < h.slabs.freeCount a := by omega
  obtain ⟨htop, hfresh⟩ := (hc.slab a hmem).top hpos
  obtain ⟨hhead, hprev, hnext⟩ := hc.partial_head h7
  obtain ⟨hlist, hcount⟩ := hc.partials h7
  obtain ⟨hnd₁, hnd₂, hdis⟩ := List.nodup_append.mp hc.nodup
  obtain ⟨haP, hndP⟩ := List.nodup_cons.mp hnd₁
  have haF : a ∉ F c := fun haF => hdis a (by simp) a haF rfl
  have hfull := hc.fulls.head_mem
  -- the links of the two lists after the move
  have hpart' : Linked.Dlist 0 h.slabs.next (Linked.store 0 h.slabs.prev (h.slabs.next a) 0)
      (h.slabs.next a) P₁ := by
    have hsplit : Linked.Dlist 0 h.slabs.next h.slabs.prev (h.slabs.partialHead c)
      ([] ++ a :: P₁) := hlist
    have hun := hsplit.unlink
    rw [if_pos hhead, hprev, Linked.store, if_pos rfl] at hun
    exact hun
  have hfullc : Linked.Dlist 0 h.slabs.next (Linked.store 0 h.slabs.prev (h.slabs.next a) 0)
      (h.slabs.fullHead c) (F c) := by
    refine hc.fulls.congr fun b hb => ⟨rfl, Linked.store_of_nil_or_ne (hnext.imp_right ?_)⟩
    exact fun hn he => hdis b (he ▸ List.mem_cons_of_mem _ hn) b hb rfl
  have hfull' := hfullc.push haF (hc.slab a hmem).page.pos.ne'
  have hmapN : h.slabs.next a = 0 ∨ h.slabs.mapped (h.slabs.next a) = true :=
    hnext.imp_right fun hn => hc.mapped (List.mem_append_left _ (List.mem_cons_of_mem _ hn))
  have hmapF : h.slabs.fullHead c = 0 ∨ h.slabs.mapped (h.slabs.fullHead c) = true :=
    hfull.imp_right fun hf => hc.mapped (List.mem_append_right _ hf)
  have hsep : ∀ b, (b ∈ P₁ ∨ ¬ h.slabs.IsSlab c b) → h.slabs.fullHead c = 0 ∨
      b ≠ h.slabs.fullHead c := by
    intro b hb
    refine hfull.imp_right fun hf he => ?_
    rcases hb with hb | hb
    · exact hdis b (List.mem_cons_of_mem _ hb) b (he ▸ hf) rfl
    · exact hb ((hc.slab_iff b).mpr (List.mem_append_right _ (he ▸ hf)))
  refine ⟨_, Slabs.moveToFull_eq hmapN hmapF, ?_⟩
  refine ⟨⟨P₁, a :: F c, hinv.of_frame (S := h.slabs.IsSlab c) ?_ ?_
    (List.nodup_cons.mpr ⟨hfresh, hinv.nodup⟩)⟩, ?_, fun d hd => Function.update_of_ne hd _ _⟩
  · refine frame_class (fun b hb => hb) rfl (fun q _ hq => hq.1) (fun b hb => ?_) (fun b hb => ?_)
      fun d hd => ⟨Function.update_of_ne hd _ _, Function.update_of_ne hd _ _⟩
    · have hba : b ≠ a := fun he => hb (he ▸ hslab)
      have hbn : h.slabs.next a = 0 ∨ b ≠ h.slabs.next a := hnext.imp_right fun hn he =>
        hb ((hc.slab_iff b).mpr (List.mem_append_left _ (List.mem_cons_of_mem _ (he ▸ hn))))
      refine ⟨Function.update_of_ne hba _ _, ?_, rfl, rfl, Function.update_of_ne hba _ _, rfl, rfl⟩
      refine (Function.update_of_ne hba _ _).trans ?_
      refine (Linked.store_of_nil_or_ne (hsep b (.inr hb))).trans ?_
      exact Linked.store_of_nil_or_ne hbn
    · exact liveIn_cons_of_ne _ fun he => hb (he.symm.trans htop ▸ hslab)
  · have hperm : (P₁ ++ a :: F c).Perm (a :: P₁ ++ F c) := List.perm_middle
    refine ⟨fun b => (hc.slab_iff b).trans hperm.mem_iff.symm, hperm.nodup_iff.mpr hc.nodup,
      fun b hb => ?_, fun _ => ⟨?_, fun b hb => ?_⟩, fun h7' => absurd h7' h7, ?_, fun b hb => ?_⟩
    · refine hc.slab_pop hmem hpos ?_ ?_ ?_ b (hperm.mem_iff.mp hb)
      all_goals rfl
    · dsimp only
      rw [Function.update_self]
      refine hpart'.congr fun b hb => ?_
      have hba : b ≠ a := fun he => haP (he ▸ hb)
      refine ⟨Function.update_of_ne hba _ _, (Function.update_of_ne hba _ _).trans ?_⟩
      exact Linked.store_of_nil_or_ne (hsep b (.inl hb))
    · have hba : b ≠ a := fun he => haP (he ▸ hb)
      have hcb := hcount b (List.mem_cons_of_mem _ hb)
      rw [← Function.update_of_ne hba (h.slabs.freeCount a - 1) h.slabs.freeCount] at hcb
      exact hcb
    · dsimp only
      rw [Function.update_self]
      exact hfull'
    · rcases List.mem_cons.mp hb with rfl | hb
      · refine (Function.update_self _ _ _).trans ?_
        omega
      · have hba : b ≠ a := fun he => haF (he ▸ hb)
        exact (Function.update_of_ne hba _ _).trans (hc.fullCount b hb)
  · intro d b hdb
    exact .inl ⟨hdb, rfl, Slabs.freeCount_takeLast_le h.slabs a b⟩

/-- **The first path of `kmalloc`**: an object of the first partial slab. -/
lemma Inv.popPartial (hinv : Inv h P F) (h7 : c ≠ 7) (hne : h.slabs.partialHead c ≠ 0) :
    ∃ p s', h.slabs.popPartial c = some (p, s') ∧ p ∉ h.live ∧
      Outcome none h ⟨s', p :: h.live⟩ c P F := by
  have hc := hinv.caches c
  obtain ⟨hlist, hcount⟩ := hc.partials h7
  obtain ⟨P₁, hP, -⟩ := hlist.head hne
  set a := h.slabs.partialHead c with ha
  have hmem : a ∈ P c ++ F c := by simp [hP]
  have hpos := (hcount a (by simp [hP])).1
  have hmap := hc.mapped hmem
  have hfresh := ((hc.slab a hmem).top hpos).2
  have hguard : ¬ (h.slabs.mapped a = false ∨ h.slabs.freeCount a = 0) := by
    rw [hmap]
    simp only [Bool.true_eq_false, false_or]
    omega
  rw [Slabs.popPartial, ← ha, if_neg hguard]
  by_cases hone : h.slabs.freeCount a - 1 = 0
  · obtain ⟨s', hs', hout⟩ := hinv.moveToFull h7 hP (by omega)
    refine ⟨_, s', ?_, hfresh, hout⟩
    rw [if_pos hone, hs']
    rfl
  · refine ⟨_, h.slabs.takeLast a, ?_, hfresh, hinv.takeLast h7 hP (by omega)⟩
    rw [if_neg hone]
    rfl

/-! ## New pages -/

/-- No pointer is live in a page that is not mapped. -/
lemma Spans.liveIn_eq_nil (hs : Spans h) (ha : h.slabs.mapped a = false) : h.liveIn a = [] := by
  refine List.filter_eq_nil_iff.mpr fun p hp hpa => ?_
  have hmap := hs.mapped p hp
  rw [decide_eq_true_eq.mp hpa, ha] at hmap
  exact absurd hmap (by simp)

/-- Mapping pages changes no other page. -/
lemma sameAt_mapPages {s : Slabs} {page n : ℕ} (hb : ¬ Slabs.inPages page n b = true) :
    Slabs.SameAt s (s.mapPages page n) b := by
  constructor <;> simp [Slabs.mapPages, hb]

/-- A new slab changes its own page. -/
lemma sameAt_newSlab {s : Slabs} {page : ℕ} (hb : b ≠ page) :
    Slabs.SameAt s (s.newSlab c page).2 b := by
  have hin : ¬ Slabs.inPages page 1 b = true := fun h => hb (Slabs.inPages_one.mp h)
  obtain ⟨h₁, h₂, h₃, h₄, h₅, h₆, h₇⟩ := sameAt_mapPages (s := s) hin
  exact ⟨(Function.update_of_ne hb _ _).trans h₁, (Function.update_of_ne hb _ _).trans h₂,
    (Function.update_of_ne hb _ _).trans h₃, (Function.update_of_ne hb _ _).trans h₄,
    (Function.update_of_ne hb _ _).trans h₅, (Function.update_of_ne hb _ _).trans h₆, h₇⟩

/-- A cache whose partial list has no head has no partial slab. -/
lemma Cache.partial_eq_nil {P₁ F₁ : List ℕ} (hc : Cache h c P₁ F₁)
    (hzero : h.slabs.partialHead c = 0) : P₁ = [] := by
  by_cases h7 : c = 7
  · rcases (hc.single h7).1 with hnil | ⟨a, rfl, hhead, -⟩
    · exact hnil
    · have hpos := (hc.slab a (by simp)).page.pos
      omega
  · have hlist := (hc.partials h7).list
    rw [hzero] at hlist
    exact hlist.eq_nil

/-- The page of a new slab. -/
lemma Fresh.isPage {page n : ℕ} (hf : Fresh h.slabs page n) (hn : 0 < n) : IsPage page := by
  obtain ⟨haligned, hheap, hbound, -⟩ := hf
  have hstart : 0 < kheapStart := by decide
  exact ⟨haligned, by omega, by omega⟩

/-- A new slab is a slab of its class. -/
lemma isSlab_newSlab (s : Slabs) (c : Fin 8) (page : ℕ) : (s.newSlab c page).2.IsSlab c page := by
  refine ⟨?_, Function.update_self _ _ _⟩
  change (Slabs.inPages page 1 page || s.mapped page) = true
  rw [Slabs.inPages_one.mpr rfl, Bool.true_or]

/-- The object that is returned is in the page of the new slab. -/
lemma alignDown4k_newSlab (s : Slabs) (c : Fin 8) {page : ℕ} (hp : IsPage page) :
    alignDown4k (s.newSlab c page).1 = page :=
  Slabs.alignDown4k_objAddr hp (by have := capacity_pos c; omega)

/-- An object of a new slab is not live. -/
lemma Spans.newSlab_notMem {page : ℕ} (hs : Spans h) (hf : Fresh h.slabs page 1) (c : Fin 8) :
    (h.slabs.newSlab c page).1 ∉ h.live := by
  intro hmem
  have hin : (h.slabs.newSlab c page).1 ∈ h.liveIn page :=
    mem_liveIn.mpr ⟨hmem, alignDown4k_newSlab _ c (hf.isPage Nat.one_pos)⟩
  rw [hs.liveIn_eq_nil (hf.unmapped page (Slabs.inPages_one.mpr rfl))] at hin
  exact absurd hin List.not_mem_nil

/-- A new slab has all its objects but the last on its stack. -/
lemma Spans.slabOk_newSlab {page : ℕ} (hs : Spans h) (hf : Fresh h.slabs page 1) :
    SlabOk ⟨(h.slabs.newSlab c page).2, (h.slabs.newSlab c page).1 :: h.live⟩ c page := by
  have hpage := hf.isPage Nat.one_pos
  have hcap := capacity_pos c
  have hempty := hs.liveIn_eq_nil (hf.unmapped page (Slabs.inPages_one.mpr rfl))
  have halign := alignDown4k_newSlab h.slabs c hpage
  refine ⟨hpage, Function.update_self _ _ _, ?_⟩
  have hstack : (h.slabs.newSlab c page).2.freeEntries page =
      (List.range (capacity c - 1)).map (Slabs.objAddr c page) := by
    have hcount : (h.slabs.newSlab c page).2.freeCount page = capacity c - 1 :=
      Function.update_self _ _ _
    have hlist : (h.slabs.newSlab c page).2.freeList page =
        fun i => if i < capacity c then Slabs.objAddr c page i else 0 := Function.update_self _ _ _
    rw [Slabs.freeEntries, hcount, hlist]
    refine List.map_congr_left fun i hi => if_pos ?_
    have := List.mem_range.mp hi
    omega
  have hobjects : Slabs.objects c page =
      (List.range (capacity c - 1)).map (Slabs.objAddr c page) ++ [(h.slabs.newSlab c page).1] := by
    have hsucc : capacity c = capacity c - 1 + 1 := by omega
    rw [Slabs.objects]
    conv_lhs => rw [hsucc, List.range_succ, List.map_append]
    rfl
  rw [liveIn_cons_self _ halign, hempty, hobjects]
  exact hstack ▸ List.Perm.refl _

/-- **The second path of `kmalloc`**: the last object of a new slab. -/
lemma Inv.newSlab {page : ℕ} (hinv : Inv h P F) (hzero : h.slabs.partialHead c = 0)
    (hf : Fresh h.slabs page 1) :
    (h.slabs.newSlab c page).1 ∉ h.live ∧
      Outcome none h ⟨(h.slabs.newSlab c page).2, (h.slabs.newSlab c page).1 :: h.live⟩ c P F := by
  have hc := hinv.caches c
  have hok := hinv.spans.slabOk_newSlab (c := c) hf
  have hunmapped := hf.unmapped page (Slabs.inPages_one.mpr rfl)
  have halign := alignDown4k_newSlab h.slabs c hok.page
  have hfresh := hinv.spans.newSlab_notMem hf c
  have hnot : ∀ d, ¬ h.slabs.IsSlab d page := fun d hd => by
    rw [Slabs.IsSlab, hunmapped] at hd
    exact absurd hd.1 (by simp)
  have hnew := isSlab_newSlab h.slabs c page
  have hlive : ∀ b, b ≠ page → liveIn ⟨(h.slabs.newSlab c page).2,
      (h.slabs.newSlab c page).1 :: h.live⟩ b = h.liveIn b :=
    fun b hb => liveIn_cons_of_ne _ fun he => hb (he.symm.trans halign)
  have hP := hc.partial_eq_nil hzero
  rw [hP] at hc
  have hout : page ∉ F c := fun hm => hnot c ((hc.slab_iff page).mpr hm)
  refine ⟨hfresh, ⟨[page], F c, hinv.of_frame (S := fun b => b = page) ?_ ?_
    (List.nodup_cons.mpr ⟨hfresh, hinv.nodup⟩)⟩, ?_, fun d hd => Function.update_of_ne hd _ _⟩
  · refine ⟨fun b hb => sameAt_newSlab hb, hlive, fun d hd => ⟨Function.update_of_ne hd _ _, rfl⟩,
      ?_, ?_, ?_⟩
    · rintro b rfl d hd
      exact ⟨hnot d, fun hdb => hd (hdb.unique hnew)⟩
    · rintro b rfl hmap
      rw [hunmapped] at hmap
      exact absurd hmap (by simp)
    · rintro q - hq
      exact hq ▸ hnew
  · have hcount : (h.slabs.newSlab c page).2.freeCount page = capacity c - 1 :=
      Function.update_self _ _ _
    have hnext : (h.slabs.newSlab c page).2.next page = 0 := Function.update_self _ _ _
    have hprev : (h.slabs.newSlab c page).2.prev page = 0 := Function.update_self _ _ _
    have hhead : (h.slabs.newSlab c page).2.partialHead c = page := Function.update_self _ _ _
    have hsame : ∀ b ∈ F c, Slabs.SameAt h.slabs (h.slabs.newSlab c page).2 b :=
      fun b hb => sameAt_newSlab fun he => hout (he ▸ hb)
    refine ⟨fun b => ?_, List.nodup_cons.mpr ⟨hout, hc.nodup⟩, fun b hb => ?_,
      fun h7 => ⟨?_, fun b hb => ?_⟩, fun h7 => ⟨.inr ⟨page, rfl, hhead, hnext, hprev, ?_⟩,
        (hc.single h7).2⟩, ?_, fun b hb => ?_⟩
    · rw [List.singleton_append, List.mem_cons]
      by_cases hb : b = page
      · subst hb
        exact ⟨fun _ => .inl rfl, fun _ => hnew⟩
      · refine (sameAt_newSlab hb).isSlab.trans ((hc.slab_iff b).trans ?_)
        simp [hb]
    · rcases List.mem_cons.mp hb with rfl | hb
      · exact hok
      · have hs := hsame b hb
        exact (hc.slab b hb).congr hs.totalCount hs.freeCount hs.freeList
          (hlive b fun he => hout (he ▸ hb))
    · refine ⟨List.nodup_singleton _, ?_, page, hhead, hprev, rfl, hnext⟩
      simp only [List.mem_singleton]
      exact hok.page.pos.ne
    · obtain rfl := List.mem_singleton.mp hb
      have htwo := two_le_capacity c h7
      change 0 < (h.slabs.newSlab c b).2.freeCount b ∧ (h.slabs.newSlab c b).2.freeCount b < _
      rw [hcount]
      omega
    · subst h7
      exact hcount
    · exact hc.fulls.congr fun b hb => ⟨(hsame b hb).next, (hsame b hb).prev⟩
    · exact (hsame b hb).freeCount.trans (hc.fullCount b hb)
  · intro d b hdb
    by_cases hb : b = page
    · subst hb
      obtain rfl := hdb.unique hnew
      refine .inr (.inl ⟨?_, fun i hi => ?_⟩)
      · have hcount : (h.slabs.newSlab d b).2.freeCount b = capacity d - 1 :=
          Function.update_self _ _ _
        have hcap := capacity_pos d
        change (h.slabs.newSlab d b).2.freeCount b < capacity d
        omega
      · have hlist : (h.slabs.newSlab d b).2.freeList b =
            fun i => if i < capacity d then Slabs.objAddr d b i else 0 := Function.update_self _ _ _
        change (h.slabs.newSlab d b).2.freeList b i = _
        rw [hlist]
        exact if_pos hi
    · have hs := sameAt_newSlab (s := h.slabs) (c := c) hb
      exact .inl ⟨hs.isSlab.mp hdb, hs.freeList, hs.freeCount.le⟩

/-! ## Allocations of whole pages -/

/-- A call that changes no cache keeps the invariant, the stacks and the heads. -/
structure Quiet (freed : Option ℕ) (h h' : Kheap) (P F : Fin 8 → List ℕ) : Prop where
  inv : Inv h' P F
  evolves : Evolves freed h h'
  heads : ∀ d, h'.slabs.partialHead d = h.slabs.partialHead d

/-- The caches after a call that changes pages without slabs only. -/
lemma Inv.caches_of_quiet {freed : Option ℕ} {S : ℕ → Prop} (hinv : Inv h P F)
    (hS : ∀ a, S a → ∀ d, ¬ h.slabs.IsSlab d a ∧ ¬ h'.slabs.IsSlab d a)
    (hsame : ∀ a, ¬ S a → Slabs.SameAt h.slabs h'.slabs a)
    (hlive : ∀ a, ¬ S a → h'.liveIn a = h.liveIn a)
    (hpart : h'.slabs.partialHead = h.slabs.partialHead)
    (hfull : h'.slabs.fullHead = h.slabs.fullHead) :
    (∀ d, Cache h' d (P d) (F d)) ∧ Evolves freed h h' := by
  refine ⟨fun d => (hinv.caches d).frame (fun a ha => hS a ha d) hsame hlive (by rw [hpart])
    (by rw [hfull]), fun d b hdb => ?_⟩
  have hs := hsame b fun hSb => (hS b hSb d).2 hdb
  exact .inl ⟨hs.isSlab.mp hdb, hs.freeList, hs.freeCount.le⟩

/-- A page is among its own pages. -/
lemma inPages_self {page n : ℕ} (hn : 0 < n) : Slabs.inPages page n page = true := by
  rw [Slabs.inPages, decide_eq_true_eq]
  omega

/-- More pages contain fewer pages. -/
lemma inPages_mono {page n m : ℕ} (hnm : n ≤ m) (hb : Slabs.inPages page n b = true) :
    Slabs.inPages page m b = true := by
  have hmul : n * 4096 ≤ m * 4096 := Nat.mul_le_mul_right _ hnm
  rw [Slabs.inPages, decide_eq_true_eq] at hb ⊢
  exact ⟨hb.1, by omega, hb.2.2⟩

/-- The pages of an allocation of whole pages. -/
lemma fpAllocation_fields {s : Slabs} {size page : ℕ}
    (hb : Slabs.inPages page (Slabs.fpPages size) b = true) :
    (s.fpAllocation size page).2.mapped b = true ∧
      (s.fpAllocation size page).2.cacheOwner b = none := by
  constructor
  · change (Slabs.inPages page (Slabs.fpPages size) b || s.mapped b) = true
    rw [hb, Bool.true_or]
  · change Function.update (s.mapPages page (Slabs.fpPages size)).cacheOwner page none b = none
    by_cases hbp : b = page
    · rw [hbp, Function.update_self]
    · rw [Function.update_of_ne hbp]
      exact if_pos hb

/-- Outside its pages an allocation of whole pages changes nothing. -/
lemma sameAt_fpAllocation {s : Slabs} {size page : ℕ}
    (hb : ¬ Slabs.inPages page (Slabs.fpPages size) b = true) :
    Slabs.SameAt s (s.fpAllocation size page).2 b := by
  have hne : b ≠ page := by
    rintro rfl
    exact hb (inPages_self (Nat.succ_pos _))
  obtain ⟨h₁, h₂, h₃, h₄, h₅, h₆, h₇⟩ := sameAt_mapPages (s := s) hb
  exact ⟨h₁, h₂, (Function.update_of_ne hne _ _).trans h₃, (Function.update_of_ne hne _ _).trans h₄,
    h₅, h₆, h₇⟩

/-- At least the first page is kept. -/
lemma span_pos (s : Slabs) (p : ℕ) : 0 < span s p :=
  Nat.lt_of_lt_of_le Nat.one_pos (le_max_left _ _)

/-- A pointer right after the header of a page. -/
lemma alignDown4k_header {page : ℕ} (hp : IsPage page) : alignDown4k (page + 16) = page := by
  obtain ⟨haligned, -, hbound⟩ := hp
  rw [alignDown4k_eq (by omega)]
  omega

/-- A page that is mapped is none of those that `mmap` returns. -/
lemma Fresh.notMem {page n : ℕ} (hf : Fresh h.slabs page n) (hmap : h.slabs.mapped b = true) :
    ¬ Slabs.inPages page n b = true := by
  intro hb
  rw [hf.unmapped b hb] at hmap
  exact absurd hmap (by simp)

/-- An allocation of whole pages keeps no more pages than it has. -/
lemma span_fpAllocation_le (s : Slabs) (size : ℕ) {page : ℕ} (hp : IsPage page) :
    span (s.fpAllocation size page).2 (page + 16) ≤ Slabs.fpPages size := by
  have htotal : (s.fpAllocation size page).2.totalCount page = Slabs.fpPages size % 2 ^ 16 :=
    Function.update_self _ _ _
  have hmod := Nat.mod_le (Slabs.fpPages size) (2 ^ 16)
  have hpos : 0 < Slabs.fpPages size := Nat.succ_pos _
  rw [span, alignDown4k_header hp, htotal]
  omega

/-- The live pointers after an allocation of whole pages. -/
lemma Spans.fpAllocation {size page : ℕ} (hs : Spans h)
    (hf : Fresh h.slabs page (Slabs.fpPages size)) :
    page + 16 ∉ h.live ∧ Spans ⟨(h.slabs.fpAllocation size page).2, (page + 16) :: h.live⟩ := by
  have hpage := hf.isPage (Nat.succ_pos _)
  have halign := alignDown4k_header hpage
  have hself : Slabs.inPages page (Slabs.fpPages size) page = true := inPages_self (Nat.succ_pos _)
  have hsame : ∀ b, h.slabs.mapped b = true →
      Slabs.SameAt h.slabs (h.slabs.fpAllocation size page).2 b :=
    fun b hmap => sameAt_fpAllocation (hf.notMem hmap)
  have hfresh : page + 16 ∉ h.live := fun hmem => hf.notMem (hs.mapped _ hmem) (by rwa [halign])
  have hspan := span_fpAllocation_le h.slabs size hpage
  have hkeep : ∀ q ∈ h.live, span (h.slabs.fpAllocation size page).2 q = span h.slabs q := by
    intro q hq
    rw [span, span, (hsame _ (hs.mapped q hq)).totalCount]
  have hown : ∀ q ∈ h.live, (h.slabs.fpAllocation size page).2.cacheOwner (alignDown4k q) =
      h.slabs.cacheOwner (alignDown4k q) := fun q hq => (hsame _ (hs.mapped q hq)).cacheOwner
  refine ⟨hfresh, List.nodup_cons.mpr ⟨hfresh, hs.nodup⟩, ?_, ?_, ?_⟩
  · intro q hq
    rcases List.mem_cons.mp hq with rfl | hq
    · rw [halign]
      exact (fpAllocation_fields hself).1
    · exact (hsame _ (hs.mapped q hq)).mapped.trans (hs.mapped q hq)
  · intro q hq hnone
    rcases List.mem_cons.mp hq with rfl | hq
    · refine ⟨by rw [halign]; exact hpage, by rw [halign], fun b hb => ?_⟩
      rw [halign] at hb
      exact fpAllocation_fields (inPages_mono hspan hb)
    · obtain ⟨hqpage, hqptr, hqpages⟩ := hs.big q hq ((hown q hq).symm.trans hnone)
      refine ⟨hqpage, hqptr, fun b hb => ?_⟩
      obtain ⟨hmap, howner⟩ := hqpages b (hkeep q hq ▸ hb)
      exact ⟨(hsame b hmap).mapped.trans hmap, (hsame b hmap).cacheOwner.trans howner⟩
  · -- the pages of the new allocation were not mapped, those of the others were
    have hnew : ∀ b, Slabs.inPages (alignDown4k (page + 16))
        (span (h.slabs.fpAllocation size page).2 (page + 16)) b = true →
        ¬ h.slabs.mapped b = true := by
      intro b hb hmap
      rw [halign] at hb
      exact hf.notMem hmap (inPages_mono hspan hb)
    have hbig : ∀ q ∈ h.live, (h.slabs.fpAllocation size page).2.cacheOwner (alignDown4k q) = none →
        ∀ b, Slabs.inPages (alignDown4k q) (span (h.slabs.fpAllocation size page).2 q) b = true →
          h.slabs.mapped b = true := by
      intro q hq hnone b hb
      exact ((hs.big q hq ((hown q hq).symm.trans hnone)).pages b (hkeep q hq ▸ hb)).1
    intro q hq r hr hqn hrn hne b hb
    rcases List.mem_cons.mp hq with rfl | hq <;> rcases List.mem_cons.mp hr with rfl | hr
    · exact absurd rfl hne
    · by_contra hbr
      exact hnew b hb (hbig r hr hrn b ((Bool.not_eq_false _).mp hbr))
    · by_contra hbr
      exact hnew b ((Bool.not_eq_false _).mp hbr) (hbig q hq hqn b hb)
    · have hapart := hs.apart q hq r hr ((hown q hq).symm.trans hqn)
        ((hown r hr).symm.trans hrn) hne b
      rw [← hkeep q hq, ← hkeep r hr] at hapart
      exact hapart hb

/-- **The third path of `kmalloc`**: whole pages. -/
lemma Inv.fpAllocation {size page : ℕ} (hinv : Inv h P F)
    (hf : Fresh h.slabs page (Slabs.fpPages size)) :
    (h.slabs.fpAllocation size page).1 ∉ h.live ∧
      Quiet none h ⟨(h.slabs.fpAllocation size page).2,
        (h.slabs.fpAllocation size page).1 :: h.live⟩ P F := by
  have halign := alignDown4k_header (hf.isPage (Nat.succ_pos _))
  have hself : Slabs.inPages page (Slabs.fpPages size) page = true := inPages_self (Nat.succ_pos _)
  obtain ⟨hfresh, hspans⟩ := hinv.spans.fpAllocation hf
  obtain ⟨hcaches, hev⟩ : (∀ d, Cache ⟨(h.slabs.fpAllocation size page).2, (page + 16) :: h.live⟩ d
      (P d) (F d)) ∧
      Evolves none h ⟨(h.slabs.fpAllocation size page).2, (page + 16) :: h.live⟩ := by
    refine hinv.caches_of_quiet (S := fun b => Slabs.inPages page (Slabs.fpPages size) b = true)
      (fun b hb d => ⟨fun hd => hf.notMem hd.1 hb, fun hd => ?_⟩)
      (fun b hb => sameAt_fpAllocation hb)
      (fun b hb => liveIn_cons_of_ne _ fun he => hb ?_) rfl rfl
    · have howner := hd.2
      rw [(fpAllocation_fields hb).2] at howner
      exact absurd howner (by simp)
    · rw [← he, halign]
      exact hself
  exact ⟨hfresh, ⟨hcaches, hspans.nodup, hspans.mapped, hspans.big, hspans.apart⟩, hev,
    fun d => rfl⟩

/-- Outside of its pages, freeing an allocation of whole pages changes nothing. -/
lemma sameAt_unmapPages {s : Slabs}
    (hb : ¬ Slabs.inPages (alignDown4k p) (span s p) b = true) :
    Slabs.SameAt s (s.unmapPages (alignDown4k p) (s.totalCount (alignDown4k p))) b := by
  refine ⟨rfl, rfl, rfl, rfl, rfl, rfl, ?_⟩
  have hsub : Slabs.inPages (alignDown4k p) (s.totalCount (alignDown4k p)) b = false := by
    by_contra hin
    exact hb (inPages_mono (le_max_right _ _) ((Bool.not_eq_false _).mp hin))
  simp [Slabs.unmapPages, hsub]

/-- The live pointers after an allocation of whole pages is freed. -/
lemma Spans.freePages (hs : Spans h) (hp : p ∈ h.live)
    (hnone : h.slabs.cacheOwner (alignDown4k p) = none) :
    Spans ⟨h.slabs.unmapPages (alignDown4k p) (h.slabs.totalCount (alignDown4k p)),
      h.live.erase p⟩ := by
  obtain ⟨hpage, hptr, hpages⟩ := hs.big p hp hnone
  have hmem : ∀ q ∈ h.live.erase p, q ∈ h.live ∧ q ≠ p := by
    intro q hq
    have := hs.nodup.mem_erase_iff.mp hq
    exact ⟨this.2, this.1⟩
  have hout : ∀ q ∈ h.live.erase p, h.slabs.cacheOwner (alignDown4k q) = none → ∀ b,
      Slabs.inPages (alignDown4k q) (span h.slabs q) b = true →
      ¬ Slabs.inPages (alignDown4k p) (span h.slabs p) b = true := by
    intro q hq hqn b hb hbp
    obtain ⟨hql, hne⟩ := hmem q hq
    rw [hs.apart q hql p hp hqn hnone hne b hb] at hbp
    exact absurd hbp (by simp)
  refine ⟨hs.nodup.erase p, ?_, ?_, ?_⟩
  · intro q hq
    have hmap := hs.mapped q (hmem q hq).1
    refine (sameAt_unmapPages fun hb => ?_).mapped.trans hmap
    have hqn := (hpages _ hb).2
    exact hout q hq hqn _ (inPages_self (span_pos h.slabs _)) hb
  · intro q hq hqn
    obtain ⟨hqpage, hqptr, hqpages⟩ := hs.big q (hmem q hq).1 hqn
    refine ⟨hqpage, hqptr, fun b hb => ?_⟩
    obtain ⟨hmap, howner⟩ := hqpages b hb
    exact ⟨(sameAt_unmapPages (hout q hq hqn b hb)).mapped.trans hmap, howner⟩
  · intro q hq r hr hqn hrn hne b
    exact hs.apart q (hmem q hq).1 r (hmem r hr).1 hqn hrn hne b

/-- **Freeing whole pages.** -/
lemma Inv.freePages (hinv : Inv h P F) (hp : p ∈ h.live)
    (hnone : h.slabs.cacheOwner (alignDown4k p) = none) :
    Quiet (some p) h ⟨h.slabs.unmapPages (alignDown4k p) (h.slabs.totalCount (alignDown4k p)),
      h.live.erase p⟩ P F := by
  obtain ⟨-, -, hpages⟩ := hinv.big p hp hnone
  have hself : Slabs.inPages (alignDown4k p) (span h.slabs p) (alignDown4k p) = true :=
    inPages_self (span_pos h.slabs _)
  obtain ⟨hcaches, hev⟩ : (∀ d, Cache ⟨h.slabs.unmapPages (alignDown4k p)
      (h.slabs.totalCount (alignDown4k p)), h.live.erase p⟩ d (P d) (F d)) ∧
      Evolves (some p) h ⟨h.slabs.unmapPages (alignDown4k p) (h.slabs.totalCount (alignDown4k p)),
        h.live.erase p⟩ := by
    refine hinv.caches_of_quiet
      (S := fun b => Slabs.inPages (alignDown4k p) (span h.slabs p) b = true)
      (fun b hb d => ?_) (fun b hb => sameAt_unmapPages hb)
      (fun b hb => liveIn_erase_of_ne _ fun he => hb (he ▸ hself)) rfl rfl
    have hnot : h.slabs.cacheOwner b ≠ some d := by simp [(hpages b hb).2]
    exact ⟨fun hd => hnot hd.2, fun hd => hnot hd.2⟩
  have hspans := hinv.spans.freePages hp hnone
  exact ⟨⟨hcaches, hspans.nodup, hspans.mapped, hspans.big, hspans.apart⟩, hev, fun d => rfl⟩

/-! ## Freeing an object -/

/-- What `kfree` of an object leads to. -/
structure Freed (h : Kheap) (s' : Slabs) (c : Fin 8) (a p : ℕ) (P F : Fin 8 → List ℕ) : Prop where
  outcome : Outcome (some p) h ⟨s', h.live.erase p⟩ c P F
  kept : s'.mapped a = true ↔ h.slabs.freeCount a + 1 < capacity c
  others : ∀ b, b ≠ a → s'.mapped b = h.slabs.mapped b
  owner : s'.cacheOwner = h.slabs.cacheOwner

/-- `free_count` after a live object has been pushed does not wrap around. -/
lemma SlabOk.freeCount_lt (hok : SlabOk h c a) (hp : p ∈ h.live) (hpa : alignDown4k p = a) :
    h.slabs.freeCount a < capacity c := by
  have hcount := hok.count
  have hpos : 0 < (h.liveIn a).length := List.length_pos_of_mem (mem_liveIn.mpr ⟨hp, hpa⟩)
  omega

/-- The stack after a push. -/
lemma freeCount_putLast (hlt : h.slabs.freeCount a < capacity c) :
    (h.slabs.putLast a p).freeCount =
      Function.update h.slabs.freeCount a (h.slabs.freeCount a + 1) := by
  have hcap := capacity_le c
  rw [Slabs.putLast, Nat.mod_eq_of_lt (by omega)]

/-- The slabs of the class after an object of `a` has been pushed. -/
lemma Cache.slab_push {P F : List ℕ} (hc : Cache h c P F) (ha : a ∈ P ++ F) (hp : p ∈ h.live)
    (hpa : alignDown4k p = a) (htotal : s'.totalCount = h.slabs.totalCount)
    (hcount : s'.freeCount = Function.update h.slabs.freeCount a (h.slabs.freeCount a + 1))
    (hlist : s'.freeList = (h.slabs.putLast a p).freeList) :
    ∀ b ∈ P ++ F, SlabOk ⟨s', h.live.erase p⟩ c b := by
  intro b hb
  by_cases hba : b = a
  · subst hba
    refine (hc.slab b hb).push hp hpa (by rw [htotal]) (by rw [hcount, Function.update_self]) ?_
    rw [hlist]
    exact Function.update_self _ _ _
  · refine (hc.slab b hb).congr (by rw [htotal]) ?_ ?_ ?_
    · rw [hcount, Function.update_of_ne hba]
    · rw [hlist]
      exact Function.update_of_ne hba _ _
    · exact liveIn_erase_of_ne s' fun he => hba (he.symm.trans hpa)

/-- The stacks after an object of `a` has been pushed. -/
lemma evolves_push (hslab : h.slabs.IsSlab c a) (hp : p ∈ h.live) (hpa : alignDown4k p = a)
    (hmap : ∀ b, s'.mapped b = true → h.slabs.mapped b = true)
    (hown : s'.cacheOwner = h.slabs.cacheOwner)
    (hcount : s'.freeCount = Function.update h.slabs.freeCount a (h.slabs.freeCount a + 1))
    (hlist : s'.freeList = (h.slabs.putLast a p).freeList) :
    Evolves (some p) h ⟨s', h.live.erase p⟩ := by
  intro d b hdb
  have hold : h.slabs.IsSlab d b := ⟨hmap b hdb.1, hown ▸ hdb.2⟩
  by_cases hba : b = a
  · subst hba
    refine .inr (.inr ⟨hold, p, rfl, hp, hpa, ?_, ?_⟩)
    · dsimp only
      rw [hlist]
      exact Function.update_self _ _ _
    · dsimp only
      rw [hcount, Function.update_self]
  · refine .inl ⟨hold, ?_, ?_⟩
    · dsimp only
      rw [hlist]
      exact Function.update_of_ne hba _ _
    · dsimp only
      rw [hcount, Function.update_of_ne hba]

/-- A push outside the class changes nothing. -/
lemma sameAt_push (hba : b ≠ a) (hnext : s'.next b = h.slabs.next b)
    (hprev : s'.prev b = h.slabs.prev b) (hown : s'.cacheOwner = h.slabs.cacheOwner)
    (htotal : s'.totalCount = h.slabs.totalCount)
    (hcount : s'.freeCount = Function.update h.slabs.freeCount a (h.slabs.freeCount a + 1))
    (hlist : s'.freeList = (h.slabs.putLast a p).freeList)
    (hmap : s'.mapped b = h.slabs.mapped b) : Slabs.SameAt h.slabs s' b := by
  refine ⟨hnext, hprev, by rw [hown], by rw [htotal], ?_, ?_, hmap⟩
  · rw [hcount, Function.update_of_ne hba]
  · rw [hlist]
    exact Function.update_of_ne hba _ _

/-- A pointer in a page without slabs of the class is in another page than a slab of it. -/
lemma liveIn_push (hslab : h.slabs.IsSlab c a) (hpa : alignDown4k p = a)
    (hb : ¬ h.slabs.IsSlab c b) : liveIn ⟨s', h.live.erase p⟩ b = h.liveIn b :=
  liveIn_erase_of_ne s' fun he => hb (he.symm.trans hpa ▸ hslab)

/-- **Freeing an object of a partial slab** that keeps live objects. -/
lemma Inv.freeKept (hinv : Inv h P F) (h7 : c ≠ 7) (haP : a ∈ P c) (hp : p ∈ h.live)
    (hpa : alignDown4k p = a) (hlt : h.slabs.freeCount a + 1 < capacity c) :
    Freed h (h.slabs.putLast a p) c a p P F := by
  have hc := hinv.caches c
  have hmem : a ∈ P c ++ F c := List.mem_append_left _ haP
  have hslab := (hc.slab_iff a).mpr hmem
  obtain ⟨hlist, hcount⟩ := hc.partials h7
  have hstack : (h.slabs.putLast a p).freeCount =
      Function.update h.slabs.freeCount a (h.slabs.freeCount a + 1) :=
    freeCount_putLast (c := c) (by omega)
  refine ⟨⟨⟨P c, F c, hinv.of_frame (S := h.slabs.IsSlab c) ?_ ?_ (hinv.nodup.erase p)⟩,
    evolves_push hslab hp hpa (fun b hb => hb) rfl hstack rfl, fun d _ => rfl⟩, ?_, fun b _ => rfl,
    rfl⟩
  · exact frame_class (fun b hb => hb) rfl (fun q _ hq => hq.1)
      (fun b hb => sameAt_push (fun he => hb (he ▸ hslab)) rfl rfl rfl rfl hstack rfl rfl)
      (fun b hb => liveIn_push hslab hpa hb) fun d _ => ⟨rfl, rfl⟩
  · refine ⟨hc.slab_iff, hc.nodup, hc.slab_push hmem hp hpa rfl hstack rfl,
      fun _ => ⟨hlist, fun b hb => ?_⟩, fun h7' => absurd h7' h7, hc.fulls, fun b hb => ?_⟩
    · dsimp only
      rw [hstack]
      by_cases hba : b = a
      · subst hba
        rw [Function.update_self]
        omega
      · rw [Function.update_of_ne hba]
        exact hcount b hb
    · have hba : b ≠ a := fun he => (List.nodup_append.mp hc.nodup).2.2 a haP a (he ▸ hb) rfl
      dsimp only
      rw [hstack, Function.update_of_ne hba]
      exact hc.fullCount b hb
  · exact ⟨fun _ => hlt, fun _ => hslab.1⟩

/-- The neighbours of a slab on one of the lists of a cache are mapped, and it is not its own
predecessor. -/
lemma Cache.neighbours {P F l₁ l₂ : List ℕ} {x : ℕ} (hc : Cache h c P F)
    (hlist : Linked.Dlist 0 h.slabs.next h.slabs.prev x (l₁ ++ a :: l₂))
    (hsub : ∀ b ∈ l₁ ++ a :: l₂, b ∈ P ++ F) :
    h.slabs.prev a ≠ a ∧ (h.slabs.next a = 0 ∨ h.slabs.mapped (h.slabs.next a) = true) ∧
      (h.slabs.prev a = 0 ∨ h.slabs.mapped (h.slabs.prev a) = true) := by
  obtain ⟨hnext, hprev⟩ := hlist.neighbours
  have hpos := (hc.slab a (hsub a (by simp))).page.pos
  refine ⟨fun he => ?_, hnext.imp_right fun hn => hc.mapped (hsub _ ?_),
    hprev.imp_right fun hn => hc.mapped (hsub _ (List.mem_append_left _ hn))⟩
  · rcases hprev with hz | hmem
    · omega
    · exact (List.nodup_append.mp hlist.1).2.2 _ hmem a (by simp) he
  · exact List.mem_append_right _ (List.mem_cons_of_mem _ hn)

/-- Unlinking a node of a list leaves the links of the nodes off the list. -/
lemma store_off {l₁ l₂ : List ℕ} {x : ℕ}
    (hlist : Linked.Dlist 0 h.slabs.next h.slabs.prev x (l₁ ++ a :: l₂)) (hb : b ∉ l₁ ++ a :: l₂) :
    Linked.store 0 h.slabs.next (h.slabs.prev a) (h.slabs.next a) b = h.slabs.next b ∧
      Linked.store 0 h.slabs.prev (h.slabs.next a) (h.slabs.prev a) b = h.slabs.prev b := by
  obtain ⟨hnext, hprev⟩ := hlist.neighbours
  constructor
  · refine Linked.store_of_nil_or_ne (hprev.imp_right fun hn he => hb ?_)
    exact List.mem_append_left _ (he ▸ hn)
  · refine Linked.store_of_nil_or_ne (hnext.imp_right fun hn he => hb ?_)
    exact List.mem_append_right _ (List.mem_cons_of_mem _ (he ▸ hn))

/-- What is left of a list without one of its nodes. -/
lemma mem_of_mem_rest {l₁ l₂ : List ℕ} (hnd : (l₁ ++ a :: l₂).Nodup) (hb : b ∈ l₁ ++ l₂) :
    b ∈ l₁ ++ a :: l₂ ∧ b ≠ a := by
  have hnot := (List.nodup_cons.mp (List.nodup_middle.mp hnd)).1
  refine ⟨?_, fun he => hnot (he ▸ hb)⟩
  rcases List.mem_append.mp hb with hb | hb
  · exact List.mem_append_left _ hb
  · exact List.mem_append_right _ (List.mem_cons_of_mem _ hb)

/-- **Freeing an object of a full slab** moves it to the partial list. -/
lemma Inv.freeFull (hinv : Inv h P F) (h7 : c ≠ 7) (haF : a ∈ F c) (hp : p ∈ h.live)
    (hpa : alignDown4k p = a) :
    ∃ s', (h.slabs.putLast a p).moveToPartial c a = some s' ∧ s'.freeCount a = 1 ∧
      s'.totalCount a = capacity c ∧ Freed h s' c a p P F := by
  have hc := hinv.caches c
  have hmem : a ∈ P c ++ F c := List.mem_append_right _ haF
  have hslab := (hc.slab_iff a).mpr hmem
  have hzero := hc.fullCount a haF
  have htwo := two_le_capacity c h7
  have hstack : (h.slabs.putLast a p).freeCount =
      Function.update h.slabs.freeCount a (h.slabs.freeCount a + 1) :=
    freeCount_putLast (c := c) (by omega)
  obtain ⟨F₁, F₂, hF⟩ := List.append_of_mem haF
  have hfulls := hc.fulls
  rw [hF] at hfulls
  obtain ⟨hself, hmapN, hmapP⟩ := hc.neighbours hfulls fun b hb =>
    List.mem_append_right _ (hF ▸ hb)
  obtain ⟨hlist, hcount⟩ := hc.partials h7
  obtain ⟨hndP, hndF, hdis⟩ := List.nodup_append.mp hc.nodup
  have haP : a ∉ P c := fun haP => hdis a haP a haF rfl
  have hhead := hlist.head_mem
  have hmapH : h.slabs.partialHead c = 0 ∨ h.slabs.mapped (h.slabs.partialHead c) = true :=
    hhead.imp_right fun hm => hc.mapped (List.mem_append_left _ hm)
  refine ⟨_, Slabs.moveToPartial_eq hself hmapN hmapP hmapH, ?_, (hc.slab a hmem).total, ?_⟩
  · dsimp only
    rw [hstack, Function.update_self, hzero]
  have hperm : (a :: P c ++ (F₁ ++ F₂)).Perm (P c ++ F c) := by
    rw [hF, List.cons_append, ← List.append_assoc, ← List.append_assoc]
    exact List.perm_middle.symm
  have hsepF : ∀ b, b ∈ P c ∨ ¬ h.slabs.IsSlab c b → b ∉ F₁ ++ a :: F₂ := by
    rintro b (hb | hb) hbF
    · exact hdis b hb b (hF ▸ hbF) rfl
    · exact hb ((hc.slab_iff b).mpr (List.mem_append_right _ (hF ▸ hbF)))
  have hsepP : ∀ b, b ∈ F₁ ++ F₂ ∨ ¬ h.slabs.IsSlab c b →
      h.slabs.partialHead c = 0 ∨ b ≠ h.slabs.partialHead c := by
    intro b hb
    refine hhead.imp_right fun hm he => ?_
    rcases hb with hb | hb
    · exact hdis b (he ▸ hm) b (hF ▸ (mem_of_mem_rest hfulls.1 hb).1) rfl
    · exact hb ((hc.slab_iff b).mpr (List.mem_append_left _ (he ▸ hm)))
  refine ⟨⟨⟨a :: P c, F₁ ++ F₂, hinv.of_frame (S := h.slabs.IsSlab c) ?_ ?_ (hinv.nodup.erase p)⟩,
    evolves_push hslab hp hpa (fun b hb => hb) rfl hstack rfl,
    fun d hd => Function.update_of_ne hd _ _⟩, ⟨fun _ => by omega, fun _ => hslab.1⟩,
    fun b _ => rfl, rfl⟩
  · refine frame_class (fun b hb => hb) rfl (fun q _ hq => hq.1) (fun b hb => ?_)
      (fun b hb => liveIn_push hslab hpa hb)
      fun d hd => ⟨Function.update_of_ne hd _ _, Function.update_of_ne hd _ _⟩
    have hba : b ≠ a := fun he => hb (he ▸ hslab)
    obtain ⟨hnext, hprev⟩ := store_off hfulls (hsepF b (.inr hb))
    refine sameAt_push hba ((Function.update_of_ne hba _ _).trans hnext) ?_ rfl rfl hstack rfl rfl
    refine (Function.update_of_ne hba _ _).trans ?_
    exact (Linked.store_of_nil_or_ne (hsepP b (.inr hb))).trans hprev
  · refine ⟨fun b => (hc.slab_iff b).trans hperm.mem_iff.symm, hperm.nodup_iff.mpr hc.nodup,
      fun b hb => ?_, fun _ => ⟨?_, fun b hb => ?_⟩, fun h7' => absurd h7' h7, ?_, fun b hb => ?_⟩
    · refine hc.slab_push hmem hp hpa ?_ ?_ ?_ b (hperm.mem_iff.mp hb)
      · rfl
      · exact hstack
      · rfl
    · have hlist' : Linked.Dlist 0
          (Linked.store 0 h.slabs.next (h.slabs.prev a) (h.slabs.next a))
          (Linked.store 0 h.slabs.prev (h.slabs.next a) (h.slabs.prev a))
          (h.slabs.partialHead c) (P c) :=
        hlist.congr fun b hb => store_off hfulls (hsepF b (.inl hb))
      dsimp only
      rw [Function.update_self]
      exact hlist'.push haP (hc.slab a hmem).page.pos.ne'
    · dsimp only
      rw [hstack]
      rcases List.mem_cons.mp hb with rfl | hb
      · rw [Function.update_self]
        omega
      · have hba : b ≠ a := fun he => haP (he ▸ hb)
        rw [Function.update_of_ne hba]
        exact hcount b hb
    · dsimp only
      rw [Function.update_self]
      refine hfulls.unlink.congr fun b hb => ?_
      have hba := (mem_of_mem_rest hfulls.1 hb).2
      refine ⟨Function.update_of_ne hba _ _, (Function.update_of_ne hba _ _).trans ?_⟩
      exact Linked.store_of_nil_or_ne (hsepP b (.inl hb))
    · obtain ⟨hbF, hba⟩ := mem_of_mem_rest hfulls.1 hb
      dsimp only
      rw [hstack, Function.update_of_ne hba]
      exact hc.fullCount b (hF ▸ hbF)

/-- The last live object of a slab. -/
lemma SlabOk.liveIn_eq_singleton (hok : SlabOk h c a) (hp : p ∈ h.live) (hpa : alignDown4k p = a) :
    h.slabs.freeCount a + 1 = capacity c ↔ h.liveIn a = [p] := by
  have hcount := hok.count
  have hmem : p ∈ h.liveIn a := mem_liveIn.mpr ⟨hp, hpa⟩
  constructor
  · intro hcap
    obtain ⟨q, hq⟩ := List.length_eq_one_iff.mp (show (h.liveIn a).length = 1 by omega)
    rw [hq] at hmem ⊢
    rw [List.mem_singleton.mp hmem]
  · intro hone
    rw [hone, List.length_singleton] at hcount
    exact hcount

/-- When the last live object of a slab is freed, no other pointer is in its page. -/
lemma Spans.ne_of_last (hs : Spans h) (hone : h.liveIn a = [p]) {q : ℕ}
    (hq : q ∈ h.live.erase p) : alignDown4k q ≠ a := by
  intro hqa
  obtain ⟨hne, hlive⟩ := hs.nodup.mem_erase_iff.mp hq
  have hmem : q ∈ h.liveIn a := mem_liveIn.mpr ⟨hlive, hqa⟩
  rw [hone, List.mem_singleton] at hmem
  exact hne hmem

/-- A page that is unmapped alone. -/
lemma mapped_release {s : Slabs} (hba : b ≠ a) :
    (s.mapped b && !Slabs.inPages a 1 b) = s.mapped b := by
  have hnot : Slabs.inPages a 1 b = false := by
    rw [← Bool.not_eq_true]
    exact fun hin => hba (Slabs.inPages_one.mp hin)
  rw [hnot, Bool.not_false, Bool.and_true]

/-- What is still mapped is not in the slab that has been released. -/
lemma ne_of_mapped_release {s : Slabs} (hb : (s.mapped b && !Slabs.inPages a 1 b) = true) :
    b ≠ a := by
  rintro rfl
  rw [Slabs.inPages_one.mpr rfl, Bool.not_true, Bool.and_false] at hb
  exact Bool.false_ne_true hb

/-- **Freeing the last live object of a slab** releases it. -/
lemma Inv.freeLast (hinv : Inv h P F) (h7 : c ≠ 7) (haP : a ∈ P c) (hp : p ∈ h.live)
    (hpa : alignDown4k p = a) (hcap : h.slabs.freeCount a + 1 = capacity c) :
    ∃ s', (h.slabs.putLast a p).release c a = some s' ∧ Freed h s' c a p P F := by
  have hc := hinv.caches c
  have hmem : a ∈ P c ++ F c := List.mem_append_left _ haP
  have hslab := (hc.slab_iff a).mpr hmem
  have hlast := ((hc.slab a hmem).liveIn_eq_singleton hp hpa).mp hcap
  have hstack : (h.slabs.putLast a p).freeCount =
      Function.update h.slabs.freeCount a (h.slabs.freeCount a + 1) :=
    freeCount_putLast (c := c) (by omega)
  obtain ⟨P₁, P₂, hP⟩ := List.append_of_mem haP
  obtain ⟨hlist, hcount⟩ := hc.partials h7
  have hlist' := hlist
  rw [hP] at hlist'
  obtain ⟨hself, hmapN, hmapP⟩ := hc.neighbours hlist' fun b hb =>
    List.mem_append_left _ (hP ▸ hb)
  obtain ⟨hndP, hndF, hdis⟩ := List.nodup_append.mp hc.nodup
  have hunmap : ∀ b, (h.slabs.mapped b && !Slabs.inPages a 1 b) = true →
      h.slabs.mapped b = true := fun b hb => (Bool.and_eq_true_iff.mp hb).1
  have hsep : ∀ b, b ∈ F c ∨ ¬ h.slabs.IsSlab c b → b ∉ P₁ ++ a :: P₂ := by
    rintro b (hb | hb) hbP
    · exact hdis b (hP ▸ hbP) b hb rfl
    · exact hb ((hc.slab_iff b).mpr (List.mem_append_left _ (hP ▸ hbP)))
  refine ⟨_, Slabs.release_eq hself hmapN hmapP, ⟨⟨⟨P₁ ++ P₂, F c, hinv.of_frame
    (S := h.slabs.IsSlab c) ?_ ?_ (hinv.nodup.erase p)⟩, evolves_push hslab hp hpa hunmap rfl hstack
    rfl, fun d hd => Function.update_of_ne hd _ _⟩, ?_, fun b hb => mapped_release hb, rfl⟩⟩
  · refine frame_class hunmap rfl (fun q hq hqs => ?_) (fun b hb => ?_)
      (fun b hb => liveIn_push hslab hpa hb) fun d hd => ⟨Function.update_of_ne hd _ _, rfl⟩
    · exact (mapped_release (hinv.spans.ne_of_last hlast hq)).trans hqs.1
    · have hba : b ≠ a := fun he => hb (he ▸ hslab)
      obtain ⟨hnext, hprev⟩ := store_off hlist' (hsep b (.inr hb))
      exact sameAt_push hba hnext hprev rfl rfl hstack rfl (mapped_release hba)
  · have hrest : ∀ b ∈ P₁ ++ P₂ ++ F c, b ∈ P c ++ F c ∧ b ≠ a := by
      intro b hb
      rcases List.mem_append.mp hb with hb | hb
      · obtain ⟨hbP, hba⟩ := mem_of_mem_rest hlist'.1 hb
        exact ⟨List.mem_append_left _ (hP ▸ hbP), hba⟩
      · exact ⟨List.mem_append_right _ hb, fun he => hdis a haP b hb he.symm⟩
    refine ⟨fun b => ?_, ?_, fun b hb => ?_, fun _ => ⟨?_, fun b hb => ?_⟩,
      fun h7' => absurd h7' h7, ?_, fun b hb => ?_⟩
    · constructor
      · intro hb
        have hba : b ≠ a := ne_of_mapped_release hb.1
        have hold := (hc.slab_iff b).mp ⟨hunmap b hb.1, hb.2⟩
        rw [hP] at hold
        simp only [List.mem_append, List.mem_cons] at hold ⊢
        tauto
      · intro hb
        obtain ⟨hold, hba⟩ := hrest b hb
        have hs := (hc.slab_iff b).mpr hold
        exact ⟨(mapped_release hba).trans hs.1, hs.2⟩
    · have hnd := hc.nodup
      rw [hP, List.append_assoc, List.cons_append] at hnd
      rw [List.append_assoc]
      exact (List.nodup_cons.mp (List.nodup_middle.mp hnd)).2
    · refine hc.slab_push hmem hp hpa ?_ ?_ ?_ b (hrest b hb).1
      · rfl
      · exact hstack
      · rfl
    · dsimp only
      rw [Function.update_self]
      exact hlist'.unlink
    · obtain ⟨hbP, hba⟩ := mem_of_mem_rest hlist'.1 hb
      dsimp only
      rw [hstack, Function.update_of_ne hba]
      exact hcount b (hP ▸ hbP)
    · exact hc.fulls.congr fun b hb => store_off hlist' (hsep b (.inl hb))
    · have hba : b ≠ a := fun he => hdis a haP b hb he.symm
      dsimp only
      rw [hstack, Function.update_of_ne hba]
      exact hc.fullCount b hb
  · exact ⟨fun hmap => absurd rfl (ne_of_mapped_release hmap), fun hlt => by omega⟩

/-- **Freeing the object of a slab of the last class** goes through both lists and releases the
slab. -/
lemma Inv.freeSingle (hinv : Inv h P F) (hmem : a ∈ P 7 ++ F 7) (hp : p ∈ h.live)
    (hpa : alignDown4k p = a) :
    ∃ s', h.slabs.freeObject 7 a p = some s' ∧ Freed h s' 7 a p P F := by
  have hc := hinv.caches 7
  have hslab := (hc.slab_iff a).mpr hmem
  have hok := hc.slab a hmem
  obtain ⟨hsingle, hF⟩ := hc.single rfl
  obtain ⟨hP, hhead, hnext, hprev, hzero⟩ : P 7 = [a] ∧ h.slabs.partialHead 7 = a ∧
      h.slabs.next a = 0 ∧ h.slabs.prev a = 0 ∧ h.slabs.freeCount a = 0 := by
    rcases hsingle with hnil | ⟨b, hP, hrest⟩
    · rw [hnil, hF] at hmem
      exact absurd hmem List.not_mem_nil
    · rw [hP, hF, List.append_nil, List.mem_singleton] at hmem
      subst hmem
      exact ⟨hP, hrest⟩
  have hpos := hok.page.pos
  have hcap := capacity_last
  have hstack : (h.slabs.putLast a p).freeCount =
      Function.update h.slabs.freeCount a (h.slabs.freeCount a + 1) :=
    freeCount_putLast (c := 7) (by omega)
  have hone : (h.slabs.putLast a p).freeCount a = 1 := by
    rw [hstack, Function.update_self, hzero]
  have hlast := (hok.liveIn_eq_singleton hp hpa).mp (by omega)
  have hnone : ∀ b, b ≠ a → ¬ h.slabs.IsSlab 7 b := by
    intro b hba hb
    have := (hc.slab_iff b).mp hb
    rw [hP, hF, List.append_nil, List.mem_singleton] at this
    exact hba this
  have hfull : h.slabs.fullHead 7 = 0 := by
    have hlist := hc.fulls
    rw [hF] at hlist
    exact hlist.2.2.choose_spec.2
  have hnot : h.slabs.fullHead 7 ≠ a := by omega
  obtain ⟨s₂, s₃, hs₂, hcount₂, htotal₂, hs₃, hdrop⟩ :=
    Slabs.relink_single (s := h.slabs.putLast a p)
    (c := 7) hpos hnext hprev hhead hnot hslab.1
  have hmap₃ : ∀ b, s₃.mapped b = (h.slabs.mapped b && !Slabs.inPages a 1 b) :=
    fun b => congrFun hdrop.mapped b
  have hunmap : ∀ b, s₃.mapped b = true → h.slabs.mapped b = true :=
    fun b hb => (Bool.and_eq_true_iff.mp ((hmap₃ b).symm.trans hb)).1
  have hown₃ : s₃.cacheOwner = h.slabs.cacheOwner := hdrop.cacheOwner
  have hcount₃ : s₃.freeCount =
      Function.update h.slabs.freeCount a (h.slabs.freeCount a + 1) := hdrop.freeCount.trans hstack
  refine ⟨s₃, ?_, ⟨⟨[], [], hinv.of_frame (S := h.slabs.IsSlab 7) ?_ ?_ (hinv.nodup.erase p)⟩,
    evolves_push hslab hp hpa hunmap hown₃ hcount₃ hdrop.freeList,
    fun d hd => hdrop.partialHead d hd⟩, ?_, fun b hb => (hmap₃ b).trans (mapped_release hb),
    hown₃⟩
  · rw [Slabs.freeObject]
    dsimp only
    rw [if_pos hone, hs₂, Option.bind_eq_bind, Option.bind_some, if_pos ?_]
    · exact hs₃
    · rw [hcount₂, htotal₂, hone]
      exact (hok.total.trans hcap).symm
  · refine frame_class hunmap hown₃ (fun q hq hqs => ?_) (fun b hb => ?_)
      (fun b hb => liveIn_push hslab hpa hb)
      fun d hd => ⟨hdrop.partialHead d hd, congrFun hdrop.fullHead d⟩
    · exact (hmap₃ _).trans ((mapped_release (hinv.spans.ne_of_last hlast hq)).trans hqs.1)
    · have hba : b ≠ a := fun he => hb (he ▸ hslab)
      obtain ⟨hn, hpr⟩ := hdrop.links b hba
      exact sameAt_push hba hn hpr hown₃ hdrop.totalCount hcount₃ hdrop.freeList
        ((hmap₃ b).trans (mapped_release hba))
  · refine ⟨fun b => ⟨fun hb => ?_, fun hb => absurd hb List.not_mem_nil⟩, List.nodup_nil,
      fun b hb => absurd hb List.not_mem_nil, fun h7 => absurd rfl h7, fun _ => ⟨.inl rfl, rfl⟩,
      ⟨List.nodup_nil, List.not_mem_nil, 0, rfl, ?_⟩, fun b hb => absurd hb List.not_mem_nil⟩
    · have hba : b ≠ a := ne_of_mapped_release ((hmap₃ b).symm.trans hb.1)
      exact absurd ⟨hunmap b hb.1, hown₃ ▸ hb.2⟩ (hnone b hba)
    · exact (congrFun hdrop.fullHead 7).trans hfull
  · exact ⟨fun hmap => absurd rfl (ne_of_mapped_release ((hmap₃ a).symm.trans hmap)),
      fun hlt => by omega⟩

/-- **`kfree` of an object**, of any class. -/
lemma Inv.freeObject (hinv : Inv h P F) (hp : p ∈ h.live) (hpa : alignDown4k p = a)
    (hslab : h.slabs.IsSlab c a) :
    ∃ s', h.slabs.freeObject c a p = some s' ∧ Freed h s' c a p P F := by
  have hc := hinv.caches c
  have hmem := (hc.slab_iff a).mp hslab
  have hok := hc.slab a hmem
  by_cases h7 : c = 7
  · subst h7
    exact hinv.freeSingle hmem hp hpa
  have hlt := hok.freeCount_lt hp hpa
  have htotal : (h.slabs.putLast a p).totalCount a = capacity c := hok.total
  have hstack : (h.slabs.putLast a p).freeCount a = h.slabs.freeCount a + 1 := by
    rw [freeCount_putLast hlt, Function.update_self]
  have htwo := two_le_capacity c h7
  rw [Slabs.freeObject]
  dsimp only
  rcases List.mem_append.mp hmem with haP | haF
  · have hpos := ((hc.partials h7).count a haP).1
    rw [if_neg (by omega), Option.bind_eq_bind, Option.bind_some, hstack, htotal]
    by_cases hcap : h.slabs.freeCount a + 1 = capacity c
    · obtain ⟨s', hs', hfreed⟩ := hinv.freeLast h7 haP hp hpa hcap
      exact ⟨s', by rw [if_pos hcap, hs'], hfreed⟩
    · exact ⟨_, by rw [if_neg hcap], hinv.freeKept h7 haP hp hpa (by omega)⟩
  · have hzero := hc.fullCount a haF
    obtain ⟨s', hs', hone, htot, hfreed⟩ := hinv.freeFull h7 haF hp hpa
    refine ⟨s', ?_, hfreed⟩
    rw [if_pos (by omega), hs', Option.bind_eq_bind, Option.bind_some, hone, htot,
      if_neg (by omega)]

/-! ## The two functions -/

/-- `kmalloc` for the last class is called only while its cache has no slab recorded. -/
def Alone (h : Kheap) : Call → Prop
  | .kmalloc size _ => sizeToClass size = some 7 → h.slabs.partialHead 7 = 0
  | .kfree _ => True

/-- **`kmalloc`** returns a pointer that is not live and keeps the invariant. -/
theorem Inv.kmalloc {size page : ℕ} (hinv : Inv h P F) (hok : h.Alone (.kmalloc size page))
    (hf : Fresh h.slabs page (h.slabs.demand size)) :
    ∃ p s', h.slabs.kmalloc size page = some (p, s') ∧ p ∉ h.live ∧
      Evolves none h ⟨s', p :: h.live⟩ ∧ (∃ P' F', Inv ⟨s', p :: h.live⟩ P' F') ∧
      (sizeToClass size ≠ some 7 → s'.partialHead 7 = h.slabs.partialHead 7) := by
  rw [Slabs.kmalloc]
  rw [Slabs.demand] at hf
  cases hsize : sizeToClass size with
  | none =>
    rw [hsize] at hf
    obtain ⟨hfresh, hq⟩ := hinv.fpAllocation hf
    exact ⟨_, _, rfl, hfresh, hq.evolves, ⟨P, F, hq.inv⟩, fun _ => hq.heads 7⟩
  | some c =>
    rw [hsize] at hf
    dsimp only at hf ⊢
    have hheads : ∀ {s' : Slabs} {p : ℕ}, Outcome none h ⟨s', p :: h.live⟩ c P F → some c ≠ some 7 →
        s'.partialHead 7 = h.slabs.partialHead 7 := by
      intro s' p hout hne
      exact hout.heads 7 fun he => hne (congrArg some he.symm)
    by_cases hzero : h.slabs.partialHead c = 0
    · rw [if_neg (not_not.mpr hzero)] at hf ⊢
      obtain ⟨hfresh, hout⟩ := hinv.newSlab hzero hf
      obtain ⟨P₁, F₁, hinv'⟩ := hout.inv
      exact ⟨_, _, rfl, hfresh, hout.evolves, ⟨_, _, hinv'⟩, hheads hout⟩
    · have h7 : c ≠ 7 := by
        rintro rfl
        exact hzero (hok hsize)
      rw [if_pos hzero]
      obtain ⟨p, s', hs', hfresh, hout⟩ := hinv.popPartial h7 hzero
      obtain ⟨P₁, F₁, hinv'⟩ := hout.inv
      exact ⟨p, s', hs', hfresh, hout.evolves, ⟨_, _, hinv'⟩, hheads hout⟩

/-- **`kfree`** of a live pointer keeps the invariant. Of an object it releases the slab when no
other object of it is live, and no other slab. -/
theorem Inv.kfree (hinv : Inv h P F) (hp : p ∈ h.live) :
    ∃ s', h.slabs.kfree p = some s' ∧ Evolves (some p) h ⟨s', h.live.erase p⟩ ∧
      (∃ P' F', Inv ⟨s', h.live.erase p⟩ P' F') ∧
      ((∀ c, h.slabs.cacheOwner (alignDown4k p) ≠ some c) →
        s'.partialHead = h.slabs.partialHead) ∧
      ∀ c, h.slabs.IsSlab c (alignDown4k p) → Freed h s' c (alignDown4k p) p P F := by
  have hmap := hinv.mapped p hp
  rw [Slabs.kfree, if_neg (by rw [hmap]; simp)]
  cases howner : h.slabs.cacheOwner (alignDown4k p) with
  | none =>
    have hq := hinv.freePages hp howner
    refine ⟨_, rfl, hq.evolves, ⟨P, F, hq.inv⟩, fun _ => funext hq.heads, fun c hc => ?_⟩
    rw [Slabs.IsSlab, howner] at hc
    exact absurd hc.2 (by simp)
  | some c =>
    obtain ⟨s', hs', hfreed⟩ := hinv.freeObject hp rfl ⟨hmap, howner⟩
    obtain ⟨P₁, F₁, hinv'⟩ := hfreed.outcome.inv
    refine ⟨s', hs', hfreed.outcome.evolves, ⟨_, _, hinv'⟩, fun hne => absurd rfl (hne c),
      fun d hd => ?_⟩
    obtain rfl := hd.unique ⟨hmap, howner⟩
    exact hfreed

/-- Before the first call the caches are empty. -/
lemma inv_of_init (hi : h.Init) : Inv h (fun _ => []) fun _ => [] := by
  obtain ⟨hpart, hfull, hmap, hlive⟩ := hi
  have hnil : ∀ x, x = 0 → Linked.Dlist 0 h.slabs.next h.slabs.prev x [] :=
    fun x hx => ⟨List.nodup_nil, List.not_mem_nil, 0, rfl, hx⟩
  have hnone : ∀ c a, ¬ h.slabs.IsSlab c a := fun c a hc => by
    rw [Slabs.IsSlab, hmap] at hc
    exact absurd hc.1 (by simp)
  refine ⟨fun c => ⟨fun a => ?_, List.nodup_nil, ?_, fun _ => ⟨hnil _ (hpart c), ?_⟩,
    fun _ => ⟨.inl rfl, rfl⟩, hnil _ (hfull c), ?_⟩, by rw [hlive]; exact List.nodup_nil, ?_, ?_,
      ?_⟩
  · simp [hnone]
  all_goals simp [hlive]

/-- **Every reachable state has the invariant.** -/
theorem inv_of_reach (hr : Transition.Reach Init Step Alone h) : ∃ P F, Inv h P F := by
  refine hr.invariant (I := fun h => ∃ P F, Inv h P F) (fun h hi => ⟨_, _, inv_of_init hi⟩) ?_
  rintro h call h' ⟨P, F, hinv⟩ hok ⟨hen, hexec⟩
  cases call with
  | kmalloc size page =>
    obtain ⟨p, s', hs', -, -, hinv', -⟩ := hinv.kmalloc hok hen.2
    rw [exec, hs'] at hexec
    obtain rfl := Option.some.inj hexec
    exact hinv'
  | kfree ptr =>
    obtain ⟨s', hs', -, hinv', -⟩ := hinv.kfree hen
    rw [exec, hs'] at hexec
    obtain rfl := Option.some.inj hexec
    exact hinv'

end Kheap

end AlphaOS
