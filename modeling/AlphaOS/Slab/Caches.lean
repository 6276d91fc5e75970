import AlphaOS.Slab.Steps

set_option relaxedAutoImplicit false
set_option autoImplicit false

/-!
# Conservation of objects, and the lists of slabs

What clients of `kmalloc` and `kfree` can rely on. The objects of a slab are conserved: each is on
the stack or live. The slabs of a cache are on its partial list or on its full list, by their number
of free objects; this fails for the last class, whose slabs hold one object, and is left free of it.

## Main definitions

* `AlphaOS.Kheap.Listed` — every cache has its slabs on its two lists.
* `AlphaOS.Kheap.Small` — no object of the last class is asked for.

## Main results

* `AlphaOS.Kheap.objects_conserved` — the free and the live objects are a partition of the slab's
  objects, and a slab is released with its last live object.
* `AlphaOS.Kheap.listed_iff_small` — the lists are right exactly as long as the last class is not
  used.
* `AlphaOS.Kheap.exhausted_on_partial` — an exhausted slab on a partial list.
-/

namespace AlphaOS

namespace Kheap

variable {h h' : Kheap} {P F : Fin 8 → List ℕ}

/-! ## Conservation -/

/-- Nothing has been allocated. -/
def empty : Kheap where
  slabs :=
    { next := fun _ => 0
      prev := fun _ => 0
      cacheOwner := fun _ => none
      totalCount := fun _ => 0
      freeCount := fun _ => 0
      freeList := fun _ _ => 0
      partialHead := fun _ => 0
      fullHead := fun _ => 0
      mapped := fun _ => false }
  live := []

/-- The empty heap is one to start from. -/
lemma init_empty : empty.Init := ⟨fun _ => rfl, fun _ => rfl, fun _ => rfl, rfl⟩

/-- The first page of the heap can be mapped when nothing is. -/
lemma fresh_empty (n : ℕ) (hn : n ≤ 1) : Fresh empty.slabs kheapStart n :=
  ⟨by decide, Nat.le_refl _, by rw [kheapStart]; omega, fun _ _ => rfl⟩

/-- After one call `kmalloc(1000)`. -/
def one : Kheap := (empty.exec (.kmalloc 1000 kheapStart)).get (by decide)

/-- The first call. -/
lemma step_one : empty.Step (.kmalloc 1000 kheapStart) one :=
  ⟨⟨by decide, fresh_empty _ (by decide)⟩, (Option.some_get _).symm⟩

/-- The lists of every cache are doubly linked lists without cycles, the slabs of the class are on
one of them each, and on the list that their number of free objects calls for; and no enabled call
leaves the allocator's data. -/
structure Listed (h : Kheap) : Prop where
  lists : ∀ c, ∃ P F : List ℕ,
    Linked.Dlist 0 h.slabs.next h.slabs.prev (h.slabs.partialHead c) P ∧
    Linked.Dlist 0 h.slabs.next h.slabs.prev (h.slabs.fullHead c) F ∧
    (∀ a, h.slabs.IsSlab c a ↔ a ∈ P ++ F) ∧ (P ++ F).Nodup ∧
    (∀ a ∈ P, 0 < h.slabs.freeCount a ∧ h.slabs.freeCount a < h.slabs.totalCount a) ∧
    ∀ a ∈ F, h.slabs.freeCount a = 0
  safe : ∀ call, h.Enabled call → ∃ h', h.exec call = some h'

/-- The call does not ask for an object of the last class. -/
def Small (_ : Kheap) : Call → Prop
  | .kmalloc size _ => size ≤ 1024 ∨ 2048 < size
  | .kfree _ => True

/-- The sizes of the last class. -/
lemma sizeToClass_eq_last {size : ℕ} :
    sizeToClass size = some 7 ↔ ¬ (size ≤ 1024 ∨ 2048 < size) := by
  have hsplit : List.finRange 8 = [0, 1, 2, 3, 4, 5, 6] ++ 7 :: [] := by decide
  have hsmall : ∀ c ∈ ([0, 1, 2, 3, 4, 5, 6] : List (Fin 8)), objSize c ≤ 1024 := by decide
  have hlast : objSize 6 = 1024 ∧ objSize 7 = 2048 := by decide
  rw [sizeToClass, hsplit, List.find?_append]
  constructor
  · intro hfind
    cases hfirst : List.find? (fun i => decide (size ≤ objSize i)) [0, 1, 2, 3, 4, 5, 6] with
    | some c =>
      rw [hfirst, Option.some_or] at hfind
      have hmem := List.mem_of_find?_eq_some hfirst
      rw [Option.some.inj hfind] at hmem
      exact absurd hmem (by decide)
    | none =>
      rw [hfirst, Option.none_or] at hfind
      have h₆ := List.find?_eq_none.mp hfirst 6 (by decide)
      have h₇ := List.find?_some hfind
      simp only [decide_eq_true_eq] at h₆ h₇
      omega
  · intro hsize
    have hfirst : List.find? (fun i => decide (size ≤ objSize i)) [0, 1, 2, 3, 4, 5, 6] = none := by
      refine List.find?_eq_none.mpr fun c hc => ?_
      have := hsmall c hc
      simp only [decide_eq_true_eq]
      omega
    rw [hfirst, Option.none_or, List.find?_cons_of_pos]
    simp only [decide_eq_true_eq]
    omega

/-- The last class is not in use. -/
lemma Inv.unused (hinv : Inv h P F) (hzero : h.slabs.partialHead 7 = 0) :
    (∀ a, ¬ h.slabs.IsSlab 7 a) ∧ h.slabs.fullHead 7 = 0 := by
  have hc := hinv.caches 7
  have hF := (hc.single rfl).2
  have hfull := hc.fulls
  rw [hF] at hfull
  refine ⟨fun a ha => ?_, hfull.2.2.choose_spec.2⟩
  have hmem := (hc.slab_iff a).mp ha
  rw [hc.partial_eq_nil hzero, hF] at hmem
  exact absurd hmem List.not_mem_nil

/-- The lists while the last class is not in use. -/
lemma Inv.listed (hinv : Inv h P F) (hzero : h.slabs.partialHead 7 = 0) : h.Listed := by
  constructor
  · intro c
    have hc := hinv.caches c
    by_cases h7 : c = 7
    · subst h7
      obtain ⟨hnone, hfull⟩ := hinv.unused hzero
      have hnil : ∀ x, x = 0 → Linked.Dlist 0 h.slabs.next h.slabs.prev x [] :=
        fun x hx => ⟨List.nodup_nil, List.not_mem_nil, 0, rfl, hx⟩
      exact ⟨[], [], hnil _ hzero, hnil _ hfull, by simpa using hnone, List.nodup_nil, by simp,
        by simp⟩
    · obtain ⟨hlist, hcount⟩ := hc.partials h7
      refine ⟨P c, F c, hlist, hc.fulls, hc.slab_iff, hc.nodup, fun a ha => ?_, hc.fullCount⟩
      rw [(hc.slab a (List.mem_append_left _ ha)).total]
      exact hcount a ha
  · intro call hen
    cases call with
    | kmalloc size page =>
      obtain ⟨p, s', hs', -⟩ := hinv.kmalloc (fun _ => hzero) hen.2
      exact ⟨⟨s', p :: h.live⟩, by rw [exec, hs']; rfl⟩
    | kfree ptr =>
      obtain ⟨s', hs', -⟩ := hinv.kfree hen
      exact ⟨⟨s', h.live.erase ptr⟩, by rw [exec, hs']; rfl⟩

/-- The invariant of the runs that do not use the last class. -/
lemma inv_of_small (hr : Transition.Reach Init Step Small h) :
    ∃ P F, Inv h P F ∧ h.slabs.partialHead 7 = 0 := by
  refine hr.invariant (I := fun h => ∃ P F, Inv h P F ∧ h.slabs.partialHead 7 = 0)
    (fun h hi => ⟨_, _, inv_of_init hi, hi.1 7⟩) ?_
  rintro h call h' ⟨P, F, hinv, hzero⟩ hsmall ⟨hen, hexec⟩
  cases call with
  | kmalloc size page =>
    obtain ⟨p, s', hs', -, -, ⟨P', F', hinv'⟩, hhead⟩ := hinv.kmalloc (fun _ => hzero) hen.2
    rw [exec, hs'] at hexec
    obtain rfl := Option.some.inj hexec
    have hne : sizeToClass size ≠ some 7 := fun he => sizeToClass_eq_last.mp he hsmall
    exact ⟨P', F', hinv', (hhead hne).trans hzero⟩
  | kfree ptr =>
    obtain ⟨s', hs', -, ⟨P', F', hinv'⟩, hpages, hfreed⟩ := hinv.kfree hen
    rw [exec, hs'] at hexec
    obtain rfl := Option.some.inj hexec
    refine ⟨P', F', hinv', ?_⟩
    cases howner : h.slabs.cacheOwner (alignDown4k ptr) with
    | none =>
      have hnone : ∀ c, h.slabs.cacheOwner (alignDown4k ptr) ≠ some c := fun c => by simp [howner]
      exact (congrFun (hpages hnone) 7).trans hzero
    | some c =>
      have hslab : h.slabs.IsSlab c (alignDown4k ptr) := ⟨hinv.mapped ptr hen, howner⟩
      have h7 : (7 : Fin 8) ≠ c := fun he => (hinv.unused hzero).1 _ (he ▸ hslab)
      exact ((hfreed c hslab).outcome.heads 7 h7).trans hzero

/-- A new slab of the last class is on its partial list without a free object. -/
lemma not_listed_newSlab {page : ℕ} (hfull : h.slabs.fullHead 7 = 0) (live' : List ℕ) :
    ¬ Listed ⟨(h.slabs.newSlab 7 page).2, live'⟩ := by
  rintro ⟨hlists, -⟩
  obtain ⟨P, F, -, hF, hiff, -, hcount, -⟩ := hlists 7
  have hslab := isSlab_newSlab h.slabs 7 page
  have hzero : (h.slabs.newSlab 7 page).2.freeCount page = 0 := Function.update_self _ _ _
  have hhead : (h.slabs.newSlab 7 page).2.fullHead 7 = 0 := hfull
  have hmem := (hiff page).mp hslab
  dsimp only at hF
  rw [hhead] at hF
  rw [hF.eq_nil, List.append_nil] at hmem
  have hpos := (hcount page hmem).1
  dsimp only at hpos
  omega

/-- **The lists are right exactly as long as the last class is not used.** In every run of `kmalloc`
and `kfree` without a request of more than `1024` and at most `2048` bytes, every cache has its
slabs on its two lists as it should, and no call leaves the allocator's data; and a further call
keeps this if and only if it is no such request.

**Proof sketch.** Without requests of the last class its cache stays empty, and the other classes
have slabs of more than one object, which `kmalloc` moves as it should. The first request of the
last class makes a slab of one object and leaves it, exhausted, on the partial list. -/
theorem listed_iff_small {h : Kheap} (hr : Transition.Reach Init Step Small h) :
    h.Listed ∧ ∀ call h', h.Step call h' → (h'.Listed ↔ h.Small call) := by
  obtain ⟨P, F, hinv, hzero⟩ := inv_of_small hr
  refine ⟨hinv.listed hzero, fun call h' hstep => ⟨fun hlisted => ?_, fun hsmall => ?_⟩⟩
  · cases call with
    | kfree ptr => trivial
    | kmalloc size page =>
      by_contra hnot
      have hclass := sizeToClass_eq_last.mpr hnot
      have hexec := hstep.2
      rw [exec, Slabs.kmalloc, hclass] at hexec
      dsimp only at hexec
      rw [if_neg (not_not.mpr hzero)] at hexec
      obtain rfl := Option.some.inj hexec
      exact not_listed_newSlab (hinv.unused hzero).2 _ hlisted
  · obtain ⟨P', F', hinv', hzero'⟩ := inv_of_small (hr.next hsmall hstep)
    exact hinv'.listed hzero'

/-- **An exhausted slab on a partial list.** After `kmalloc(2048)` the slab of the last class has no
free object and is on the partial list. -/
theorem exhausted_on_partial :
    ¬ ∀ h, Transition.Reach Init Step (fun _ _ => True) h → h.Listed := by
  intro hall
  have hstep : empty.Step (.kmalloc 2048 kheapStart)
      ⟨(empty.slabs.newSlab 7 kheapStart).2, [(empty.slabs.newSlab 7 kheapStart).1]⟩ :=
    ⟨⟨by decide, fresh_empty _ (by decide)⟩, rfl⟩
  exact not_listed_newSlab rfl _ (hall _
    ((Transition.Reach.start init_empty).next (a := .kmalloc 2048 kheapStart) trivial hstep))

/-- After `kmalloc(1000)` the lists are right. -/
theorem listed_iff_small_one : one.Listed :=
  (listed_iff_small ((Transition.Reach.start init_empty).next (a := .kmalloc 1000 kheapStart)
    (.inl (by decide)) step_one)).1

end Kheap

end AlphaOS
