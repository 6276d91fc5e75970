import AlphaOS.Slab.Caches

set_option relaxedAutoImplicit false
set_option autoImplicit false

/-!
# The free list and the objects of a slab

The array `free_list` and the objects of a slab both start right after the slab's header. The
occupied entries stay clear of the live objects as long as `kfree` never writes its entry into an
object that is still live.

## Main definitions

* `AlphaOS.Kheap.Apart` — no occupied entry of a `free_list` overlaps a live object.
* `AlphaOS.Kheap.Clear` — the entry that `kfree` writes is not in another live object.
* `AlphaOS.Kheap.Stacked` — the object under an occupied entry is on the stack, no higher than the
  entry.

## Main results

* `AlphaOS.Kheap.apart_iff_clear` — entries and live objects are apart exactly as long as every
  `kfree` is clear.
* `AlphaOS.Kheap.live_object_overwritten` — an entry written into a live object.
-/

namespace AlphaOS

namespace Kheap

variable {h h' : Kheap} {c : Fin 8} {a p : ℕ} {P F : Fin 8 → List ℕ}

/-- The bytes of the occupied part of a slab's `free_list`. -/
def Occupied (s : Slabs) (a x : ℕ) : Prop :=
  a + sizeofSlab ≤ x ∧ x < a + sizeofSlab + 4 * s.freeCount a

/-- The bytes of an object. -/
def InObject (c : Fin 8) (p x : ℕ) : Prop := p ≤ x ∧ x < p + objSize c

/-- No byte of the occupied part of a `free_list` is in a live object of the slab. -/
def Apart (h : Kheap) : Prop := ∀ c a, h.slabs.IsSlab c a → ∀ p ∈ h.liveIn a, ∀ x,
  Occupied h.slabs a x → ¬ InObject c p x

/-- The address of the entry that the next `kfree` of an object of the slab writes. -/
def slot (s : Slabs) (a : ℕ) : ℕ := a + sizeofSlab + 4 * s.freeCount a

/-- The entry that `kfree` writes is in no live object but the one that is freed; and `kmalloc` for
the last class is called only while its partial list has no head. -/
def Clear (h : Kheap) : Call → Prop
  | .kmalloc size page => h.Alone (.kmalloc size page)
  | .kfree p => ∀ c, h.slabs.IsSlab c (alignDown4k p) → ∀ q ∈ h.liveIn (alignDown4k p), q ≠ p →
      ¬ InObject c q (slot h.slabs (alignDown4k p))

/-- The object that holds the entry `k` of a slab's `free_list` is on the stack, at `k` or below. -/
def Stacked (h : Kheap) : Prop := ∀ c a, h.slabs.IsSlab c a → ∀ k < h.slabs.freeCount a,
  ∃ j ≤ k, h.slabs.freeList a j = Slabs.objAddr c a (4 * k / objSize c)

/-- Object sizes are multiples of the size of an entry. -/
lemma objSize_eq : ∀ c : Fin 8, objSize c = 4 * (objSize c / 4) ∧ 0 < objSize c / 4 := by decide

/-- The object that holds an entry. -/
lemma div_objSize_le (c : Fin 8) (k : ℕ) : 4 * k / objSize c ≤ k := by
  obtain ⟨heq, hpos⟩ := objSize_eq c
  rw [heq, Nat.mul_div_mul_left _ _ (by omega)]
  exact Nat.div_le_self _ _

/-- The byte `y` of the objects' area is in the object that holds the entry `y / 4`. -/
lemma div_div_objSize (c : Fin 8) (y : ℕ) : 4 * (y / 4) / objSize c = y / objSize c := by
  obtain ⟨heq, hpos⟩ := objSize_eq c
  rw [heq, Nat.mul_div_mul_left _ _ (by omega), Nat.div_div_eq_div_mul]

/-- The bytes of an object, counted from the first one. -/
lemma inObject_iff {i y : ℕ} :
    InObject c (Slabs.objAddr c a i) (a + sizeofSlab + y) ↔ y / objSize c = i := by
  have hpos := objSize_pos c
  rw [InObject, Slabs.objAddr]
  constructor
  · rintro ⟨h₁, h₂⟩
    refine Nat.div_eq_of_lt_le ?_ ?_
    · rw [Nat.mul_comm]
      omega
    · rw [Nat.add_mul, Nat.one_mul, Nat.mul_comm]
      omega
  · rintro rfl
    have h₁ := Nat.mul_div_le y (objSize c)
    have h₂ := Nat.lt_mul_div_succ y hpos
    rw [Nat.mul_add, Nat.mul_one] at h₂
    omega

/-- Where the stack is ordered, the occupied entries are apart from the live objects.

**Proof sketch.** A live object with an occupied byte would be the object that holds the byte's
entry, which is on the stack; but no object is both on the stack and live. -/
lemma Stacked.apart (hst : Stacked h) (hinv : Inv h P F) : h.Apart := by
  intro c a hslab p hp x ⟨hx₁, hx₂⟩ hin
  have hok := (hinv.caches c).slab a (((hinv.caches c).slab_iff a).mp hslab)
  obtain ⟨i, -, rfl⟩ := Slabs.mem_objects.mp (hok.parts.mem_iff.mp (List.mem_append_right _ hp))
  obtain ⟨y, rfl⟩ : ∃ y, x = a + sizeofSlab + y := ⟨x - (a + sizeofSlab), by omega⟩
  have hi := inObject_iff.mp hin
  obtain ⟨j, hj, hlist⟩ := hst c a hslab (y / 4) (by omega)
  rw [div_div_objSize, hi] at hlist
  have hfree : Slabs.objAddr c a i ∈ h.slabs.freeEntries a := by
    rw [Slabs.freeEntries, List.mem_map]
    exact ⟨j, List.mem_range.mpr (by omega), hlist⟩
  exact (List.nodup_append.mp hok.nodup).2.2 _ hfree _ hp rfl

/-- A clear push keeps the order of the stack: the object that holds the new entry is on the stack
already, or is the one that is pushed. -/
lemma Stacked.push (hst : Stacked h) (hinv : Inv h P F) (hp : p ∈ h.live)
    (hpa : alignDown4k p = a) (hslab : h.slabs.IsSlab c a) (hclear : h.Clear (.kfree p))
    {k : ℕ} (hk : k < h.slabs.freeCount a + 1) :
    ∃ j ≤ k, Function.update (h.slabs.freeList a) (h.slabs.freeCount a) p j =
      Slabs.objAddr c a (4 * k / objSize c) := by
  subst hpa
  have hok := (hinv.caches c).slab _ (((hinv.caches c).slab_iff _).mp hslab)
  have hlt := hok.freeCount_lt hp rfl
  rcases Nat.lt_succ_iff_lt_or_eq.mp hk with hk | rfl
  · obtain ⟨j, hj, hlist⟩ := hst c _ hslab k hk
    refine ⟨j, hj, ?_⟩
    rw [Function.update_of_ne (by omega)]
    exact hlist
  · set i := 4 * h.slabs.freeCount (alignDown4k p) / objSize c with hi
    have hle : i ≤ h.slabs.freeCount (alignDown4k p) := div_objSize_le c _
    have hobj : Slabs.objAddr c (alignDown4k p) i ∈ Slabs.objects c (alignDown4k p) :=
      Slabs.mem_objects.mpr ⟨i, by omega, rfl⟩
    rcases List.mem_append.mp (hok.parts.mem_iff.mpr hobj) with hfree | hlive
    · rw [Slabs.freeEntries, List.mem_map] at hfree
      obtain ⟨j, hj, hlist⟩ := hfree
      have hj' := List.mem_range.mp hj
      refine ⟨j, by omega, ?_⟩
      rw [Function.update_of_ne (by omega)]
      exact hlist
    · by_cases hpi : Slabs.objAddr c (alignDown4k p) i = p
      · exact ⟨_, Nat.le_refl _, by rw [Function.update_self, hpi]⟩
      · exact absurd (inObject_iff.mpr hi.symm) (hclear c hslab _ hlive hpi)

/-- A clear step keeps the order of the stacks. -/
lemma Stacked.step {freed : Option ℕ} (hst : Stacked h) (hinv : Inv h P F)
    (hev : Evolves freed h h') (hclear : ∀ p, freed = some p → h.Clear (.kfree p)) :
    Stacked h' := by
  intro c a hslab k hk
  rcases hev c a hslab with ⟨hold, hlist, hcount⟩ | ⟨hcount, hlist⟩ |
    ⟨hold, p, hfreed, hp, hpa, hlist, hcount⟩
  · rw [hlist]
    exact hst c a hold k (by omega)
  · have hle := div_objSize_le c k
    exact ⟨4 * k / objSize c, hle, hlist _ (by omega)⟩
  · rw [hlist]
    exact hst.push hinv hp hpa hold (hclear p hfreed) (by omega)

/-- The invariant of the clear runs. -/
lemma inv_of_clear (hr : Transition.Reach Init Step Clear h) :
    (∃ P F, Inv h P F) ∧ Stacked h := by
  refine hr.invariant (I := fun h => (∃ P F, Inv h P F) ∧ Stacked h) ?_ ?_
  · intro h hi
    refine ⟨⟨_, _, inv_of_init hi⟩, fun c a hslab => ?_⟩
    rw [Slabs.IsSlab, hi.2.2.1] at hslab
    exact absurd hslab.1 (by simp)
  · rintro h call h' ⟨⟨P, F, hinv⟩, hst⟩ hclear ⟨hen, hexec⟩
    cases call with
    | kmalloc size page =>
      obtain ⟨p, s', hs', -, hev, hinv', -⟩ := hinv.kmalloc hclear hen.2
      rw [exec, hs'] at hexec
      obtain rfl := Option.some.inj hexec
      exact ⟨hinv', hst.step hinv hev fun p hp => absurd hp (by simp)⟩
    | kfree ptr =>
      obtain ⟨s', hs', hev, hinv', -⟩ := hinv.kfree hen
      rw [exec, hs'] at hexec
      obtain rfl := Option.some.inj hexec
      refine ⟨hinv', hst.step hinv hev fun p hp => ?_⟩
      rw [← Option.some.inj hp]
      exact hclear

/-- A push that is not clear puts an entry into a live object. -/
lemma Inv.not_apart {s' : Slabs} (hinv : Inv h P F) (hp : p ∈ h.live)
    (hs' : h.slabs.kfree p = some s') (hnot : ¬ h.Clear (.kfree p)) :
    ¬ Apart ⟨s', h.live.erase p⟩ := by
  intro hapart
  refine hnot fun c hslab q hq hne hin => ?_
  have hok := (hinv.caches c).slab _ (((hinv.caches c).slab_iff _).mp hslab)
  obtain ⟨s₁, hs₁, -, ⟨P', F', hinv'⟩, -, hfreed⟩ := hinv.kfree hp
  obtain rfl : s₁ = s' := Option.some.inj (hs₁.symm.trans hs')
  have hfr := hfreed c hslab
  -- the slab is kept, since `q` is live in it
  have hpmem : p ∈ h.liveIn (alignDown4k p) := mem_liveIn.mpr ⟨hp, rfl⟩
  have hq' : q ∈ liveIn ⟨s₁, h.live.erase p⟩ (alignDown4k p) := by
    rw [liveIn_erase_self]
    exact (List.mem_erase_of_ne hne).mpr hq
  have hlen := List.length_erase_of_mem hpmem
  rw [← liveIn_erase_self s₁] at hlen
  have hpos := List.length_pos_of_mem hq'
  have hcount := hok.count
  have hslab' : s₁.IsSlab c (alignDown4k p) :=
    ⟨hfr.kept.mpr (by omega), by rw [hfr.owner]; exact hslab.2⟩
  have hok' := (hinv'.caches c).slab _ (((hinv'.caches c).slab_iff _).mp hslab')
  have hcount' := hok'.count
  dsimp only at hcount'
  refine hapart c _ hslab' q hq' _ ⟨?_, ?_⟩ hin
  · rw [slot]
    omega
  · dsimp only
    rw [slot]
    omega

/-- **Entries and live objects are apart exactly as long as every `kfree` is clear.** In every run
in which no `kfree` writes its entry into another live object, and `kmalloc` for the last class is
only called while its partial list has no head, no occupied entry of a `free_list` overlaps a live
object of its slab; and a further `kfree` keeps this if and only if it is clear.

**Proof sketch.** Of each slab the object that holds an occupied entry is on the stack at or below
that entry (`Stacked`): this holds of a new slab, a pop removes the top only, and a clear push adds
an entry that lies in an object on the stack or in the pushed one. -/
theorem apart_iff_clear {h : Kheap} (hr : Transition.Reach Init Step Clear h) :
    h.Apart ∧ ∀ p h', h.Step (.kfree p) h' → (h'.Apart ↔ h.Clear (.kfree p)) := by
  obtain ⟨⟨P, F, hinv⟩, hst⟩ := inv_of_clear hr
  refine ⟨hst.apart hinv, fun p h' hstep => ⟨fun hapart => ?_, fun hclear => ?_⟩⟩
  · by_contra hnot
    obtain ⟨hen, hexec⟩ := hstep
    rw [exec, Option.map_eq_some_iff] at hexec
    obtain ⟨s', hs', rfl⟩ := hexec
    exact hinv.not_apart hen hs' hnot hapart
  · obtain ⟨⟨P', F', hinv'⟩, hst'⟩ := inv_of_clear (hr.next hclear hstep)
    exact hst'.apart hinv'

/-- After two calls `kmalloc(1000)`. -/
def two : Kheap := (one.exec (.kmalloc 1000 kheapStart)).get (by decide)

/-- After three calls `kmalloc(1000)`, which exhaust the slab. -/
def three : Kheap := (two.exec (.kmalloc 1000 kheapStart)).get (by decide)

/-- After `kfree` of the first object that was allocated, the last one of the slab. -/
def freed : Kheap := (three.exec (.kfree (kheapStart + 16 + 2 * 1024))).get (by decide)

/-- No page is asked for while the slab has free objects. -/
lemma fresh_none (s : Slabs) : Fresh s kheapStart 0 := by
  refine ⟨by decide, Nat.le_refl _, by decide, fun a ha => ?_⟩
  rw [Slabs.inPages, decide_eq_true_eq] at ha
  omega

/-- **An entry is written into a live object.** When a slab of three objects is exhausted and the
last of them is freed, the first entry of `free_list` is written into the first object, which is
live. -/
theorem live_object_overwritten :
    ¬ ∀ h, Transition.Reach Init Step (fun _ _ => True) h → h.Apart := by
  intro hall
  have hone : Transition.Reach Init Step (fun _ _ => True) one :=
    (Transition.Reach.start init_empty).next (a := .kmalloc 1000 kheapStart) trivial step_one
  have hstep₂ : one.Step (.kmalloc 1000 kheapStart) two :=
    ⟨⟨by decide, fresh_none _⟩, (Option.some_get _).symm⟩
  have hstep₃ : two.Step (.kmalloc 1000 kheapStart) three :=
    ⟨⟨by decide, fresh_none _⟩, (Option.some_get _).symm⟩
  have hmem : kheapStart + 16 + 2 * 1024 ∈ three.live := by decide
  have hstep₄ : three.Step (.kfree (kheapStart + 16 + 2 * 1024)) freed :=
    ⟨hmem, (Option.some_get _).symm⟩
  have hreach := ((hone.next (a := .kmalloc 1000 kheapStart) trivial hstep₂).next
    (a := .kmalloc 1000 kheapStart) trivial hstep₃).next
    (a := .kfree (kheapStart + 16 + 2 * 1024)) trivial hstep₄
  have hslab : freed.slabs.IsSlab 6 kheapStart := ⟨by decide, by decide⟩
  have hlive : Slabs.objAddr 6 kheapStart 0 ∈ freed.liveIn kheapStart := by decide
  exact hall freed hreach 6 kheapStart hslab _ hlive (kheapStart + 16) ⟨by decide, by decide⟩
    ⟨by decide, by decide⟩

/-- After `kmalloc(1000)` the free list is apart from the live object. -/
theorem apart_iff_clear_one : one.Apart :=
  (apart_iff_clear ((Transition.Reach.start init_empty).next (a := .kmalloc 1000 kheapStart)
    (fun _ => rfl) step_one)).1

end Kheap

end AlphaOS
