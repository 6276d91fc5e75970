import AlphaOS.Lib.Reach
import AlphaOS.Mm.Frames

set_option relaxedAutoImplicit false
set_option autoImplicit false

/-!
# Frames and their 32-bit addresses

`pmm_alloc` computes with 64-bit indices into the bitmap and returns a 32-bit address; `pmm_free`
computes the index back from the address. On a machine with memory beyond `4` GiB the bitmap has
more than `2^20` bits, and the address of a frame from `2^20` on is cut to its low 32 bits.

## Main definitions

* `AlphaOS.Pool` — the memory manager with the addresses that have been handed out and not given
  back, each beside the bit that was set for it.
* `AlphaOS.Pool.Faithful` — the addresses are distinct and name their bits.
* `AlphaOS.Pool.Low` — an allocation finds a free frame below `2^20`.

## Main results

* `AlphaOS.Mm.pmmAlloc_bitmap` — the bit that an allocation of one frame sets.
* `AlphaOS.Pool.faithful_iff_low` — the addresses are faithful exactly as long as every allocation
  finds a free frame below `2^20`.
* `AlphaOS.Pool.address_cut` — an address that does not name its bit.
-/

namespace AlphaOS

namespace Mm

variable {s : Mm}

/-- The bitmap after an allocation of one frame has one more bit set, the one at which the search
stops. -/
lemma pmmAlloc_bitmap (hsize : s.bitmapSize < 2 ^ 52) :
    (s.pmmAlloc 1).2.bitmap = Bits.set s.bitmap (s.pmmLast 1) := by
  have hle := s.pmmLast_one.1
  have hfirst : s.pmmFirst 1 = s.pmmLast 1 := pmmFirst_one (by omega)
  rw [pmmAlloc, hfirst, setBits_self]

/-- The address an allocation of one frame returns, cut to 32 bits. -/
lemma pmmAlloc_address (hsize : s.bitmapSize < 2 ^ 52) :
    (s.pmmAlloc 1).1 = s.pmmLast 1 * 4096 % 2 ^ 32 := by
  have hle := s.pmmLast_one.1
  have hfirst : s.pmmFirst 1 = s.pmmLast 1 := pmmFirst_one (by omega)
  rw [pmmAlloc, hfirst]

/-- An allocation leaves `bitmap_size` as it is. -/
lemma bitmapSize_pmmAlloc (s : Mm) (npages : ℕ) :
    (s.pmmAlloc npages).2.bitmapSize = s.bitmapSize := by
  -- for arbitrary values, so that the bitmap is not evaluated
  have hwith : ∀ (b : ℕ → BitVec 8) (o : Bool),
      { s with bitmap := b, overrun := o }.bitmapSize = s.bitmapSize := fun _ _ => rfl
  rewrite [pmmAlloc]
  exact hwith _ _

/-- After an allocation of one frame the used frames are that one and those used before. -/
lemma used_pmmAlloc {g : ℕ} (hsize : s.bitmapSize < 2 ^ 52) :
    (s.pmmAlloc 1).2.used g ↔ g = s.pmmLast 1 ∨ s.used g := by
  unfold used
  rw [pmmAlloc_bitmap hsize, Bits.get_set]
  simp

end Mm

/-- The memory manager with the pairs of an address handed out by `pmm_alloc(1)` and the index of
the bit it set. -/
structure Pool where
  mm : Mm
  held : List (ℕ × ℕ)

namespace Pool

variable {p p' : Pool} {a i : ℕ}

/-- `pmm_alloc(1)`, or `pmm_free(a, 1)` of the address held for the bit `i`. -/
inductive Call
  | alloc
  | free (a i : ℕ)
deriving DecidableEq, Repr

/-- An allocation is made while a frame is free, and an address that is freed is held. -/
def Enabled (p : Pool) : Call → Prop
  | .alloc => ∃ f < p.mm.bitmapSize, ¬ p.mm.used f
  | .free a i => (a, i) ∈ p.held

/-- What a call does. -/
def exec (p : Pool) : Call → Pool
  | .alloc => ⟨(p.mm.pmmAlloc 1).2, ((p.mm.pmmAlloc 1).1, p.mm.pmmLast 1) :: p.held⟩
  | .free a i => ⟨p.mm.pmmFree a 1, p.held.erase (a, i)⟩

/-- An enabled call. -/
def Step (p : Pool) (c : Call) (p' : Pool) : Prop := p.Enabled c ∧ p' = p.exec c

/-- Nothing is held, and `bitmap_size` is what `init_memory` computes from a 64-bit address. -/
def Init (p : Pool) : Prop :=
  (∃ highestAddr < 2 ^ 64, p.mm.bitmapSize = highestAddr / 4096) ∧ p.held = []

/-- The addresses held are distinct, each one divided by `PAGE_SIZE` is the index of the bit set for
it, and freeing it clears that bit. -/
def Faithful (p : Pool) : Prop :=
  (p.held.map Prod.fst).Nodup ∧ ∀ a i, (a, i) ∈ p.held →
    a / 4096 = i ∧ p.mm.used i ∧ (p.mm.pmmFree a 1).bitmap = Bits.clear p.mm.bitmap i

/-- An allocation finds a free frame whose address has 32 bits. -/
def Low (p : Pool) : Call → Prop
  | .alloc => ∃ f < 2 ^ 20, f < p.mm.bitmapSize ∧ ¬ p.mm.used f
  | .free _ _ => True

/-- The invariant of the runs whose allocations are low. -/
structure Inv (p : Pool) : Prop where
  size : p.mm.bitmapSize < 2 ^ 52
  nodup : p.held.Nodup
  address : ∀ a i, (a, i) ∈ p.held → a = i * 4096
  used : ∀ a i, (a, i) ∈ p.held → p.mm.used i

/-- The invariant says that the addresses are faithful. -/
lemma Inv.faithful (h : p.Inv) : p.Faithful := by
  refine ⟨h.nodup.map_on ?_, fun a i hai => ?_⟩
  · rintro ⟨a, i⟩ hai ⟨b, j⟩ hbj rfl
    have h₁ := h.address a i hai
    have h₂ := h.address a j hbj
    rw [Prod.mk.injEq]
    exact ⟨rfl, by omega⟩
  · have ha : a / 4096 = i := by
      rw [h.address a i hai, Nat.mul_div_cancel i (by omega)]
    refine ⟨ha, h.used a i hai, ?_⟩
    rw [Mm.pmmFree_one, ha]
    rfl

/-- A low allocation keeps the invariant: the search stops at the lowest free frame. -/
lemma Inv.alloc (h : p.Inv) (hlow : p.Low .alloc) : (p.exec .alloc).Inv := by
  obtain ⟨f, hf, hfsize, hfree⟩ := hlow
  obtain ⟨-, hunused, hmin⟩ := p.mm.pmmLast_one
  have hle := hmin f hfree
  have hnew := hunused (by omega)
  have haddr : (p.mm.pmmAlloc 1).1 = p.mm.pmmLast 1 * 4096 := by
    rw [Mm.pmmAlloc_address h.size, Nat.mod_eq_of_lt (by omega)]
  have hsize : (p.mm.pmmAlloc 1).2.bitmapSize < 2 ^ 52 := by
    rw [Mm.bitmapSize_pmmAlloc]
    exact h.size
  have husedm : ∀ g, (p.mm.pmmAlloc 1).2.used g ↔ g = p.mm.pmmLast 1 ∨ p.mm.used g :=
    fun _ => Mm.used_pmmAlloc h.size
  rw [exec, haddr]
  generalize (p.mm.pmmAlloc 1).2 = m at hsize husedm ⊢
  generalize p.mm.pmmLast 1 = f₁ at hnew husedm ⊢
  constructor
  · exact hsize
  · refine List.nodup_cons.mpr ⟨fun hmem => ?_, h.nodup⟩
    exact hnew (h.used _ _ hmem)
  · intro a i hai
    rcases List.mem_cons.mp hai with heq | hai
    · obtain ⟨rfl, rfl⟩ := Prod.mk.inj heq
      rfl
    · exact h.address a i hai
  · intro a i hai
    refine (husedm i).mpr ?_
    rcases List.mem_cons.mp hai with heq | hai
    · exact .inl (Prod.mk.inj heq).2
    · exact .inr (h.used a i hai)

/-- Freeing a held address keeps the invariant: no other address held has its bit. -/
lemma Inv.free (h : p.Inv) (hai : (a, i) ∈ p.held) : (p.exec (.free a i)).Inv := by
  constructor
  · exact h.size
  · exact h.nodup.erase _
  · intro b j hbj
    exact h.address b j (List.mem_of_mem_erase hbj)
  · intro b j hbj
    have hmem := List.mem_of_mem_erase hbj
    have hne : (b, j) ≠ (a, i) := (h.nodup.mem_erase_iff.mp hbj).1
    have hai' := h.address a i hai
    have hbj' := h.address b j hmem
    refine Mm.used_release.mpr ⟨fun he => ?_, h.used b j hmem⟩
    rw [hai', Nat.mul_div_cancel i (by omega)] at he
    exact hne (by rw [hbj', hai', he])

/-- A high allocation returns an address that does not name its bit. -/
lemma not_faithful (hsize : p.mm.bitmapSize < 2 ^ 52) (hen : p.Enabled .alloc)
    (hhigh : ¬ p.Low .alloc) : ¬ (p.exec .alloc).Faithful := by
  obtain ⟨f, hf, hfree⟩ := hen
  obtain ⟨-, hunused, hmin⟩ := p.mm.pmmLast_one
  have hle := hmin f hfree
  have hnew := hunused (by omega)
  have hge : 2 ^ 20 ≤ p.mm.pmmLast 1 := by
    by_contra hlt
    exact hhigh ⟨p.mm.pmmLast 1, by omega, by omega, hnew⟩
  rintro ⟨-, hall⟩
  have hdiv := (hall _ _ List.mem_cons_self).1
  rw [Mm.pmmAlloc_address hsize] at hdiv
  have := Nat.mod_lt (p.mm.pmmLast 1 * 4096) (show 0 < 2 ^ 32 by omega)
  omega

/-- The invariant of the initial states. -/
lemma inv_of_init (h : p.Init) : p.Inv := by
  obtain ⟨⟨highestAddr, hlt, hsize⟩, hheld⟩ := h
  refine ⟨by omega, ?_, ?_, ?_⟩
  · rw [hheld]
    exact List.nodup_nil
  · intro a i hai
    simp [hheld] at hai
  · intro a i hai
    simp [hheld] at hai

/-- **Addresses are faithful exactly as long as every allocation is low.** For every `bitmap_size`
that `init_memory` computes and every run of `pmm_alloc(1)`, made while a frame is free, and
`pmm_free` of held addresses, in which every allocation finds a free frame below `2^20`, the
addresses held are distinct and name their bits; and a further allocation keeps this if and only if
it finds a free frame below `2^20`.

**Proof sketch.** Below `2 ^ 20` the address of a frame is not truncated, so the addresses held are
those of different bits. An allocation of a frame above returns an address that names another bit.
-/
theorem faithful_iff_low {p : Pool} (h : Transition.Reach Init Step Low p) :
    p.Faithful ∧ (p.Enabled .alloc → ((p.exec .alloc).Faithful ↔ p.Low .alloc)) := by
  have hinv : p.Inv := by
    refine h.invariant (fun _ => inv_of_init) ?_
    rintro p c p' hp hlow ⟨hen, rfl⟩
    cases c with
    | alloc => exact hp.alloc hlow
    | free a i => exact hp.free hen
  refine ⟨hinv.faithful, fun hen => ⟨fun hf => ?_, fun hlow => (hinv.alloc hlow).faithful⟩⟩
  by_contra hhigh
  exact not_faithful hinv.size hen hhigh hf

/-- A machine with one frame above `4` GiB, all the others being in use. -/
def high : Pool where
  mm :=
    { bitmap := fun n => if n < 2 ^ 17 then 0xFF#8 else 0#8
      bitmapSize := 2 ^ 20 + 1
      mem := fun _ _ => 0
      kernelPageDirectory := fun _ => 0
      kheapPages := fun _ => 0
      tmpPte := 0
      overrun := false }
  held := []

/-- The frames of `high` below `2^20` are used and the last one is free. -/
lemma used_high (f : ℕ) : high.mm.used f ↔ f < 2 ^ 20 := by
  have hbyte : ∀ j < 8, (0xFF#8).getLsbD j = true := by decide
  have hj : f % 8 < 8 := Nat.mod_lt f (by omega)
  unfold Mm.used
  rw [Bits.get_eq_getLsbD]
  by_cases hf : f < 2 ^ 20
  · rw [show high.mm.bitmap (f / 8) = 0xFF#8 from if_pos (by omega)]
    exact ⟨fun _ => hf, fun _ => hbyte _ hj⟩
  · rw [show high.mm.bitmap (f / 8) = 0#8 from if_neg (by omega), BitVec.getLsbD_zero]
    exact ⟨fun hfalse => absurd hfalse Bool.false_ne_true, fun hlt => absurd hlt hf⟩

/-- **An address is cut.** On a machine with `4` GiB and one frame whose low frames are all in use,
`pmm_alloc` hands out the frame `2^20` under the address `0`. -/
theorem address_cut :
    ¬ ∀ p, Transition.Reach Init Step (fun _ _ => True) p → p.Faithful := by
  intro hall
  have hinit : high.Init := ⟨⟨(2 ^ 20 + 1) * 4096, by decide, by decide⟩, rfl⟩
  have hen : high.Enabled .alloc := ⟨2 ^ 20, by decide, by simp [used_high]⟩
  have hhigh : ¬ high.Low .alloc := by
    rintro ⟨f, hf, -, hfree⟩
    exact hfree ((used_high f).mpr hf)
  refine not_faithful (show 2 ^ 20 + 1 < 2 ^ 52 by decide) hen hhigh (hall _ ?_)
  exact (Transition.Reach.start hinit).next (a := .alloc) trivial ⟨hen, rfl⟩

/-- A machine with `4` GiB whose frames are all free. -/
def low : Pool where
  mm :=
    { bitmap := fun _ => 0#8
      bitmapSize := 2 ^ 20
      mem := fun _ _ => 0
      kernelPageDirectory := fun _ => 0
      kheapPages := fun _ => 0
      tmpPte := 0
      overrun := false }
  held := []

/-- The addresses of `low` are faithful, also after an allocation. -/
theorem faithful_iff_low_low : low.Faithful ∧ (low.exec .alloc).Faithful := by
  have hfree : ¬ low.mm.used 0 := by
    unfold Mm.used
    decide
  have hinit : low.Init := ⟨⟨2 ^ 32, by decide, by decide⟩, rfl⟩
  obtain ⟨hfaithful, hiff⟩ := faithful_iff_low (.start hinit)
  exact ⟨hfaithful, (hiff ⟨0, by decide, hfree⟩).mpr ⟨0, by decide, by decide, hfree⟩⟩

end Pool

end AlphaOS
