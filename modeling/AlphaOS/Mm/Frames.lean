import AlphaOS.Mm.Memory
import Mathlib.Data.Finset.Card

set_option relaxedAutoImplicit false
set_option autoImplicit false

/-!
# What the primitives of the memory manager do

One lemma for each primitive: an access through the temporary mapping reaches the frame of the
address, `pmm_alloc(1)` takes the lowest free frame, `pmm_free` gives a frame back. The functions
built from them are reasoned about through these lemmas only.

## Main definitions

* `AlphaOS.Mm.used` — the bitmap records the frame as used.
* `AlphaOS.Mm.put` — the state with one frame's content replaced.
* `AlphaOS.Mm.freeCount` — the number of free frames.

## Main results

* `AlphaOS.Mm.readEntry_eq`, `AlphaOS.Mm.writeEntry_eq` — accesses through the temporary mapping.
* `AlphaOS.Mm.allocFilled_eq` — an allocation that finds a frame.
* `AlphaOS.Mm.overrun_allocFilled` — an allocation finds a frame exactly when one is free.
-/

namespace AlphaOS

/-- Rounding down to a page. -/
lemma alignDown4k_eq {a : ℕ} (ha : a < 2 ^ 32) : alignDown4k a = a / 4096 * 4096 := by
  rw [alignDown4k, pageMask, Bits.and_mask ha]

namespace Mm

variable {s : Mm} {p i v f g flags : ℕ}

/-! ## Entries -/

/-- The entry of a frame. -/
lemma entry_frame (hf : f < 2 ^ 20) (hflags : flags < 4096) :
    entry (f * 4096) flags = f * 4096 + flags := by
  rw [entry, pageMask, Bits.and_mask (by omega), Nat.mul_div_cancel f (by omega),
    Bits.or_flags hflags]

/-- The frame an entry names is the frame of the address. -/
lemma entry_div (hp : p < 2 ^ 32) (hflags : flags < 4096) : entry p flags / 4096 = p / 4096 := by
  rw [entry, pageMask, Bits.and_mask hp, Bits.or_flags hflags]
  omega

/-! ## The temporary mapping -/

/-- Is the frame recorded as used? -/
def used (s : Mm) (f : ℕ) : Prop := Bits.get s.bitmap f = true

/-- The state with the content of one frame replaced and the temporary mapping removed. -/
def put (s : Mm) (f : ℕ) (page : ℕ → ℕ) : Mm :=
  { s with mem := Function.update s.mem f page, tmpPte := 0 }

/-- The last of two fillings of a frame counts. -/
lemma put_put (s : Mm) (f : ℕ) (page page' : ℕ → ℕ) :
    (s.put f page).put f page' = s.put f page' := by
  simp [put]

/-- Fillings of different frames can be made in either order. -/
lemma put_comm {s : Mm} {f g : ℕ} (h : f ≠ g) (page page' : ℕ → ℕ) :
    (s.put f page).put g page' = (s.put g page').put f page := by
  simp [put, Function.update_comm h]

/-- The state with one entry of the kernel's directory replaced. -/
def putKernel (s : Mm) (i e : ℕ) : Mm :=
  { s with kernelPageDirectory := Function.update s.kernelPageDirectory i e }

/-- The state with one entry of `kheap_pages` replaced. -/
def record (s : Mm) (v b : ℕ) : Mm := { s with kheapPages := Function.update s.kheapPages v b }

/-- Reading an entry of a table reads its frame. -/
lemma readEntry_eq (hp : p < 2 ^ 32) : s.readEntry p i = s.mem (p / 4096) i := by
  change s.mem (entry p kernelFlags / 4096) i = _
  rw [entry_div hp (by decide)]

/-- Writing an entry of a table writes its frame. -/
lemma writeEntry_eq (hp : p < 2 ^ 32) :
    s.writeEntry p i v = s.put (p / 4096) (Function.update (s.mem (p / 4096)) i v) := by
  have hread : s.readEntry p = s.mem (p / 4096) := funext fun k => readEntry_eq hp
  change { s with
    mem := Function.update s.mem (entry p kernelFlags / 4096) (Function.update (s.readEntry p) i v)
    tmpPte := 0 } = _
  rw [entry_div hp (by decide), hread]
  rfl

/-- Filling a page fills its frame. -/
lemma fillPage_eq (hp : p < 2 ^ 32) (page : ℕ → ℕ) : s.fillPage p page = s.put (p / 4096) page := by
  change { s with mem := Function.update s.mem (entry p kernelFlags / 4096) page, tmpPte := 0 } = _
  rw [entry_div hp (by decide)]
  rfl

/-! ## Frames -/

/-- The state in which the frame is recorded as used. -/
def take (s : Mm) (f : ℕ) : Mm := { s with bitmap := Bits.set s.bitmap f }

/-- The state in which the frame is recorded as free. -/
def release (s : Mm) (f : ℕ) : Mm := { s with bitmap := Bits.clear s.bitmap f }

/-- Recording a frame as used does not matter for filling one. -/
lemma take_put (s : Mm) (f g : ℕ) (page : ℕ → ℕ) : (s.put f page).take g = (s.take g).put f page :=
  rfl

/-- The frames in use after one is taken. -/
lemma used_take : (s.take f).used g ↔ g = f ∨ s.used g := by
  simp [used, take, Bits.get_set]

/-- The frames in use after one is released. -/
lemma used_release : (s.release f).used g ↔ g ≠ f ∧ s.used g := by
  simp [used, release, Bits.get_clear]

/-- `pmm_free` of one frame. -/
lemma pmmFree_one (s : Mm) (p : ℕ) : s.pmmFree p 1 = s.release (p / 4096) := rfl

/-- The search for one frame stops at the lowest free frame, or at the end. -/
lemma pmmLast_one (s : Mm) : s.pmmLast 1 ≤ s.bitmapSize ∧
    (s.pmmLast 1 < s.bitmapSize → ¬ s.used (s.pmmLast 1)) ∧ ∀ g, ¬ s.used g → s.pmmLast 1 ≤ g := by
  have hle := Bits.search_le (Bits.get s.bitmap) 1 s.bitmapSize 0 0
  refine ⟨by rw [pmmLast]; omega, fun hlt => ?_, fun g hg => ?_⟩
  · have hfree := (Bits.search_one (Bits.get s.bitmap) s.bitmapSize 0).1
      (by rw [Nat.zero_add]; exact hlt)
    rw [used, pmmLast, hfree]
    exact Bool.false_ne_true
  · exact Bits.search_one_le (Nat.zero_le g) (by simpa [used] using hg)

/-- Subtracting nothing. -/
lemma sub64_zero {a : ℕ} (ha : a < 2 ^ 64) : sub64 a 0 = a := by
  rw [sub64, Nat.sub_zero, Nat.add_mod_right, Nat.mod_eq_of_lt ha]

/-- One page is its own first page. -/
lemma pmmFirst_one (h : s.pmmLast 1 < 2 ^ 64) : s.pmmFirst 1 = s.pmmLast 1 := by
  have hone : sub32 1 1 = 0 := by decide
  rw [pmmFirst, hone, sub64_zero h]

/-- Setting the bits from an index to itself. -/
lemma setBits_self (b : ℕ → BitVec 8) (i : ℕ) : setBits b i i = Bits.set b i := by
  rw [setBits, Nat.add_sub_cancel_left]
  rfl

/-- An allocation that finds a frame takes a free one and returns its address. -/
lemma pmmAlloc_one (hsize : s.bitmapSize ≤ 2 ^ 20) (hok : (s.pmmAlloc 1).2.overrun = false) :
    s.pmmLast 1 < s.bitmapSize ∧ ¬ s.used (s.pmmLast 1) ∧
      s.pmmAlloc 1 = (s.pmmLast 1 * 4096, s.take (s.pmmLast 1)) := by
  obtain ⟨hle, hfree, -⟩ := s.pmmLast_one
  have hover : s.overrun = false ∧ ¬ s.pmmLast 1 = s.bitmapSize := by
    simpa [pmmAlloc] using hok
  have hlt : s.pmmLast 1 < s.bitmapSize := by omega
  have haddr : s.pmmLast 1 * 4096 % 2 ^ 32 = s.pmmLast 1 * 4096 := Nat.mod_eq_of_lt (by omega)
  have hflag : (s.overrun || decide (s.pmmLast 1 = s.bitmapSize)) = s.overrun := by
    simp [hover.2]
  refine ⟨hlt, hfree hlt, ?_⟩
  rw [pmmAlloc, pmmFirst_one (by omega), setBits_self, haddr, hflag]
  rfl

/-- Filling a page overruns no array. -/
@[simp] lemma overrun_fillPage (s : Mm) (p : ℕ) (page : ℕ → ℕ) :
    (s.fillPage p page).overrun = s.overrun := rfl

/-- **An allocation that finds a frame**: it was free, it is now used and filled. -/
lemma allocFilled_eq {page : ℕ → ℕ} (hsize : s.bitmapSize ≤ 2 ^ 20)
    (hok : (s.allocFilled page).2.overrun = false) :
    s.pmmLast 1 < s.bitmapSize ∧ ¬ s.used (s.pmmLast 1) ∧
      s.allocFilled page = (s.pmmLast 1 * 4096, (s.take (s.pmmLast 1)).put (s.pmmLast 1) page) := by
  rw [allocFilled, overrun_fillPage] at hok
  obtain ⟨hlt, hfree, heq⟩ := pmmAlloc_one hsize hok
  refine ⟨hlt, hfree, ?_⟩
  rw [allocFilled, heq]
  rw [fillPage_eq (by omega), Nat.mul_div_cancel _ (by omega)]

/-- The free frames. -/
def freeFrames (s : Mm) : Finset ℕ :=
  (Finset.range s.bitmapSize).filter fun f => Bits.get s.bitmap f = false

/-- The number of free frames. -/
def freeCount (s : Mm) : ℕ := s.freeFrames.card

/-- The free frames. -/
lemma mem_freeFrames : f ∈ s.freeFrames ↔ f < s.bitmapSize ∧ ¬ s.used f := by
  simp [freeFrames, used]

/-- Taking a free frame leaves one fewer. -/
lemma freeCount_take (hf : f < s.bitmapSize) (hfree : ¬ s.used f) :
    (s.take f).freeCount + 1 = s.freeCount := by
  have herase : (s.take f).freeFrames = s.freeFrames.erase f := by
    ext g
    rw [Finset.mem_erase, mem_freeFrames, mem_freeFrames, used_take]
    exact ⟨fun ⟨h₁, h₂⟩ => ⟨fun he => h₂ (.inl he), h₁, fun hu => h₂ (.inr hu)⟩,
      fun ⟨h₁, h₂, h₃⟩ => ⟨h₂, fun h => h.elim h₁ h₃⟩⟩
  have hmem : f ∈ s.freeFrames := mem_freeFrames.mpr ⟨hf, hfree⟩
  rw [freeCount, herase, Finset.card_erase_of_mem hmem, freeCount]
  have := Finset.card_pos.mpr ⟨f, hmem⟩
  omega

/-- **An allocation finds a frame when one is free.** -/
lemma overrun_allocFilled {page : ℕ → ℕ} (h : 0 < s.freeCount) :
    (s.allocFilled page).2.overrun = s.overrun := by
  obtain ⟨f, hf⟩ := Finset.card_pos.mp h
  obtain ⟨hlt, hfree⟩ := mem_freeFrames.mp hf
  have hsearch : s.pmmLast 1 ≤ f := s.pmmLast_one.2.2 f hfree
  have hne : s.pmmLast 1 ≠ s.bitmapSize := by omega
  rw [allocFilled, overrun_fillPage, pmmAlloc]
  simp [hne]

/-- An allocation, counted: there is one free frame fewer. -/
lemma allocFilled_quiet (hsize : s.bitmapSize ≤ 2 ^ 20) (hquiet : s.overrun = false)
    (h : 0 < s.freeCount) (page : ℕ → ℕ) :
    (s.allocFilled page).2.overrun = false ∧ (s.allocFilled page).2.bitmapSize ≤ 2 ^ 20 ∧
      (s.allocFilled page).2.freeCount + 1 = s.freeCount := by
  have hok : (s.allocFilled page).2.overrun = false := by rw [overrun_allocFilled h, hquiet]
  obtain ⟨hlt, hfree, heq⟩ := allocFilled_eq hsize hok
  refine ⟨hok, ?_, ?_⟩
  · rw [heq]
    exact hsize
  · rw [heq]
    exact freeCount_take hlt hfree

/-- Giving a frame back leaves no fewer free frames. -/
lemma freeCount_le_release (s : Mm) (f : ℕ) : s.freeCount ≤ (s.release f).freeCount := by
  refine Finset.card_le_card fun g hg => ?_
  rw [mem_freeFrames] at hg ⊢
  rw [used_release]
  exact ⟨hg.1, fun hu => hg.2 hu.2⟩

end Mm

end AlphaOS
