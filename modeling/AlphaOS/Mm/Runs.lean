import AlphaOS.Mm.Pool
import AlphaOS.Mm.Heap

set_option relaxedAutoImplicit false
set_option autoImplicit false

/-!
# Runs of frames and of heap pages

`pmm_alloc` and `free_virt_area_idx` scan once for a run of free entries, counting the entries of
the run they are in, and take the start of the run from its end. When there is a run, the first one
is found. When there is none, both scans leave their loop at the end of the array and go on as if a
run ended there.

## Main definitions

* `AlphaOS.Mm.HasRun`, `AlphaOS.Mm.HasHeapRun` — a run of free frames, of free heap pages.
* `AlphaOS.Mm.PmmContained`, `AlphaOS.Mm.HeapContained` — a call that changes no bit and no record
  of a heap page, and returns no address of a frame or page that is used or not there.
* `AlphaOS.Mm.Spared` — a request for which the failing `pmm_alloc` happens to do no harm.

## Main results

* `AlphaOS.Mm.pmmAlloc_first_fit` — the first run is taken, and given back by `pmm_free`.
* `AlphaOS.Mm.failure_contained_iff` — when the failure of an allocation is contained.
* `AlphaOS.Mm.failure_not_contained` — an allocation on full memory.
-/

namespace AlphaOS

namespace Mm

variable {s : Mm} {n a f : ℕ}

/-! ## First fit -/

/-- The `n` frames from `a` on are free. -/
def FreeRun (s : Mm) (a n : ℕ) : Prop := ∀ f, a ≤ f → f < a + n → ¬ s.used f

/-- There is a run of `n` free frames. -/
def HasRun (s : Mm) (n : ℕ) : Prop := ∃ a, a + n ≤ s.bitmapSize ∧ s.FreeRun a n

/-- A free run, in terms of the bits the search looks at. -/
lemma freeRun_iff : s.FreeRun a n ↔ ∀ f, a ≤ f → f < a + n → Bits.get s.bitmap f = false := by
  refine forall_congr' fun f => forall_congr' fun _ => forall_congr' fun _ => ?_
  rw [used, Bool.not_eq_true]

/-- The frames used after `pmm_alloc` has set the bits from its first to its last index. -/
lemma used_pmmAlloc_iff : (s.pmmAlloc n).2.used f ↔
    (s.pmmFirst n ≤ f ∧ f ≤ s.pmmLast n) ∨ s.used f := by
  -- for arbitrary values, so that the bitmap is not evaluated
  have hwith : ∀ (b : ℕ → BitVec 8) (o : Bool),
      ({ s with bitmap := b, overrun := o } : Mm).used f ↔ Bits.get b f = true :=
    fun _ _ => Iff.rfl
  rw [pmmAlloc]
  refine (hwith _ _).trans ?_
  rw [setBits, Bits.get_setLoop, Bool.or_eq_true, decide_eq_true_eq, used]
  refine or_congr ?_ Iff.rfl
  omega

/-- The frames used after `pmm_free`. -/
lemma used_pmmFree_iff {addr : ℕ} : (s.pmmFree addr n).used f ↔
    ¬ (addr / 4096 ≤ f ∧ f < addr / 4096 + n) ∧ s.used f := by
  rw [pmmFree, used, Bits.get_clearLoop, Bool.and_eq_true, Bool.not_eq_true',
    decide_eq_false_iff_not, used]

/-- States with the same used frames have the same bitmap. -/
lemma bitmap_ext {s' : Mm} (h : ∀ f, s'.used f ↔ s.used f) : s'.bitmap = s.bitmap :=
  Bits.ext_get fun f => Bool.eq_iff_iff.mpr (h f)

/-- The first index of `pmm_alloc`, when the run fits below its last. -/
lemma pmmFirst_eq (hn : 1 ≤ n) (hn' : n < 2 ^ 32) (hle : n ≤ s.pmmLast n + 1)
    (hlast : s.pmmLast n < 2 ^ 64) : s.pmmFirst n = s.pmmLast n + 1 - n := by
  rw [pmmFirst, sub64, sub32]
  omega

/-- The end of the search of `pmm_alloc`. -/
lemma pmmLast_le (s : Mm) (n : ℕ) : s.pmmLast n ≤ s.bitmapSize :=
  Nat.zero_add s.bitmapSize ▸ Bits.search_le (Bits.get s.bitmap) n s.bitmapSize 0 0

/-- A search of `pmm_alloc` that ends within the bitmap ends at the last frame of a free run. -/
lemma search_found_of_lt (hsize : 0 + s.bitmapSize < 2 ^ 32 ∨ 0 < n ∧ n < 2 ^ 32)
    (hlt : s.pmmLast n < s.bitmapSize) :
    n ≤ s.pmmLast n + 1 ∧
      ∀ v, s.pmmLast n + 1 ≤ v + n → v ≤ s.pmmLast n → Bits.get s.bitmap v = false :=
  Bits.search_found hsize (Nat.le_refl 0) (fun v _ h => absurd h (Nat.not_lt_zero v))
    (by rw [← pmmLast, Nat.zero_add]; exact hlt)

/-- **First fit.** When there is a run of `npages` free frames, `pmm_alloc` returns the address of
the first one, sets the bits of its frames and no other, and `pmm_free` of that address restores the
bitmap. -/
theorem pmmAlloc_first_fit (hsize : s.bitmapSize ≤ 2 ^ 20) (hn : 1 ≤ n) (hrun : s.HasRun n) :
    ∃ a, a + n ≤ s.bitmapSize ∧ s.FreeRun a n ∧ (∀ b < a, ¬ s.FreeRun b n) ∧
      (s.pmmAlloc n).1 = a * 4096 ∧
      (∀ f, (s.pmmAlloc n).2.used f ↔ (a ≤ f ∧ f < a + n) ∨ s.used f) ∧
      ((s.pmmAlloc n).2.pmmFree (s.pmmAlloc n).1 n).bitmap = s.bitmap := by
  obtain ⟨v, hv, hvrun⟩ := hrun
  have hn' : n < 2 ^ 32 := by omega
  have hlt : s.pmmLast n < s.bitmapSize := by
    have : Bits.search (Bits.get s.bitmap) n s.bitmapSize 0 0 < 0 + s.bitmapSize :=
      Bits.search_lt hn' (freeRun_iff.mp hvrun) hn (Nat.zero_le _) (by omega) (by omega)
    rwa [Nat.zero_add] at this
  obtain ⟨hle, hfound⟩ := search_found_of_lt (.inl (by omega)) hlt
  have hfirst : s.pmmFirst n = s.pmmLast n + 1 - n := pmmFirst_eq hn hn' hle (by omega)
  set a := s.pmmLast n + 1 - n with ha
  have hfree : s.FreeRun a n := freeRun_iff.mpr fun f h₁ h₂ => hfound f (by omega) (by omega)
  have haddr : (s.pmmAlloc n).1 = a * 4096 := by
    rw [pmmAlloc, hfirst]
    exact Nat.mod_eq_of_lt (by omega)
  have hused : ∀ f, (s.pmmAlloc n).2.used f ↔ (a ≤ f ∧ f < a + n) ∨ s.used f := by
    intro f
    rw [used_pmmAlloc_iff, hfirst]
    refine or_congr ?_ Iff.rfl
    omega
  refine ⟨a, by omega, hfree, fun b hb hbrun => ?_, haddr, hused, bitmap_ext fun f => ?_⟩
  · refine Bits.search_first (u := Bits.get s.bitmap) (k := s.bitmapSize) (v := b) hn hn' ?_
      (freeRun_iff.mp hbrun)
    rw [← pmmLast]
    omega
  · rw [used_pmmFree_iff, hused, haddr, Nat.mul_div_cancel a (by omega)]
    constructor
    · rintro ⟨hout, hin | hu⟩
      · exact absurd hin hout
      · exact hu
    · intro hu
      exact ⟨fun hin => hfree f hin.1 hin.2 hu, .inr hu⟩

/-- A memory of 16 frames, of which the frames 3, 6, 7 and 9 to 15 are free. -/
def sparse : Mm where
  bitmap := fun k => if k = 0 then 0b00110111#8 else 0b00000001#8
  bitmapSize := 16
  mem := fun _ _ => 0
  kernelPageDirectory := fun _ => 0
  kheapPages := fun _ => 0
  tmpPte := 0
  overrun := false

/-- Two frames of the sparse memory are allocated and given back. -/
theorem pmmAlloc_first_fit_sparse : sparse.HasRun 2 ∧ ∃ a, a + 2 ≤ sparse.bitmapSize ∧
    (sparse.pmmAlloc 2).1 = a * 4096 ∧
    ((sparse.pmmAlloc 2).2.pmmFree (sparse.pmmAlloc 2).1 2).bitmap = sparse.bitmap := by
  have hrun : sparse.HasRun 2 := by
    refine ⟨6, by decide, fun f h₁ h₂ => ?_⟩
    obtain rfl | rfl : f = 6 ∨ f = 7 := by omega
    · exact (by decide : ¬ Bits.get sparse.bitmap 6 = true)
    · exact (by decide : ¬ Bits.get sparse.bitmap 7 = true)
  obtain ⟨a, hle, -, -, haddr, -, hfree⟩ :=
    pmmAlloc_first_fit (s := sparse) (by decide) (by omega) hrun
  exact ⟨hrun, a, hle, haddr, hfree⟩

/-! ## Failing searches -/

/-- The call of `pmm_alloc` changes no bit, and the address it returns is of a free frame. -/
def PmmContained (s : Mm) (n : ℕ) : Prop :=
  (s.pmmAlloc n).2.bitmap = s.bitmap ∧ (s.pmmAlloc n).1 / 4096 < s.bitmapSize ∧
    ¬ s.used ((s.pmmAlloc n).1 / 4096)

/-- A request for which a failing `pmm_alloc` does no harm: the bits of the `n` indices that end at
`bitmap_size` are set already, or there are no such indices because `n` is too large; and the index
`bitmap_size - (n - 1)`, cut to the 20 bits of a frame number, is that of a free frame. -/
def Spared (s : Mm) (n : ℕ) : Prop :=
  (n ≤ s.bitmapSize + 1 → ∀ f, s.bitmapSize + 1 ≤ f + n → f ≤ s.bitmapSize → s.used f) ∧
    (2 ^ 64 + s.bitmapSize + 1 - n) % 2 ^ 20 < s.bitmapSize ∧
    ¬ s.used ((2 ^ 64 + s.bitmapSize + 1 - n) % 2 ^ 20)

/-- A search that finds no run ends at `bitmap_size`. -/
lemma pmmLast_of_not_hasRun (hn : 1 ≤ n) (hn' : n < 2 ^ 32) (h : ¬ s.HasRun n) :
    s.pmmLast n = s.bitmapSize := by
  by_contra hne
  have hle := s.pmmLast_le n
  have hlt : s.pmmLast n < s.bitmapSize := by omega
  obtain ⟨hend, hfound⟩ := search_found_of_lt (.inr ⟨hn, hn'⟩) hlt
  refine h ⟨s.pmmLast n + 1 - n, by omega, freeRun_iff.mpr fun f h₁ h₂ => ?_⟩
  exact hfound f (by omega) (by omega)

/-- **When a failing `pmm_alloc` is contained.**

**Proof sketch.** The search ends at `bitmap_size`, so the first index is `bitmap_size - (n - 1)` in
64 bits. If that does not wrap, the bits from it to `bitmap_size` are set; if it does, it is larger
than `bitmap_size` and the loop that sets bits is not entered. -/
lemma pmmContained_iff (hsize : s.bitmapSize < 2 ^ 35) (hn : 1 ≤ n) (hn' : n < 2 ^ 32)
    (h : ¬ s.HasRun n) : s.PmmContained n ↔ s.Spared n := by
  have hlast := pmmLast_of_not_hasRun hn hn' h
  have hfirst : s.pmmFirst n = (2 ^ 64 + s.bitmapSize + 1 - n) % 2 ^ 64 := by
    rw [pmmFirst, hlast, sub64, sub32]
    omega
  have haddr : (s.pmmAlloc n).1 / 4096 = (2 ^ 64 + s.bitmapSize + 1 - n) % 2 ^ 20 := by
    have hmod : (s.pmmAlloc n).1 = s.pmmFirst n * 4096 % 2 ^ 32 := by rw [pmmAlloc]
    rw [hmod, hfirst]
    omega
  have hbits : (s.pmmAlloc n).2.bitmap = s.bitmap ↔ (n ≤ s.bitmapSize + 1 →
      ∀ f, s.bitmapSize + 1 ≤ f + n → f ≤ s.bitmapSize → s.used f) := by
    constructor
    · intro hsame hle f h₁ h₂
      have hu : (s.pmmAlloc n).2.used f := used_pmmAlloc_iff.mpr (.inl ⟨by omega, by omega⟩)
      rw [used, hsame] at hu
      exact hu
    · intro hset
      refine bitmap_ext fun f => used_pmmAlloc_iff.trans ⟨fun hf => ?_, .inr⟩
      rcases hf with ⟨h₁, h₂⟩ | hu
      · exact hset (by omega) f (by omega) (by omega)
      · exact hu
  rw [PmmContained, Spared, hbits, haddr]

/-- There is a run of `n` free heap pages. -/
def HasHeapRun (s : Mm) (n : ℕ) : Prop :=
  ∃ v, v + n ≤ kheapPagesNum ∧ ∀ w, v ≤ w → w < v + n → s.kheapPages w = 0

/-- The call of `mmap` changes no bit and no record of a heap page, and the address it returns is of
a free heap page. -/
def HeapContained (s : Mm) (n flags : ℕ) : Prop :=
  (s.mmap n flags).2.bitmap = s.bitmap ∧ (s.mmap n flags).2.kheapPages = s.kheapPages ∧
    sub32 (s.mmap n flags).1 kheapStart / 4096 < kheapPagesNum ∧
    s.kheapPages (sub32 (s.mmap n flags).1 kheapStart / 4096) = 0

/-- A search that finds no run of heap pages ends at `KHEAP_PAGES_NUM`. -/
lemma virtLast_of_not_hasHeapRun (hn : 1 ≤ n) (h : ¬ s.HasHeapRun n) :
    s.virtLast n = kheapPagesNum := by
  by_contra hne
  obtain ⟨hle, hfree⟩ := Sys.freeVirtAreaIdx_spec hn hne
  exact h ⟨_, hle, hfree⟩

/-- An allocation leaves the record of heap pages alone. -/
lemma kheapPages_allocFilled (s : Mm) (page : ℕ → ℕ) :
    (s.allocFilled page).2.kheapPages = s.kheapPages := by
  -- for arbitrary values, so that the bitmap is not evaluated
  have hwith : ∀ (b : ℕ → BitVec 8) (o : Bool),
      ({ s with bitmap := b, overrun := o } : Mm).kheapPages = s.kheapPages := fun _ _ => rfl
  have hfill : ∀ (m : Mm) (p : ℕ), (m.fillPage p page).kheapPages = m.kheapPages := fun _ _ => rfl
  rewrite [allocFilled, hfill, pmmAlloc]
  exact hwith _ _

/-- Installing a missing page table leaves the record of heap pages alone. -/
lemma kheapPages_ensureTable (s : Mm) (pde flags : ℕ) :
    (s.ensureTable pde flags).kheapPages = s.kheapPages := by
  have hwith : ∀ (m : Mm) (k : ℕ → ℕ),
      ({ m with kernelPageDirectory := k } : Mm).kheapPages = m.kheapPages := fun _ _ => rfl
  rw [ensureTable]
  split_ifs
  · rw [hwith, allocZeroed, kheapPages_allocFilled]
  · rfl

/-- An iteration of `mmap` records its page and no other. -/
lemma kheapPages_mmapPage (s : Mm) (flags v w : ℕ) :
    (mmapPage flags v s).kheapPages w = if w = v then 1 else s.kheapPages w := by
  have hrec : ∀ (m : Mm) (phys : ℕ), (m.mapHeapPage v phys flags).kheapPages =
      Function.update m.kheapPages v 1 := fun _ _ => rfl
  rw [mmapPage, hrec, kheapPages_ensureTable, allocZeroed, kheapPages_allocFilled,
    Function.update_apply]

/-- The loop of `mmap` records every page it counts through. -/
lemma kheapPages_mmapLoop {flags lo k v : ℕ} (hlo : lo ≤ v) (hv : v < lo + k) :
    (Loop.forEach (fun v => mmapPage flags (v % 2 ^ 32)) lo k s).kheapPages (v % 2 ^ 32) = 1 := by
  have hloop : v < lo + k →
      (Loop.forEach (fun v => mmapPage flags (v % 2 ^ 32)) lo k s).kheapPages (v % 2 ^ 32) = 1 :=
    Loop.forEach_rule (I := fun u (m : Mm) => v < u → m.kheapPages (v % 2 ^ 32) = 1)
    (fun u m _ _ ih hu => by
      rw [kheapPages_mmapPage]
      split_ifs with he
      · rfl
      · exact ih (by rcases Nat.lt_or_ge v u with h | h
                     · exact h
                     · exact absurd (by rw [show v = u by omega]) he))
    (fun hu => absurd hu (by omega))
  exact hloop hv

/-- **A failing `mmap` is never contained.**

**Proof sketch.** The index it starts from is `KHEAP_PAGES_NUM - (n - 1)` in 32 bits, and it counts
`n` pages from there, so it comes to `KHEAP_PAGES_NUM`. If the page of the returned address is a
free one of the heap, it is among the pages counted through, and is recorded. -/
lemma not_heapContained (hn : 1 ≤ n) (hn' : n < 2 ^ 32) (flags : ℕ) (h : ¬ s.HasHeapRun n) :
    ¬ s.HeapContained n flags := by
  rintro ⟨-, hsame, hlt, hfree⟩
  have hnum : kheapPagesNum = 130048 := by decide
  have hstart : kheapStart = 0xC0400000 := rfl
  have hlast := virtLast_of_not_hasHeapRun hn h
  have hidx : s.freeVirtAreaIdx n = (2 ^ 32 + 130048 + 1 - n) % 2 ^ 32 := by
    rw [freeVirtAreaIdx, hlast, hnum, sub32, sub32]
    omega
  have hpage : sub32 (s.mmap n flags).1 kheapStart / 4096 = s.freeVirtAreaIdx n % 2 ^ 20 := by
    have haddr : (s.mmap n flags).1 = heapAddr (s.freeVirtAreaIdx n) := by rw [mmap]
    rw [haddr, heapAddr, sub32, hstart]
    omega
  rw [hpage] at hlt hfree
  set p := s.freeVirtAreaIdx n % 2 ^ 20 with hp
  -- the page of the returned address is counted through, at once or after the index has wrapped
  obtain ⟨v, h₁, h₂, hv⟩ : ∃ v, s.freeVirtAreaIdx n ≤ v ∧ v < s.freeVirtAreaIdx n + n ∧
      v % 2 ^ 32 = p := by
    by_cases hw : n ≤ 130049
    · exact ⟨p, by omega, by omega, by omega⟩
    · exact ⟨2 ^ 32 + p, by omega, by omega, by omega⟩
  have hrec : (s.mmap n flags).2.kheapPages p = 1 := by
    rw [mmap, ← hv]
    exact kheapPages_mmapLoop h₁ h₂
  rw [hsame, hfree] at hrec
  exact absurd hrec (by omega)

/-- **When the failure of an allocation is contained.** For every bitmap, every record of heap pages
and every request of at least one page: a `pmm_alloc` that finds no run is contained exactly when
the request is spared, and a `mmap` that finds no run never is. A bitmap of `2^35` bits would not
fit in the address space. -/
theorem failure_contained_iff (s : Mm) (n flags : ℕ) (hsize : s.bitmapSize < 2 ^ 35) (hn : 1 ≤ n)
    (hn' : n < 2 ^ 32) :
    ((¬ s.HasRun n → s.PmmContained n) ↔ s.HasRun n ∨ s.Spared n) ∧
      ((¬ s.HasHeapRun n → s.HeapContained n flags) ↔ s.HasHeapRun n) := by
  constructor
  · constructor
    · intro hcont
      by_cases hrun : s.HasRun n
      · exact .inl hrun
      · exact .inr ((pmmContained_iff hsize hn hn' hrun).mp (hcont hrun))
    · rintro (hrun | hspared) hno
      · exact absurd hrun hno
      · exact (pmmContained_iff hsize hn hn' hno).mpr hspared
  · constructor
    · intro hcont
      by_contra hrun
      exact not_heapContained hn hn' flags hrun (hcont hrun)
    · exact fun hrun hno => absurd hrun hno

/-- The theorem on the sparse memory. -/
theorem failure_contained_iff_sparse :
    ((¬ sparse.HasRun 8 → sparse.PmmContained 8) ↔ sparse.HasRun 8 ∨ sparse.Spared 8) ∧
      ((¬ sparse.HasHeapRun 8 → sparse.HeapContained 8 kernelFlags) ↔ sparse.HasHeapRun 8) :=
  failure_contained_iff sparse 8 kernelFlags (by decide) (by omega) (by omega)

/-- A memory of 8 frames, all of them used. -/
def full : Mm := { sparse with bitmap := fun k => if k = 0 then 0xFF#8 else 0#8, bitmapSize := 8 }

/-- **A failure that is not contained**: with all 8 frames used, `pmm_alloc(1)` sets the bit at
index 8, past the bitmap, and returns the address of a ninth frame. -/
theorem failure_not_contained : ¬ ∀ (s : Mm) (n : ℕ), s.bitmapSize < 2 ^ 35 → 1 ≤ n → n < 2 ^ 32 →
    ¬ s.HasRun n → s.PmmContained n := by
  intro hall
  have hused : ∀ f : Fin 8, Bits.get full.bitmap f.val = true := by decide
  have hno : ¬ full.HasRun 1 := by
    rintro ⟨a, ha, hrun⟩
    have ha' : a + 1 ≤ 8 := ha
    exact hrun a (Nat.le_refl a) (by omega) (hused ⟨a, by omega⟩)
  obtain ⟨-, hlt, -⟩ := hall full 1 (by decide) (by omega) (by omega) hno
  exact absurd hlt (by decide)

end Mm

end AlphaOS
