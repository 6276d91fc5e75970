import AlphaOS.Lib.Loop
import Mathlib.Data.Nat.Notation
import Mathlib.Logic.Function.Basic
import Mathlib.Tactic.SplitIfs
import Mathlib.Algebra.Group.Nat.Defs

set_option relaxedAutoImplicit false
set_option autoImplicit false

/-!
# Bit arrays and aligned words

Arrays of bits packed into bytes, and words that hold an aligned address in their high bits and
flags in their low bits.

## Main definitions

* `Bits.get`, `Bits.set`, `Bits.clear` — the bit at an index of a byte array.
* `Bits.search` — the first-fit search for a run of clear positions.

## Main results

* `Bits.get_set`, `Bits.get_clear` — setting and clearing touch one bit.
* `Bits.get_setLoop`, `Bits.get_clearLoop` — loops that set or clear a range of bits.
* `Bits.search_found`, `Bits.search_first` — a successful search ends at the last position of a
  clear run, the first one.
* `Bits.and_mask`, `Bits.or_flags` — masking rounds down, and flags are added.
-/

namespace Bits

/-! ## Bits packed into bytes -/

/-- The bit at index `i`. -/
def get (a : ℕ → BitVec 8) (i : ℕ) : Bool := (a (i / 8) >>> (i % 8)) &&& 1#8 != 0#8

/-- Set the bit at index `i`. -/
def set (a : ℕ → BitVec 8) (i : ℕ) : ℕ → BitVec 8 :=
  Function.update a (i / 8) (a (i / 8) ||| (1#8 <<< (i % 8)))

/-- Clear the bit at index `i`. -/
def clear (a : ℕ → BitVec 8) (i : ℕ) : ℕ → BitVec 8 :=
  Function.update a (i / 8) (a (i / 8) &&& ~~~(1#8 <<< (i % 8)))

/-- The test of a bit, as a bit of a byte. -/
lemma get_eq_getLsbD (a : ℕ → BitVec 8) (i : ℕ) : get a i = (a (i / 8)).getLsbD (i % 8) := by
  have hbit (b : BitVec 8) : (b &&& 1#8 != 0#8) = b.getLsbD 0 := by
    revert b
    decide
  rw [get, hbit, BitVec.getLsbD_ushiftRight, Nat.add_zero]

/-- The single set bit of a shifted one. -/
lemma getLsbD_one_shiftLeft {k m : ℕ} (hk : k < 8) (hm : m < 8) :
    (1#8 <<< k).getLsbD m = decide (m = k) := by
  have h : ∀ k m : Fin 8, (1#8 <<< k.val).getLsbD m.val = decide (m.val = k.val) := by decide
  exact h ⟨k, hk⟩ ⟨m, hm⟩

/-- Two indices in one byte are equal when their bit numbers are. -/
lemma eq_iff_of_div {i j : ℕ} (h : j / 8 = i / 8) : j = i ↔ j % 8 = i % 8 := by omega

/-- Setting a bit sets that bit only. -/
lemma get_set (a : ℕ → BitVec 8) (i j : ℕ) : get (set a i) j = (decide (j = i) || get a j) := by
  rw [get_eq_getLsbD, get_eq_getLsbD, set, Function.update_apply]
  split_ifs with h
  · rw [BitVec.getLsbD_or, getLsbD_one_shiftLeft (Nat.mod_lt i (by omega))
      (Nat.mod_lt j (by omega)), Bool.or_comm, h]
    congr 1
    exact decide_eq_decide.mpr (eq_iff_of_div h).symm
  · have hji : j ≠ i := fun he => h (by rw [he])
    simp [hji]

/-- Clearing a bit clears that bit only. -/
lemma get_clear (a : ℕ → BitVec 8) (i j : ℕ) :
    get (clear a i) j = (!decide (j = i) && get a j) := by
  rw [get_eq_getLsbD, get_eq_getLsbD, clear, Function.update_apply]
  split_ifs with h
  · have hj : j % 8 < 8 := Nat.mod_lt j (by omega)
    rw [BitVec.getLsbD_and, BitVec.getLsbD_not, getLsbD_one_shiftLeft (Nat.mod_lt i (by omega)) hj,
      Bool.and_comm, h]
    simp [hj, eq_iff_of_div h]
  · have hji : j ≠ i := fun he => h (by rw [he])
    simp [hji]

/-- Byte arrays with the same bits are equal. -/
lemma ext_get {a b : ℕ → BitVec 8} (h : ∀ i, get a i = get b i) : a = b := by
  funext k
  refine BitVec.eq_of_getLsbD_eq fun j hj => ?_
  have hk := h (8 * k + j)
  rw [get_eq_getLsbD, get_eq_getLsbD, show (8 * k + j) / 8 = k by omega,
    show (8 * k + j) % 8 = j by omega] at hk
  exact hk

/-- **A loop that sets bits** sets the bits of its range only. -/
lemma get_setLoop (n : ℕ) : ∀ (a : ℕ → BitVec 8) (lo i : ℕ),
    get (Loop.forEach (fun j b => set b j) lo n a) i =
      (decide (lo ≤ i ∧ i < lo + n) || get a i) := by
  induction n with
  | zero =>
    intro a lo i
    have hout : ¬ (lo ≤ i ∧ i < lo + 0) := by omega
    rw [Loop.forEach, decide_eq_false hout, Bool.false_or]
  | succ n ih =>
    intro a lo i
    rw [Loop.forEach, ih, get_set, ← Bool.or_assoc, ← Bool.decide_or]
    congr 1
    exact decide_eq_decide.mpr (by omega)

/-- **A loop that clears bits** clears the bits of its range only. -/
lemma get_clearLoop (n : ℕ) : ∀ (a : ℕ → BitVec 8) (lo i : ℕ),
    get (Loop.forEach (fun j b => clear b j) lo n a) i =
      (!decide (lo ≤ i ∧ i < lo + n) && get a i) := by
  induction n with
  | zero =>
    intro a lo i
    have hout : ¬ (lo ≤ i ∧ i < lo + 0) := by omega
    rw [Loop.forEach, decide_eq_false hout, Bool.not_false, Bool.true_and]
  | succ n ih =>
    intro a lo i
    rw [Loop.forEach, ih, get_clear, ← Bool.and_assoc, ← Bool.not_or, ← Bool.decide_or]
    congr 2
    exact decide_eq_decide.mpr (by omega)

/-! ## First-fit search -/

/-- Look at no more than `k` positions from `i` on for a run of `n` that are not used; `acc` of them
have been seen just before `i`, counted in 32 bits. The answer is the last position of the run, or
the position after the last one looked at. -/
def search (u : ℕ → Bool) (n : ℕ) : ℕ → ℕ → ℕ → ℕ
  | 0, i, _ => i
  | k + 1, i, acc =>
    if u i then search u n k (i + 1) 0
    else if (acc + 1) % 2 ^ 32 = n then i
    else search u n k (i + 1) ((acc + 1) % 2 ^ 32)

/-- A search does not go past its bound. -/
lemma search_le (u : ℕ → Bool) (n : ℕ) : ∀ k i acc, search u n k i acc ≤ i + k := by
  intro k
  induction k with
  | zero => intro i acc; simp [search]
  | succ k ih =>
    intro i acc
    rw [search]
    split_ifs
    · have := ih (i + 1) 0; omega
    · omega
    · have := ih (i + 1) ((acc + 1) % 2 ^ 32); omega

/-- **A successful search** ends at the last position of a run of `n` unused positions.

**Proof sketch.** The `acc` positions just before `i` are unused, and this is kept from one position
to the next; the count does not wrap because it stays below the position, or below `n`. -/
theorem search_found {u : ℕ → Bool} {n : ℕ} : ∀ {k i acc : ℕ},
    (i + k < 2 ^ 32 ∨ acc < n ∧ n < 2 ^ 32) → acc ≤ i → (∀ v, i ≤ v + acc → v < i → u v = false) →
    search u n k i acc < i + k →
    n ≤ search u n k i acc + 1 ∧
      ∀ v, search u n k i acc + 1 ≤ v + n → v ≤ search u n k i acc → u v = false := by
  intro k
  induction k with
  | zero => intro i acc _ _ _ h; simp [search] at h
  | succ k ih =>
    intro i acc hi hacc hrun h
    rw [search] at h ⊢
    have hmod : (acc + 1) % 2 ^ 32 = acc + 1 := Nat.mod_eq_of_lt (by omega)
    split_ifs at h ⊢ with hu hfull
    · have hn : i + 1 + k < 2 ^ 32 ∨ 0 < n ∧ n < 2 ^ 32 := by omega
      refine ih hn (by omega) (fun v h₁ h₂ => by omega) (by omega)
    · rw [hmod] at hfull
      refine ⟨by omega, fun v h₁ h₂ => ?_⟩
      rcases Nat.lt_or_ge v i with hv | hv
      · exact hrun v (by omega) hv
      · obtain rfl : v = i := by omega
        simpa using hu
    · rw [hmod] at h hfull ⊢
      refine ih (by omega) (by omega) (fun v h₁ h₂ => ?_) (by omega)
      rcases Nat.lt_or_ge v i with hv | hv
      · exact hrun v (by omega) hv
      · obtain rfl : v = i := by omega
        simpa using hu

/-- **A search for a single position** stops at the first unused one. -/
theorem search_one (u : ℕ → Bool) : ∀ k i : ℕ,
    (search u 1 k i 0 < i + k → u (search u 1 k i 0) = false) ∧
      ∀ v, i ≤ v → v < search u 1 k i 0 → u v = true := by
  intro k
  induction k with
  | zero =>
      intro i; exact ⟨fun h => by simp [search] at h, fun v h₁ h₂ => by simp [search] at h₂; omega⟩
  | succ k ih =>
    intro i
    rw [search]
    split_ifs with hu hone
    · obtain ⟨hfree, hused⟩ := ih (i + 1)
      refine ⟨fun h => hfree (by omega), fun v h₁ h₂ => ?_⟩
      by_cases hv : v = i
      · rw [hv, hu]
      · exact hused v (by omega) h₂
    · exact ⟨fun _ => by simpa using hu, fun v h₁ h₂ => by omega⟩
    · exact absurd rfl hone

/-- A search for a single position does not go past an unused one. -/
lemma search_one_le {u : ℕ → Bool} {k i v : ℕ} (h₁ : i ≤ v) (hv : u v = false) :
    search u 1 k i 0 ≤ v := by
  by_contra hlt
  have := (search_one u k i).2 v h₁ (by omega)
  rw [hv] at this
  simp at this

/-- **A search succeeds** when there is a run of `n` unused positions.

**Proof sketch.** Once the search has come to the run, the count is at least the number of positions
of the run it has passed, so it is full by the end of the run. -/
theorem search_lt {u : ℕ → Bool} {n v : ℕ} (hn : n < 2 ^ 32)
    (hrun : ∀ w, v ≤ w → w < v + n → u w = false) : ∀ {k i acc : ℕ}, acc < n → i ≤ v + acc →
    i < v + n → v + n ≤ i + k → search u n k i acc < i + k := by
  intro k
  induction k with
  | zero => intro i acc _ _ h₁ h₂; omega
  | succ k ih =>
    intro i acc hacc hiv hi hk
    rw [search]
    have hmod : (acc + 1) % 2 ^ 32 = acc + 1 := Nat.mod_eq_of_lt (by omega)
    split_ifs with hu hfull
    · have hlt : i < v := by
        by_contra hge
        rw [hrun i (by omega) hi] at hu
        exact absurd hu (by simp)
      have : search u n k (i + 1) 0 < i + 1 + k := ih (by omega) (by omega) (by omega) (by omega)
      omega
    · omega
    · rw [hmod] at hfull ⊢
      have : search u n k (i + 1) (acc + 1) < i + 1 + k :=
        ih (by omega) (by omega) (by omega) (by omega)
      omega

/-- A search that has succeeded within `k` positions finds the same with a larger bound. -/
lemma search_eq_of_le {u : ℕ → Bool} {n : ℕ} : ∀ {k m i acc : ℕ}, k ≤ m →
    search u n k i acc < i + k → search u n m i acc = search u n k i acc := by
  intro k
  induction k with
  | zero => intro m i acc _ h; simp [search] at h
  | succ k ih =>
    intro m i acc hm h
    obtain ⟨m, rfl⟩ : ∃ l, m = l + 1 := ⟨m - 1, by omega⟩
    rw [search] at h ⊢
    rw [search]
    split_ifs at h ⊢
    · exact ih (by omega) (by omega)
    · rfl
    · exact ih (by omega) (by omega)

/-- **A search stops at the first run**: no run of `n` unused positions ends before it.

**Proof sketch.** Bounded by the end of such a run the search would succeed there, and a larger
bound does not change what it finds. -/
theorem search_first {u : ℕ → Bool} {n k v : ℕ} (hn : 0 < n) (hn' : n < 2 ^ 32)
    (hv : v + n ≤ search u n k 0 0) : ¬ ∀ w, v ≤ w → w < v + n → u w = false := by
  intro hrun
  have hk := search_le u n k 0 0
  have hlt : search u n (v + n) 0 0 < 0 + (v + n) :=
    search_lt hn' hrun hn (Nat.zero_le _) (by omega) (by omega)
  have heq : search u n k 0 0 = search u n (v + n) 0 0 := search_eq_of_le (by omega) hlt
  omega

/-! ## Addresses with flags -/

/-- Keeping `m` bits of a number of `k + m` bits, all but the lowest `k`, rounds it down to a
multiple of `2 ^ k`. -/
lemma and_high {x k m : ℕ} (hx : x < 2 ^ (k + m)) :
    x &&& (2 ^ m - 1) <<< k = x / 2 ^ k * 2 ^ k := by
  apply Nat.eq_of_testBit_eq
  intro i
  rw [← Nat.shiftRight_eq_div_pow, ← Nat.shiftLeft_eq, Nat.testBit_and, Nat.testBit_shiftLeft,
    Nat.testBit_shiftLeft, Nat.testBit_two_pow_sub_one, Nat.testBit_shiftRight]
  by_cases hi : k ≤ i
  · simp only [ge_iff_le, hi, decide_true, Bool.true_and, show k + (i - k) = i by omega]
    by_cases hm : i < k + m
    · simp [show i - k < m by omega]
    · have hz : x.testBit i = false :=
        Nat.testBit_lt_two_pow (Nat.lt_of_lt_of_le hx (Nat.pow_le_pow_right (by omega) (by omega)))
      simp [hz]
  · simp [hi]

/-- Masking off the low twelve bits of a word rounds it down to a multiple of `4096`. -/
lemma and_mask {x : ℕ} (hx : x < 2 ^ 32) : x &&& 0xFFFFF000 = x / 4096 * 4096 :=
  and_high (k := 12) (m := 20) hx

/-- Masking off the low three bits of a word rounds it down to a multiple of `8`. -/
lemma and_mask_eight {x : ℕ} (hx : x < 2 ^ 32) : x &&& 0xFFFFFFF8 = x / 8 * 8 :=
  and_high (k := 3) (m := 29) hx

/-- Flags below `4096` are added to an aligned address. -/
lemma or_flags {f g : ℕ} (hg : g < 4096) : f * 4096 ||| g = f * 4096 + g := by
  have h := Nat.two_pow_add_eq_or_of_lt (i := 12) (b := g) (by omega) f
  rw [show (4096 : ℕ) = 2 ^ 12 from rfl, Nat.mul_comm f]
  exact h.symm

end Bits
