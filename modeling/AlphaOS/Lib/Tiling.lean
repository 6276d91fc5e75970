import AlphaOS.Lib.Lseg
import Mathlib.Algebra.Order.BigOperators.Group.List
import Mathlib.Algebra.Order.Ring.Nat
import Mathlib.Data.List.Perm.Subperm

set_option relaxedAutoImplicit false
set_option autoImplicit false

/-!
# Tilings of an interval

A region of memory that is cut into blocks, each of which begins where the one before it ends. A
block is known by its address, and its width is a function of the address: the tiling is the segment
of the link that goes from a block to its end.

## Main definitions

* `Tiling.Tiles w lo bs hi` — the blocks `bs`, of widths `w`, tile `[lo, hi)`.

## Main results

* `Tiling.Tiles.apart` — two blocks of a tiling do not overlap.
* `Tiling.Tiles.snoc`, `Tiling.Tiles.cut`, `Tiling.Tiles.join` — a block is added at the end, a
  block is cut in two, two neighbours become one.
* `Tiling.Tiles.sum_le` — some of the blocks have the width of all only when they are all.
-/

namespace Tiling

variable {w w' : ℕ → ℕ} {lo hi b c : ℕ} {bs bs₁ bs₂ fs : List ℕ}

/-- The blocks `bs` tile `[lo, hi)`: the first begins at `lo`, each of the others at the end of the
one before it, and the last ends at `hi`. -/
def Tiles (w : ℕ → ℕ) (lo : ℕ) (bs : List ℕ) (hi : ℕ) : Prop :=
  Linked.Lseg (fun b => b + w b) lo bs hi

/-- No blocks tile the empty range only. -/
@[simp] lemma tiles_nil : Tiles w lo [] hi ↔ lo = hi := Iff.rfl

/-- Tiles from the first one on. -/
@[simp] lemma tiles_cons : Tiles w lo (b :: bs) hi ↔ lo = b ∧ Tiles w (b + w b) bs hi := Iff.rfl

/-- A tiling of a concatenation is two tilings that meet. -/
lemma tiles_append :
    Tiles w lo (bs₁ ++ bs₂) hi ↔ ∃ m, Tiles w lo bs₁ m ∧ Tiles w m bs₂ hi :=
  Linked.lseg_append

/-- A block of a tiling, with the tilings before and after it. -/
lemma tiles_middle :
    Tiles w lo (bs₁ ++ b :: bs₂) hi ↔ Tiles w lo bs₁ b ∧ Tiles w (b + w b) bs₂ hi := by
  rw [tiles_append]
  constructor
  · rintro ⟨m, h₁, rfl, h₂⟩
    exact ⟨h₁, h₂⟩
  · rintro ⟨h₁, h₂⟩
    exact ⟨b, h₁, rfl, h₂⟩

/-! ## Bounds -/

/-- A tiling ends after it begins. -/
lemma Tiles.le (h : Tiles w lo bs hi) : lo ≤ hi := by
  induction bs generalizing lo with
  | nil => exact le_of_eq h
  | cons b bs ih =>
    obtain ⟨rfl, h⟩ := tiles_cons.mp h
    have hrest := ih h
    omega

/-- A block lies in the interval that is tiled. -/
lemma Tiles.bounds (h : Tiles w lo bs hi) (hb : b ∈ bs) : lo ≤ b ∧ b + w b ≤ hi := by
  obtain ⟨bs₁, bs₂, rfl⟩ := List.append_of_mem hb
  obtain ⟨h₁, h₂⟩ := tiles_middle.mp h
  exact ⟨h₁.le, h₂.le⟩

/-- **Two blocks of a tiling do not overlap.** -/
theorem Tiles.apart (h : Tiles w lo bs hi) (hb : b ∈ bs) (hc : c ∈ bs) (hne : b ≠ c) :
    b + w b ≤ c ∨ c + w c ≤ b := by
  obtain ⟨bs₁, bs₂, rfl⟩ := List.append_of_mem hb
  obtain ⟨h₁, h₂⟩ := tiles_middle.mp h
  rcases List.mem_append.mp hc with hc | hc
  · exact .inr (h₁.bounds hc).2
  · rcases List.mem_cons.mp hc with rfl | hc
    · exact absurd rfl hne
    · exact .inl (h₂.bounds hc).1

/-- The blocks of a tiling are distinct when none of them is empty. -/
lemma Tiles.nodup (h : Tiles w lo bs hi) (hw : ∀ b ∈ bs, 0 < w b) : bs.Nodup := by
  induction bs generalizing lo with
  | nil => exact List.nodup_nil
  | cons b bs ih =>
    obtain ⟨rfl, h⟩ := tiles_cons.mp h
    have hpos := hw lo List.mem_cons_self
    refine List.nodup_cons.mpr ⟨fun hmem => ?_, ih h fun c hc => hw c (List.mem_cons_of_mem _ hc)⟩
    have hle := (h.bounds hmem).1
    omega

/-- The blocks of a tiling are the places below its end that one comes to by going from block to
block. -/
lemma Tiles.mem_iff (h : Tiles w lo bs hi) (hw : ∀ b ∈ bs, 0 < w b) :
    b ∈ bs ↔ b < hi ∧ ∃ l, Tiles w lo l b := by
  constructor
  · intro hb
    have hpos := hw b hb
    have hbounds := h.bounds hb
    obtain ⟨bs₁, bs₂, rfl⟩ := List.append_of_mem hb
    exact ⟨by omega, bs₁, (tiles_middle.mp h).1⟩
  · rintro ⟨hlt, l, hl⟩
    induction l generalizing lo bs with
    | nil =>
      obtain rfl := tiles_nil.mp hl
      cases bs with
      | nil => exact absurd (tiles_nil.mp h) (by omega)
      | cons c bs => exact (tiles_cons.mp h).1 ▸ List.mem_cons_self
    | cons c l ih =>
      obtain ⟨rfl, hl⟩ := tiles_cons.mp hl
      have hle := hl.le
      cases bs with
      | nil => exact absurd (tiles_nil.mp h) (by omega)
      | cons d bs =>
        obtain ⟨rfl, h⟩ := tiles_cons.mp h
        exact List.mem_cons_of_mem _ (ih h (fun e he => hw e (List.mem_cons_of_mem _ he)) hl)

/-! ## Changing a tiling -/

/-- A tiling depends on the widths of its own blocks only. -/
lemma Tiles.congr (h : Tiles w lo bs hi) (hag : ∀ b ∈ bs, w' b = w b) : Tiles w' lo bs hi := by
  induction bs generalizing lo with
  | nil => exact h
  | cons b bs ih =>
    obtain ⟨rfl, h⟩ := tiles_cons.mp h
    rw [tiles_cons, hag lo List.mem_cons_self]
    exact ⟨rfl, ih h fun c hc => hag c (List.mem_cons_of_mem _ hc)⟩

/-- A block is added at the end. -/
theorem Tiles.snoc (h : Tiles w lo bs hi) (hag : ∀ b ∈ bs, w' b = w b) :
    Tiles w' lo (bs ++ [hi]) (hi + w' hi) :=
  tiles_middle.mpr ⟨h.congr hag, rfl⟩

/-- A block is cut in two. -/
theorem Tiles.cut (h : Tiles w lo (bs₁ ++ b :: bs₂) hi) (hag : ∀ c ∈ bs₁ ++ bs₂, w' c = w c)
    (hsum : w' b + w' (b + w' b) = w b) : Tiles w' lo (bs₁ ++ b :: (b + w' b) :: bs₂) hi := by
  obtain ⟨h₁, h₂⟩ := tiles_middle.mp h
  have hend : b + w' b + w' (b + w' b) = b + w b := by omega
  rw [tiles_middle, tiles_cons, hend]
  refine ⟨h₁.congr fun c hc => hag c (List.mem_append_left _ hc), rfl, ?_⟩
  exact h₂.congr fun c hc => hag c (List.mem_append_right _ hc)

/-- Two neighbours become one block. -/
theorem Tiles.join (h : Tiles w lo (bs₁ ++ b :: c :: bs₂) hi)
    (hag : ∀ d ∈ bs₁ ++ bs₂, w' d = w d) (hsum : w' b = w b + w c) :
    Tiles w' lo (bs₁ ++ b :: bs₂) hi := by
  obtain ⟨h₁, rfl, h₂⟩ := tiles_middle.mp h
  have hend : b + w' b = b + w b + w (b + w b) := by omega
  refine tiles_middle.mpr ⟨h₁.congr fun d hd => hag d (List.mem_append_left _ hd), ?_⟩
  rw [hend]
  exact Tiles.congr h₂ fun d hd => hag d (List.mem_append_right _ hd)

/-- The block that begins where another one ends is the next one. -/
lemma Tiles.neighbours (h : Tiles w lo bs hi) (hw : ∀ b ∈ bs, 0 < w b) (hb : b ∈ bs) (hc : c ∈ bs)
    (hend : b + w b = c) : ∃ bs₁ bs₂, bs = bs₁ ++ b :: c :: bs₂ := by
  obtain ⟨bs₁, bs₂, rfl⟩ := List.append_of_mem hb
  obtain ⟨h₁, h₂⟩ := tiles_middle.mp h
  have hpos := hw b hb
  have hafter : c ∈ bs₂ := by
    rcases List.mem_append.mp hc with hmem | hmem
    · have hle := (h₁.bounds hmem).2
      omega
    · refine (List.mem_cons.mp hmem).resolve_left fun heq => ?_
      omega
  cases bs₂ with
  | nil => exact absurd hafter List.not_mem_nil
  | cons d bs₂ =>
    obtain ⟨rfl, -⟩ := h₂
    exact ⟨bs₁, bs₂, by rw [hend]⟩

/-! ## Widths -/

/-- The widths of the blocks add up to the width of the interval. -/
lemma Tiles.sum (h : Tiles w lo bs hi) : lo + (bs.map w).sum = hi := by
  induction bs generalizing lo with
  | nil => simpa using h
  | cons b bs ih =>
    obtain ⟨rfl, h⟩ := tiles_cons.mp h
    have hrest := ih h
    simp only [List.map_cons, List.sum_cons]
    omega

/-- Some of the blocks of a tiling have at most its width, and all of its width only when they are
all of its blocks. -/
theorem Tiles.sum_le (h : Tiles w lo bs hi) (hw : ∀ b ∈ bs, 0 < w b) (hnd : fs.Nodup)
    (hsub : ∀ b ∈ fs, b ∈ bs) :
    lo + (fs.map w).sum ≤ hi ∧ (lo + (fs.map w).sum = hi → ∀ b ∈ bs, b ∈ fs) := by
  obtain ⟨gs, hgs, hsl⟩ := hnd.subperm hsub
  obtain ⟨rest, hperm⟩ := hsl.exists_perm_append
  have hall := h.sum
  have hparts : (bs.map w).sum = (fs.map w).sum + (rest.map w).sum := by
    rw [(hperm.map w).sum_eq, List.map_append, List.sum_append, (hgs.map w).sum_eq]
  refine ⟨by omega, fun heq b hb => ?_⟩
  have hmem := hperm.mem_iff.mp hb
  rcases List.mem_append.mp hmem with hmem | hmem
  · exact hgs.mem_iff.mp hmem
  · -- a block outside of `fs` has a width of its own
    have hpos := hw b hb
    have hle := List.single_le_sum (fun _ _ => Nat.zero_le _) _ (List.mem_map_of_mem (f := w) hmem)
    omega

end Tiling
