import AlphaOS.Graphics.Framebuffer
import AlphaOS.Tty.Screen

set_option relaxedAutoImplicit false
set_option autoImplicit false

/-!
# Lines on the mapped framebuffer

The kernel writes its messages with `terminal_writestring`, which draws on the pages that
`init_video_memory` has mapped. Nothing keeps the cursor on the screen when a line ends, so a store
of `put_pixel` can be to an address behind these pages, where the kernel faults. This file says
which sequences of lines are written without such a store: those whose characters all come to stand
in one of the first `38` rows.

## Main definitions

* `AlphaOS.Screen.terminalWritestring` — the function of the source.
* `AlphaOS.Screen.Fits` — the lines stand in the first `38` rows.
* `AlphaOS.Screen.zapLight` — the font of the kernel.

## Main results

* `AlphaOS.Screen.draws_putChar` — every pixel of a glyph is drawn.
* `AlphaOS.Screen.lines_written_iff` — the lines are written if and only if they fit.

## Design

Only the framebuffer that `boot.s` asks for is considered, with `1024` times `768` pixels of four
bytes. The record of the stores goes on growing, so a string has been written without a fault
exactly when no store in the record is to an unmapped page.
-/

namespace AlphaOS

namespace Screen

/-- The store is to a page that `init_video_memory` has mapped. -/
def OnFramebuffer (fb : Framebuffer) (p : PixelStore) : Prop :=
  framebufferAddr ≤ p.addr ∧ p.addr < framebufferAddr + Mm.videoPages fb.pitch fb.height * 4096

instance (fb : Framebuffer) : DecidablePred (OnFramebuffer fb) :=
  fun _ => inferInstanceAs (Decidable (_ ∧ _))

/-- `terminal_writestring`. It has no result when a pixel is not mapped. -/
def terminalWritestring (fb : Framebuffer) (font : Font) (s : Screen) (data : List (BitVec 8)) :
    Option Screen :=
  if ∀ p ∈ (terminalWrite fb font data s).stores, OnFramebuffer fb p then
    some (terminalWrite fb font data s)
  else none

/-- The rows of the framebuffer that the pixels of a letter do not leave. -/
def textRows : ℕ := 38

/-- A letter with a pixel below the eighth line of its cell. -/
def Legible (font : Font) (c : BitVec 8) : Prop :=
  ∃ i j, 8 ≤ i ∧ i < font.height ∧ j < font.width ∧ glyphPixel font c.toNat i j = true

/-- The row behind the last column of row `r`. -/
def wrapRow (r : ℕ) : ℕ := if r + 1 = vgaHeight then 0 else r + 1

/-- The row of the cursor behind `n` characters from column `c` of row `r` on. -/
def rowBehind (r c n : ℕ) : ℕ := if c + n < vgaWidth then r else wrapRow r

/-- The column of the cursor behind `n` characters from column `c` on. -/
def columnBehind (c n : ℕ) : ℕ := if c + n < vgaWidth then c + n else c + n - vgaWidth

/-- The `n` characters from column `c` of row `r` on stand in the first `38` rows. -/
def LineFits (r c n : ℕ) : Prop := r < textRows ∧ (vgaWidth < c + n → wrapRow r < textRows)

instance (r c n : ℕ) : Decidable (LineFits r c n) := inferInstanceAs (Decidable (_ ∧ _))

/-- Lines of these lengths, written from column `c` of row `r` on, stand in the first `38` rows. -/
def Fits : ℕ → ℕ → List ℕ → Prop
  | _, _, [] => True
  | r, c, n :: ns => LineFits r c n ∧ Fits (rowBehind r c n + 1) 0 ns

instance decidableFits : ∀ (r c : ℕ) (ns : List ℕ), Decidable (Fits r c ns)
  | _, _, [] => .isTrue trivial
  | r, c, n :: ns =>
    have := decidableFits (rowBehind r c n + 1) 0 ns
    inferInstanceAs (Decidable (_ ∧ _))

/-- The word as a line. -/
def line (word : List (BitVec 8)) : List (BitVec 8) := word ++ [0x0A]

/-- What is asked of the words: no newline, less than a row, and a legible first and last letter. -/
structure Message (font : Font) (word : List (BitVec 8)) : Prop where
  newline : 0x0A ∉ word
  length : word.length < vgaWidth
  first : ∃ a rest, word = a :: rest ∧ Legible font a
  last : ∃ rest a, word = rest ++ [a] ∧ Legible font a

variable {fb : Framebuffer} {font : Font} {s : Screen} {x y i j code color : ℕ} {c : BitVec 8}
  {word : List (BitVec 8)}

/-! ## Every pixel is drawn -/

/-- A loop of `put_char` only adds stores, if its iterations do. -/
lemma stores_loop {body : ℕ → ℕ × Screen → ℕ × Screen}
    (hbody : ∀ k u, u.2.stores ⊆ (body k u).2.stores) (n : ℕ) (u : ℕ × Screen) :
    u.2.stores ⊆ (Loop.forEach body 0 n u).2.stores :=
  Loop.forEach_rule (I := fun _ v => u.2.stores ⊆ v.2.stores)
    (fun k v _ _ hv => List.Subset.trans hv (hbody k v)) (List.Subset.refl _)

/-- **A store of a loop**: when every iteration adds one to the coordinate and only adds stores,
what iteration `m` stores is there at the end. -/
lemma mem_stores_loop {body : ℕ → ℕ × Screen → ℕ × Screen} {p : PixelStore} {a m n : ℕ} (hm : m < n)
    (hbody : ∀ k u, u.2.stores ⊆ (body k u).2.stores)
    (hcount : ∀ k u, k < n → u.1 = a + k → (body k u).1 = a + (k + 1))
    (hdraw : ∀ u, u.1 = a + m → p ∈ (body m u).2.stores) :
    p ∈ (Loop.forEach body 0 n (a, s)).2.stores := by
  have hstep (k : ℕ) (u : ℕ × Screen) (hk : k < 0 + n)
      (hu : u.1 = a + k ∧ (m < k → p ∈ u.2.stores)) :
      (body k u).1 = a + (k + 1) ∧ (m < k + 1 → p ∈ (body k u).2.stores) := by
    refine ⟨hcount k u (by omega) hu.1, fun hmk => ?_⟩
    rcases Nat.lt_succ_iff_lt_or_eq.mp hmk with hlt | rfl
    · exact hbody k u (hu.2 hlt)
    · exact hdraw u hu.1
  have hloop := Loop.forEach_rule (I := fun k u => u.1 = a + k ∧ (m < k → p ∈ u.2.stores))
    (s := (a, s)) (fun k u _ hk hu => hstep k u hk hu) ⟨rfl, fun h => absurd h (Nat.not_lt_zero m)⟩
  exact hloop.2 (by omega)

/-- An iteration of the inner loop of `put_char` only adds stores. -/
lemma stores_pixelStep (t : ℕ × Screen) :
    t.2.stores ⊆ (pixelStep fb font code y color i j t).2.stores := by
  rw [pixelStep]
  dsimp only
  split_ifs
  · rw [putPixel_eq]
    exact List.subset_append_left _ _
  · exact List.Subset.refl _

/-- An iteration of the outer loop of `put_char` only adds stores. -/
lemma stores_lineStep (t : ℕ × Screen) :
    t.2.stores ⊆ (lineStep fb font code x color i t).2.stores :=
  stores_loop (fun _ u => stores_pixelStep u) font.width (x, t.2)

/-- `put_char` only adds stores. -/
lemma stores_putChar : s.stores ⊆ (putChar fb font x y color code s).stores :=
  stores_loop (fun _ u => stores_lineStep u) font.height (y, s)

/-- A line of the glyph is drawn. -/
lemma draws_lineStep (hx : x + font.width < 2 ^ 32) (hj : j < font.width)
    (hp : glyphPixel font code i j = true) :
    (⟨x + j, y, pixelAddr fb (x + j) y, color⟩ : PixelStore) ∈
      (lineStep fb font code x color i (y, s)).2.stores := by
  refine mem_stores_loop hj (fun _ u => stores_pixelStep u) (fun k u hk hpos => ?_) fun u hpos => ?_
  · rw [pixelStep, hpos, Nat.mod_eq_of_lt (by omega)]
    omega
  · rw [pixelStep, if_pos hp, putPixel_eq, hpos]
    exact List.mem_append_right _ (List.mem_singleton_self _)

/-- **Every pixel of a glyph is drawn.** -/
theorem draws_putChar (fb : Framebuffer) (color : ℕ) (hx : x + font.width < 2 ^ 32)
    (hy : y + font.height < 2 ^ 32) (hi : i < font.height) (hj : j < font.width)
    (hp : glyphPixel font code i j = true) :
    (⟨x + j, y + i, pixelAddr fb (x + j) (y + i), color⟩ : PixelStore) ∈
      (putChar fb font x y color code s).stores := by
  refine mem_stores_loop hi (fun _ u => stores_lineStep u) (fun k u hk hpos => ?_) fun u hpos => ?_
  · rw [lineStep, hpos, Nat.mod_eq_of_lt (by omega)]
    omega
  · rw [← hpos]
    exact draws_lineStep hx hj hp

/-! ## One character -/

/-- A pixel of the framebuffer's columns is mapped if and only if it is in one of its `768` lines.
-/
lemma mapped_iff {p : PixelStore} (hx : p.x < 1024) (hy : p.y < 2 ^ 17)
    (ha : p.addr = pixelAddr defaultFramebuffer p.x p.y) :
    OnFramebuffer defaultFramebuffer p ↔ p.y < 768 := by
  have hpages : Mm.videoPages defaultFramebuffer.pitch defaultFramebuffer.height = 768 := by decide
  rw [OnFramebuffer, hpages, ha, pixelAddr, framebufferAddr,
    show defaultFramebuffer.pitch = 4096 from rfl, Nat.mod_eq_of_lt (by omega)]
  omega

/-- The cell in which a character is drawn. -/
lemma drawn_put (fb : Framebuffer) (color code : ℕ) (hfont : SmallFont font)
    (hr : s.row < 2 ^ 20) (hc : s.column < vgaWidth) :
    Drawn (InCell fb (s.column * 11) (s.row * 20) font.width font.height) s
      (putChar fb font (s.column * widthSpacing % 2 ^ 32)
        (s.row * heightSpacing % 2 ^ 32) color code
        s) := by
  obtain ⟨hheight, hwidth⟩ := hfont
  rw [vgaWidth] at hc
  rw [widthSpacing, heightSpacing, Nat.mod_eq_of_lt (by omega), Nat.mod_eq_of_lt (by omega)]
  exact stored_putChar (by omega) (by omega)

/-- The cursor behind a character that is no newline. -/
lemma cursor_put (fb : Framebuffer) (hfont : SmallFont font) (hr : s.row < 2 ^ 20)
    (hc : s.column < vgaWidth) (hne : c ≠ 0x0A) :
    (terminalPutchar fb font s c).row = rowBehind s.row s.column 1 ∧
      (terminalPutchar fb font s c).column = columnBehind s.column 1 := by
  have hdrawn := drawn_put fb 0xAAAAAA c.toNat hfont hr hc
  rw [terminalPutchar, if_neg hne, advance, hdrawn.row, hdrawn.column, rowBehind,
    columnBehind, wrapRow,
    Nat.mod_eq_of_lt (show s.row + 1 < 2 ^ 32 by omega)]
  have hwidth : vgaWidth = 80 := rfl
  rw [Nat.mod_eq_of_lt (show s.column + 1 < 2 ^ 32 by omega)]
  by_cases hend : s.column + 1 = vgaWidth
  · have hnot : ¬ s.column + 1 < vgaWidth := by omega
    rw [if_pos hend, if_neg hnot, if_neg hnot, hend, Nat.sub_self]
    exact ⟨rfl, rfl⟩
  · have hlt : s.column + 1 < vgaWidth := by omega
    rw [if_neg hend, if_pos hlt, if_pos hlt]
    exact ⟨rfl, rfl⟩

/-- `terminal_putchar` stores what `put_char` does. -/
lemma stores_put (hne : c ≠ 0x0A) :
    (terminalPutchar fb font s c).stores =
      (putChar fb font (s.column * widthSpacing % 2 ^ 32) (s.row * heightSpacing % 2 ^ 32) 0xAAAAAA
        c.toNat s).stores := by
  rw [terminalPutchar, if_neg hne, advance]
  split_ifs <;> rfl

/-- `terminal_putchar` only adds stores. -/
lemma stores_terminalPutchar : s.stores ⊆ (terminalPutchar fb font s c).stores := by
  by_cases hc : c = 0x0A
  · rw [terminalPutchar, if_pos hc]
    exact List.Subset.refl _
  · rw [stores_put hc]
    exact stores_putChar

/-- **A character in the first `38` rows** is drawn on mapped pages. -/
lemma mapped_put (hfont : SmallFont font) (hr : s.row < textRows) (hc : s.column < vgaWidth)
    (hs : ∀ p ∈ s.stores, OnFramebuffer defaultFramebuffer p) (hne : c ≠ 0x0A) :
    ∀ p ∈ (terminalPutchar defaultFramebuffer font s c).stores,
      OnFramebuffer defaultFramebuffer p := by
  intro p hp
  rw [textRows] at hr
  have hdrawn := drawn_put defaultFramebuffer 0xAAAAAA c.toNat hfont
    (show s.row < 2 ^ 20 by omega) hc
  rw [stores_put hne] at hp
  rcases hdrawn.stores p hp with hold | ⟨⟨-, hpx⟩, ⟨-, hpy⟩, haddr⟩
  · exact hs p hold
  · obtain ⟨hheight, hwidth⟩ := hfont
    rw [vgaWidth] at hc
    refine (mapped_iff (by omega) (by omega) haddr).mpr ?_
    omega

/-- **A letter in a later row** is not. -/
lemma unmapped_put (hfont : SmallFont font) (hr : textRows ≤ s.row) (hr' : s.row ≤ 6500)
    (hc : s.column < vgaWidth) (hne : c ≠ 0x0A) (hleg : Legible font c) :
    ∃ p ∈ (terminalPutchar defaultFramebuffer font s c).stores,
      ¬ OnFramebuffer defaultFramebuffer p := by
  obtain ⟨i, j, hlow, hi, hj, hp⟩ := hleg
  obtain ⟨hheight, hwidth⟩ := hfont
  rw [vgaWidth] at hc
  rw [textRows] at hr
  have hmem := draws_putChar (s := s) (x := s.column * 11) (y := s.row * 20) defaultFramebuffer
    0xAAAAAA (by omega) (by omega) hi hj hp
  rw [stores_put hne, widthSpacing, heightSpacing, Nat.mod_eq_of_lt (by omega),
    Nat.mod_eq_of_lt (by omega)]
  refine ⟨_, hmem, fun hmapped => ?_⟩
  have hrow := (mapped_iff (by dsimp only; omega) (by dsimp only; omega) rfl).mp hmapped
  dsimp only at hrow
  omega

/-! ## One line -/

/-- Writing only adds stores. -/
lemma stores_terminalWrite (data : List (BitVec 8)) (s : Screen) :
    s.stores ⊆ (terminalWrite fb font data s).stores := by
  induction data generalizing s with
  | nil => exact List.Subset.refl _
  | cons a data ih => exact List.Subset.trans stores_terminalPutchar (ih _)

/-- The row behind a word is at most the next one. -/
lemma rowBehind_le (r c n : ℕ) : rowBehind r c n ≤ r + 1 := by
  rw [rowBehind, wrapRow]
  split_ifs <;> omega

/-- The column behind a word is a column. -/
lemma columnBehind_lt {c n : ℕ} (hc : c < vgaWidth) (hn : n ≤ vgaWidth) :
    columnBehind c n < vgaWidth := by
  rw [columnBehind]
  split_ifs with h
  · exact h
  · omega

/-- One more character. -/
lemma behind_succ {r c n : ℕ} (hc : c < vgaWidth) (hn : n + 1 ≤ vgaWidth) :
    rowBehind (rowBehind r c n) (columnBehind c n) 1 = rowBehind r c (n + 1) ∧
      columnBehind (columnBehind c n) 1 = columnBehind c (n + 1) := by
  have hpos : 1 < vgaWidth := by decide
  by_cases hend : c + n < vgaWidth
  · have hrow : rowBehind r c n = r := if_pos hend
    have hcol : columnBehind c n = c + n := if_pos hend
    rw [hrow, hcol, rowBehind, columnBehind, rowBehind, columnBehind, Nat.add_assoc]
    exact ⟨rfl, rfl⟩
  · have hrow : rowBehind r c n = wrapRow r := if_neg hend
    have hcol : columnBehind c n = c + n - vgaWidth := if_neg hend
    have hlt : c + n - vgaWidth + 1 < vgaWidth := by omega
    have hnot : ¬ c + (n + 1) < vgaWidth := by omega
    rw [hrow, hcol, rowBehind, columnBehind, rowBehind, columnBehind, if_pos hlt, if_pos hlt,
      if_neg hnot, if_neg hnot]
    exact ⟨rfl, by omega⟩

/-- **The cursor behind a word.** -/
lemma cursor_word (fb : Framebuffer) (hfont : SmallFont font) (hr : s.row ≤ 6500)
    (hc : s.column < vgaWidth) (hw : word.length ≤ vgaWidth) (hnl : 0x0A ∉ word) :
    (terminalWrite fb font word s).row = rowBehind s.row s.column word.length ∧
      (terminalWrite fb font word s).column = columnBehind s.column word.length := by
  induction word using List.reverseRecOn with
  | nil =>
    rw [rowBehind, columnBehind, List.length_nil, Nat.add_zero, if_pos hc, if_pos hc]
    exact ⟨rfl, rfl⟩
  | append_singleton word a ih =>
    rw [List.length_append, List.length_singleton] at hw ⊢
    rw [List.mem_append, List.mem_singleton, not_or] at hnl
    obtain ⟨hrow, hcol⟩ := ih (by omega) hnl.1
    have hle := rowBehind_le s.row s.column word.length
    have hnext := cursor_put (s := terminalWrite fb font word s) fb hfont (by omega)
      (hcol ▸ columnBehind_lt hc (by omega)) (Ne.symm hnl.2)
    obtain ⟨hrow', hcol'⟩ := behind_succ (r := s.row) hc hw
    rw [hrow, hcol, hrow', hcol'] at hnext
    rw [terminalWrite_concat]
    exact hnext

/-- **A word in the first `38` rows** is drawn on mapped pages. -/
lemma mapped_word (hfont : SmallFont font) (hc : s.column < vgaWidth)
    (hfits : LineFits s.row s.column word.length) (hw : word.length ≤ vgaWidth) (hnl : 0x0A ∉ word)
    (hs : ∀ p ∈ s.stores, OnFramebuffer defaultFramebuffer p) :
    ∀ p ∈ (terminalWrite defaultFramebuffer font word s).stores,
      OnFramebuffer defaultFramebuffer p := by
  induction word using List.reverseRecOn with
  | nil => exact hs
  | append_singleton word a ih =>
    rw [List.length_append, List.length_singleton] at hw hfits
    rw [List.mem_append, List.mem_singleton, not_or] at hnl
    obtain ⟨hrow, hwrap⟩ := hfits
    have hrows : s.row ≤ 6500 := by
      rw [textRows] at hrow
      omega
    obtain ⟨hr, hcol⟩ := cursor_word defaultFramebuffer hfont hrows hc (by omega) hnl.1
    rw [terminalWrite_concat]
    refine mapped_put hfont ?_ (hcol ▸ columnBehind_lt hc (by omega)) ?_ (Ne.symm hnl.2)
    · rw [hr, rowBehind]
      split_ifs with hend
      · exact hrow
      · exact hwrap (by omega)
    · exact ih ⟨hrow, fun h => hwrap (by omega)⟩ (by omega) hnl.1

/-- **A word that goes beyond them** is not.

**Proof sketch.** Either its first letter is in a later row, or it goes on to a later row, and then
its last letter is there. -/
lemma unmapped_word (hfont : SmallFont font) (hr : s.row < 6500) (hc : s.column < vgaWidth)
    (hword : Message font word) (hfits : ¬ LineFits s.row s.column word.length) :
    ∃ p ∈ (terminalWrite defaultFramebuffer font word s).stores,
      ¬ OnFramebuffer defaultFramebuffer p := by
  rw [LineFits, not_and_or, not_lt, Classical.not_imp, not_lt] at hfits
  rcases hfits with hrow | ⟨hend, hrow⟩
  · obtain ⟨a, rest, rfl, hleg⟩ := hword.first
    have hne : a ≠ 0x0A := fun he => hword.newline (he ▸ List.mem_cons_self ..)
    obtain ⟨p, hp, hun⟩ := unmapped_put hfont hrow (by omega) hc hne hleg
    exact ⟨p, stores_terminalWrite rest _ hp, hun⟩
  · obtain ⟨rest, a, rfl, hleg⟩ := hword.last
    have hlen := hword.length
    have hnl := hword.newline
    rw [List.length_append, List.length_singleton] at hlen hend
    rw [List.mem_append, List.mem_singleton, not_or] at hnl
    obtain ⟨hr', hcol⟩ :=
      cursor_word defaultFramebuffer hfont (by omega) hc (by omega) hnl.1
    have hwrapped : rowBehind s.row s.column rest.length = wrapRow s.row := if_neg (by omega)
    have hle := rowBehind_le s.row s.column rest.length
    rw [terminalWrite_concat]
    refine unmapped_put hfont ?_ ?_ (hcol ▸ columnBehind_lt hc (by omega)) (Ne.symm hnl.2) hleg
    · rw [hr', hwrapped]
      exact hrow
    · rw [hr']
      omega

/-- A newline stores nothing, so a line is written if and only if it fits, and the cursor is then at
the beginning of the next row. -/
lemma line_written (hfont : SmallFont font) (hr : s.row < 6500) (hc : s.column < vgaWidth)
    (hword : Message font word) (hs : ∀ p ∈ s.stores, OnFramebuffer defaultFramebuffer p) :
    (¬ LineFits s.row s.column word.length →
      terminalWritestring defaultFramebuffer font s (line word) = none) ∧
    (LineFits s.row s.column word.length →
      ∃ s', terminalWritestring defaultFramebuffer font s (line word) = some s' ∧
        s'.row = rowBehind s.row s.column word.length + 1 ∧ s'.column = 0 ∧
        ∀ p ∈ s'.stores, OnFramebuffer defaultFramebuffer p) := by
  have hcursor :=
    cursor_word defaultFramebuffer hfont hr.le hc hword.length.le hword.newline
  have hle := rowBehind_le s.row s.column word.length
  have hline : terminalWrite defaultFramebuffer font (line word) s =
      { terminalWrite defaultFramebuffer font word s with
        row := rowBehind s.row s.column word.length + 1, column := 0 } := by
    rw [line, terminalWrite_concat, terminalPutchar, if_pos rfl, hcursor.1,
      Nat.mod_eq_of_lt (by omega)]
  rw [terminalWritestring, hline]
  constructor
  · intro hfits
    obtain ⟨p, hp, hun⟩ := unmapped_word hfont hr hc hword hfits
    exact if_neg fun hall => hun (hall p hp)
  · intro hfits
    have hall := mapped_word hfont hc hfits hword.length.le hword.newline hs
    exact ⟨_, if_pos hall, rfl, rfl, hall⟩

/-! ## Sequences of lines -/

/-- **Lines are written if and only if they fit.** With a legible font of at most `24` times `16`
pixels, and the cursor in a row that is not so far down that addresses wrap around, the lines are
written without a store to an unmapped page exactly when all their characters come to stand in the
first `38` rows.

**Proof sketch.** Induction on the lines: one that fits leaves the cursor at the beginning of a row
that is at most the second behind it, so addresses do not wrap around there either. -/
theorem lines_written_iff (hfont : SmallFont font) {words : List (List (BitVec 8))}
    (hwords : ∀ w ∈ words, Message font w) (hr : s.row < 6500) (hc : s.column < vgaWidth)
    (hs : ∀ p ∈ s.stores, OnFramebuffer defaultFramebuffer p) :
    (∃ s', (words.map line).foldlM (terminalWritestring defaultFramebuffer font) s = some s') ↔
      Fits s.row s.column (words.map List.length) := by
  induction words generalizing s with
  | nil => exact ⟨fun _ => trivial, fun _ => ⟨s, rfl⟩⟩
  | cons w words ih =>
    have hlines := line_written hfont hr hc (hwords w (List.mem_cons_self ..)) hs
    rw [List.map_cons, List.map_cons, List.foldlM_cons, Fits]
    by_cases hfits : LineFits s.row s.column w.length
    · obtain ⟨s', hsome, hrow, hcol, hs'⟩ := hlines.2 hfits
      have hle := rowBehind_le s.row s.column w.length
      have hfirst := hfits.1
      rw [textRows] at hfirst
      have hrest := ih (s := s') (fun v hv => hwords v (List.mem_cons_of_mem _ hv)) (by omega)
        (by rw [hcol, vgaWidth]; omega) hs'
      rw [hrow, hcol] at hrest
      rw [hsome]
      exact hrest.trans (and_iff_right hfits).symm
    · rw [hlines.1 hfits]
      refine iff_of_false ?_ fun h => hfits h.1
      rintro ⟨s', hs'⟩
      exact absurd hs' (by simp)

/-- Lines that fit are written, wherever the cursor is: it is in one of the first `38` rows when
there is a line. -/
lemma lines_written (hfont : SmallFont font) {words : List (List (BitVec 8))}
    (hwords : ∀ w ∈ words, Message font w) (hc : s.column < vgaWidth)
    (hs : ∀ p ∈ s.stores, OnFramebuffer defaultFramebuffer p)
    (hfits : Fits s.row s.column (words.map List.length)) :
    ∃ s', (words.map line).foldlM (terminalWritestring defaultFramebuffer font) s = some s' := by
  cases words with
  | nil => exact ⟨s, rfl⟩
  | cons w words =>
    have hrow : s.row < textRows := hfits.1.1
    rw [textRows] at hrow
    exact (lines_written_iff hfont hwords (by omega) hc hs).mpr hfits

/-- Lines that begin with a row fit if and only if there are rows for them. -/
lemma fits_fresh {ns : List ℕ} (hns : ∀ n ∈ ns, n < vgaWidth) (r : ℕ) :
    Fits r 0 ns ↔ ns = [] ∨ r + ns.length ≤ textRows := by
  induction ns generalizing r with
  | nil => exact ⟨fun _ => .inl rfl, fun _ => trivial⟩
  | cons n ns ih =>
    have hn := hns n (List.mem_cons_self ..)
    have hrow : rowBehind r 0 n = r := if_pos (by omega)
    rw [Fits, LineFits, hrow, ih (fun m hm => hns m (List.mem_cons_of_mem _ hm)), List.length_cons]
    constructor
    · rintro ⟨⟨hr, -⟩, rfl | hrest⟩
      · exact .inr (by rw [List.length_nil]; omega)
      · exact .inr (by omega)
    · rintro (hnil | hlen)
      · exact absurd hnil (List.cons_ne_nil _ _)
      · exact ⟨⟨by omega, fun h => by omega⟩, .inr (by omega)⟩

-- the lists of lines are long, and are not to be evaluated when two conditions are compared
attribute [irreducible] Fits

/-! ## The font of the kernel -/

/-- Glyphs of `initrd/fonts/zap-ext-light24.psf`, each with its `24` lines of two bytes: those of
the letters of the messages `table free` and `page table free`. -/
def zapGlyph : ℕ → List (BitVec 16)
  | 0x61 => [0, 0, 0, 0, 0, 0, 0, 0, 0, 0x3F00, 0x6180, 0x0180, 0x0180, 0x3F80, 0x6180, 0x6180,
      0x6380, 0x3E80, 0, 0, 0, 0, 0, 0]
  | 0x62 => [0, 0, 0, 0, 0x6000, 0x6000, 0x6000, 0x6000, 0x6000, 0x6E00, 0x7300, 0x6180, 0x6180,
      0x6180, 0x6180, 0x6180, 0x7300, 0x6E00, 0, 0, 0, 0, 0, 0]
  | 0x65 => [0, 0, 0, 0, 0, 0, 0, 0, 0, 0x1E00, 0x3300, 0x6180, 0x6180, 0x7F80, 0x6000, 0x6000,
      0x3180, 0x1F00, 0, 0, 0, 0, 0, 0]
  | 0x66 => [0, 0, 0, 0, 0x0F00, 0x1980, 0x1800, 0x1800, 0x1800, 0x1800, 0x7E00, 0x1800, 0x1800,
      0x1800, 0x1800, 0x1800, 0x1800, 0x1800, 0, 0, 0, 0, 0, 0]
  | 0x67 => [0, 0, 0, 0, 0, 0, 0, 0, 0, 0x1D80, 0x3380, 0x6180, 0x6180, 0x6180, 0x6180, 0x6180,
      0x3380, 0x1D80, 0x0180, 0x0180, 0x0180, 0x6300, 0x3E00, 0]
  | 0x6C => [0, 0, 0, 0, 0x3C00, 0x0C00, 0x0C00, 0x0C00, 0x0C00, 0x0C00, 0x0C00, 0x0C00, 0x0C00,
      0x0C00, 0x0C00, 0x0C00, 0x0C00, 0x7F80, 0, 0, 0, 0, 0, 0]
  | 0x70 => [0, 0, 0, 0, 0, 0, 0, 0, 0, 0x6E00, 0x7300, 0x6180, 0x6180, 0x6180, 0x6180, 0x6180,
      0x7300, 0x6E00, 0x6000, 0x6000, 0x6000, 0x6000, 0x6000, 0]
  | 0x72 => [0, 0, 0, 0, 0, 0, 0, 0, 0, 0x6F00, 0x3980, 0x3000, 0x3000, 0x3000, 0x3000, 0x3000,
      0x3000, 0x3000, 0, 0, 0, 0, 0, 0]
  | 0x74 => [0, 0, 0, 0, 0, 0x1800, 0x1800, 0x1800, 0x1800, 0x1800, 0x7E00, 0x1800, 0x1800,
      0x1800, 0x1800, 0x1800, 0x1980, 0x0F00, 0, 0, 0, 0, 0, 0]
  | _ => []

/-- The font `zap-ext-light24.psf`, as far as `zapGlyph` has it. -/
def zapLight : Font where
  headersize := 32
  charsize := 48
  height := 24
  width := 10
  bytes := fun k =>
    let line := (zapGlyph ((k - 32) / 48)).getD ((k - 32) % 48 / 2) 0
    if k % 2 = 0 then (line >>> 8).setWidth 8 else line.setWidth 8

/-- The glyphs have `24` lines of `10` pixels. -/
lemma smallFont_zapLight : SmallFont zapLight := ⟨by decide, by decide⟩

end Screen

end AlphaOS
