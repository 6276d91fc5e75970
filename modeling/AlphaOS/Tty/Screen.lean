import Mathlib.Data.List.Infix
import AlphaOS.Lib.Loop
import Mathlib.Algebra.Group.Nat.Defs

set_option relaxedAutoImplicit false
set_option autoImplicit false

/-!
# Characters on the framebuffer

`terminal_write` of `tty.c` puts characters into the cells of a text screen of `VGA_HEIGHT` rows and
`VGA_WIDTH` columns, and `put_char` of `font.c` draws the glyph of each cell pixel by pixel with
`put_pixel` of `framebuffer.c`. A character at the end of the last row sends the cursor back to the
first row; a newline in the last row does not.

## Main definitions

* `AlphaOS.Framebuffer`, `AlphaOS.Font` — the variables of `framebuffer.c`, and the font.
* `AlphaOS.Screen` — the cursor, and the stores to the framebuffer.
* `AlphaOS.Screen.putPixel`, `putChar`, `terminalPutchar`, `terminalWrite` — the functions of the
  source.
* `AlphaOS.Screen.Within` — the cursor is on the screen, and every store is in the framebuffer.

## Main results

* `AlphaOS.Screen.stored_putChar` — the pixels of a character lie in its cell.
* `AlphaOS.Screen.within_iff` — everything stays within its bounds if and only if no newline is
  written in the last row.
* `AlphaOS.Screen.newlines_leave_screen` — newlines that lead out of the screen and a character
  behind them that is drawn out of the framebuffer.

## Design

`x` and `y` of the pixels are `uint32_t` and cannot be negative: the tests of `put_pixel` are kept
as they are, and are never met. The counters of `put_char` are `uint8_t`, which the sizes of the
fonts considered fit.
-/

namespace AlphaOS

/-- The variables of `framebuffer.c`. -/
structure Framebuffer where
  width : ℕ
  height : ℕ
  pitch : ℕ

/-- What `put_char` reads of the font: fields of `struct psf2`, and the bytes of the file. -/
structure Font where
  headersize : ℕ
  charsize : ℕ
  height : ℕ
  width : ℕ
  bytes : ℕ → BitVec 8

/-- A store of `put_pixel`. -/
structure PixelStore where
  x : ℕ
  y : ℕ
  addr : ℕ
  color : ℕ
deriving DecidableEq, Repr

/-- The cursor, and the stores made so far. -/
structure Screen where
  row : ℕ
  column : ℕ
  stores : List PixelStore
deriving DecidableEq, Repr

namespace Screen

/-- `VGA_WIDTH`. -/
def vgaWidth : ℕ := 80

/-- `VGA_HEIGHT`. -/
def vgaHeight : ℕ := 25

/-- `DEFAULT_WIDTH_SPACING`. -/
def widthSpacing : ℕ := 11

/-- `DEFAULT_HEIGHT_SPACING`. -/
def heightSpacing : ℕ := 20

/-- `FRAMEBUFFER_ADDR`. -/
def framebufferAddr : ℕ := 0xE0000000

/-- `put_pixel`. -/
def putPixel (fb : Framebuffer) (x y color : ℕ) (s : Screen) : Screen :=
  if x ≥ fb.width ∧ x < 0 then s
  else if y ≥ fb.height ∧ y < 0 then s
  else { s with
    stores := s.stores ++ [⟨x, y, (framebufferAddr + y * fb.pitch + 4 * x) % 2 ^ 32, color⟩] }

/-- `pixel` of `put_char`. -/
def glyphPixel (font : Font) (code i j : ℕ) : Bool :=
  let glyph := font.headersize + code * font.charsize
  let byteIndex := i * ((font.width + 7) / 8) + j / 8
  (font.bytes (glyph + byteIndex) >>> (7 - j % 8)) &&& 1 != 0

/-- The body of the inner loop of `put_char`, with `x` and the screen. -/
def pixelStep (fb : Framebuffer) (font : Font) (code y color i j : ℕ) (s : ℕ × Screen) :
    ℕ × Screen :=
  ((s.1 + 1) % 2 ^ 32, if glyphPixel font code i j then putPixel fb s.1 y color s.2 else s.2)

/-- The body of the outer loop of `put_char`, with `y` and the screen. -/
def lineStep (fb : Framebuffer) (font : Font) (code x color i : ℕ) (s : ℕ × Screen) : ℕ × Screen :=
  ((s.1 + 1) % 2 ^ 32, (Loop.forEach (pixelStep fb font code s.1 color i) 0 font.width (x, s.2)).2)

/-- `put_char`. -/
def putChar (fb : Framebuffer) (font : Font) (x y color code : ℕ) (s : Screen) : Screen :=
  (Loop.forEach (lineStep fb font code x color) 0 font.height (y, s)).2

/-- The end of `terminal_putchar`: the cursor goes on. -/
def advance (s : Screen) : Screen :=
  if (s.column + 1) % 2 ^ 32 = vgaWidth then
    { s with
      column := 0, row := if (s.row + 1) % 2 ^ 32 = vgaHeight then 0 else (s.row + 1) % 2 ^ 32 }
  else { s with column := (s.column + 1) % 2 ^ 32 }

/-- `terminal_putchar`. -/
def terminalPutchar (fb : Framebuffer) (font : Font) (s : Screen) (c : BitVec 8) : Screen :=
  if c = 0x0A then { s with row := (s.row + 1) % 2 ^ 32, column := 0 }
  else (putChar fb font (s.column * widthSpacing % 2 ^ 32) (s.row * heightSpacing % 2 ^ 32) 0xAAAAAA
    c.toNat s).advance

/-- `terminal_write`. -/
def terminalWrite (fb : Framebuffer) (font : Font) (data : List (BitVec 8)) (s : Screen) : Screen :=
  data.foldl (terminalPutchar fb font) s

/-- The cursor after `terminal_initialize`. -/
def start : Screen := ⟨0, 0, []⟩

/-- The cursor is on the screen, and every store is in the framebuffer. -/
def Within (fb : Framebuffer) (s : Screen) : Prop :=
  s.row < vgaHeight ∧ s.column < vgaWidth ∧ ∀ p ∈ s.stores, p.x < fb.width ∧ p.y < fb.height

variable {fb : Framebuffer} {font : Font} {s s' : Screen} {x y code color : ℕ}

/-! ## Pixels -/

/-- The tests of `put_pixel` are never met. -/
lemma putPixel_eq : putPixel fb x y color s = { s with
    stores := s.stores ++ [⟨x, y, (framebufferAddr + y * fb.pitch + 4 * x) % 2 ^ 32, color⟩] } := by
  rw [putPixel, if_neg (by simp), if_neg (by simp)]

/-- Between two screens the cursor has not moved, and the new stores have the property `P`. -/
structure Drawn (P : PixelStore → Prop) (s s' : Screen) : Prop where
  row : s'.row = s.row
  column : s'.column = s.column
  stores : ∀ p ∈ s'.stores, p ∈ s.stores ∨ P p

/-- Nothing is drawn. -/
lemma Drawn.refl {P : PixelStore → Prop} (s : Screen) : Drawn P s s :=
  ⟨rfl, rfl, fun _ hp => .inl hp⟩

/-- The address of a pixel. -/
def pixelAddr (fb : Framebuffer) (x y : ℕ) : ℕ := (framebufferAddr + y * fb.pitch + 4 * x) % 2 ^ 32

/-- One pixel is drawn. -/
lemma Drawn.pixel {P : PixelStore → Prop} (h : Drawn P s s')
    (hP : P ⟨x, y, pixelAddr fb x y, color⟩) : Drawn P s (putPixel fb x y color s') := by
  rw [putPixel_eq]
  refine ⟨h.row, h.column, fun p hp => ?_⟩
  rcases List.mem_append.mp hp with hp | hp
  · exact h.stores p hp
  · rw [List.mem_singleton.mp hp]
    exact .inr hP

/-- The pixel is in the cell of `w` times `n` pixels at `x` and `y`, and the store is to its
address. -/
def InCell (fb : Framebuffer) (x y w n : ℕ) (p : PixelStore) : Prop :=
  (x ≤ p.x ∧ p.x < x + w) ∧ (y ≤ p.y ∧ p.y < y + n) ∧ p.addr = pixelAddr fb p.x p.y

/-- What a loop of `put_char` has done before its counter is `k`: the coordinate `c₀` it started
from has gone on by `k`, and only pixels of the cell are drawn. -/
def Progress (P : PixelStore → Prop) (s : Screen) (c₀ k : ℕ) (t : ℕ × Screen) : Prop :=
  t.1 = c₀ + k ∧ Drawn P s t.2

/-- The next pixel of a line. -/
lemma Progress.pixel (fb : Framebuffer) (code color i : ℕ) {y₀ j : ℕ} {t : ℕ × Screen}
    (hx : x + font.width < 2 ^ 32) (hlo : y₀ ≤ y) (hhi : y < y₀ + font.height)
    (hj : j < font.width) (h : Progress (InCell fb x y₀ font.width font.height) s x j t) :
    Progress (InCell fb x y₀ font.width font.height) s x (j + 1)
      (pixelStep fb font code y color i j t) := by
  obtain ⟨hpos, hdrawn⟩ := h
  constructor
  · rw [pixelStep, hpos, Nat.mod_eq_of_lt (by omega)]
    omega
  · rw [pixelStep]
    dsimp only
    split_ifs
    · apply hdrawn.pixel
      refine ⟨?_, ?_, rfl⟩
      · dsimp only
        omega
      · dsimp only
        omega
    · exact hdrawn

/-- The next line of a glyph. -/
lemma Progress.line (fb : Framebuffer) (code color : ℕ) {i : ℕ} {t : ℕ × Screen}
    (hx : x + font.width < 2 ^ 32) (hy : y + font.height < 2 ^ 32) (hi : i < font.height)
    (h : Progress (InCell fb x y font.width font.height) s y i t) :
    Progress (InCell fb x y font.width font.height) s y (i + 1)
      (lineStep fb font code x color i t) := by
  obtain ⟨hpos, hdrawn⟩ := h
  constructor
  · rw [lineStep, hpos, Nat.mod_eq_of_lt (by omega)]
    omega
  · have hstart : Progress (InCell fb x y font.width font.height) s x 0 (x, t.2) := ⟨rfl, hdrawn⟩
    have hloop := Loop.forEach_rule (n := font.width)
      (fun j u _ hj hu => hu.pixel fb code color i hx (show y ≤ t.1 by omega) (by omega) (by omega))
        hstart
    exact hloop.2

/-- **The pixels of a character lie in its cell.** -/
theorem stored_putChar (hx : x + font.width < 2 ^ 32) (hy : y + font.height < 2 ^ 32) :
    Drawn (InCell fb x y font.width font.height) s (putChar fb font x y color code s) := by
  have hstart : Progress (InCell fb x y font.width font.height) s y 0 (y, s) := ⟨rfl, Drawn.refl s⟩
  have hloop := Loop.forEach_rule (n := font.height)
    (fun i t _ hi ht => ht.line fb code color hx hy (by omega)) hstart
  exact hloop.2

/-! ## The cursor -/

/-- A font of glyphs of at most `24` rows and `16` columns. -/
def SmallFont (font : Font) : Prop := font.height ≤ 24 ∧ font.width ≤ 16

/-- The cell of the cursor is in the framebuffer. -/
lemma Within.putChar (h : Within fb s) (hfont : SmallFont font) (hw : fb.width = 1024)
    (hh : fb.height = 768) (color code : ℕ) :
    Within fb (putChar fb font (s.column * widthSpacing % 2 ^ 32)
      (s.row * heightSpacing % 2 ^ 32) color code s) := by
  obtain ⟨hrow, hcol, hstores⟩ := h
  obtain ⟨hheight, hwidth⟩ := hfont
  rw [vgaHeight] at hrow
  rw [vgaWidth] at hcol
  have hx : s.column * widthSpacing % 2 ^ 32 = s.column * 11 :=
    Nat.mod_eq_of_lt (by rw [widthSpacing]; omega)
  have hy : s.row * heightSpacing % 2 ^ 32 = s.row * 20 :=
    Nat.mod_eq_of_lt (by rw [heightSpacing]; omega)
  rw [hx, hy]
  have hdrawn : Drawn (InCell fb (s.column * 11) (s.row * 20) font.width font.height) s
      (Screen.putChar fb font (s.column * 11) (s.row * 20) color code s) :=
    stored_putChar (by omega) (by omega)
  refine ⟨?_, ?_, fun p hp => ?_⟩
  · rw [hdrawn.row, vgaHeight]
    exact hrow
  · rw [hdrawn.column, vgaWidth]
    exact hcol
  · rcases hdrawn.stores p hp with hold | ⟨⟨-, hpx⟩, ⟨-, hpy⟩, -⟩
    · exact hstores p hold
    · rw [hw, hh]
      omega

/-- The cursor goes on within the screen. -/
lemma Within.advance (h : Within fb s) : Within fb s.advance := by
  obtain ⟨hrow, hcol, hstores⟩ := h
  simp only [vgaHeight, vgaWidth] at hrow hcol
  rw [Screen.advance]
  split_ifs with hend hlast
  · exact ⟨by simp [vgaHeight], by simp [vgaWidth], hstores⟩
  · refine ⟨?_, by simp [vgaWidth], hstores⟩
    simp only [vgaHeight] at hlast ⊢
    omega
  · refine ⟨hrow, ?_, hstores⟩
    simp only [vgaWidth] at hend ⊢
    omega

/-- A character that is no newline. -/
lemma Within.put (h : Within fb s) (hfont : SmallFont font) (hw : fb.width = 1024)
    (hh : fb.height = 768) {c : BitVec 8} (hc : c ≠ 0x0A) :
    Within fb (terminalPutchar fb font s c) := by
  rw [terminalPutchar, if_neg hc]
  exact (h.putChar hfont hw hh _ _).advance

/-- A newline stays on the screen if and only if the cursor is not in the last row. -/
lemma Within.newline_iff (h : Within fb s) :
    Within fb (terminalPutchar fb font s 0x0A) ↔ s.row ≠ vgaHeight - 1 := by
  obtain ⟨hrow, -, hstores⟩ := h
  rw [terminalPutchar, if_pos rfl]
  simp only [Within, vgaHeight, vgaWidth] at hrow ⊢
  constructor
  · rintro ⟨hnext, -⟩
    omega
  · intro hne
    exact ⟨by omega, by omega, hstores⟩

/-! ## Sequences of characters -/

/-- One more character. -/
lemma terminalWrite_concat (data : List (BitVec 8)) (c : BitVec 8) :
    terminalWrite fb font (data ++ [c]) s = terminalPutchar fb font
      (terminalWrite fb font data s) c := by
  rw [terminalWrite, List.foldl_append]
  rfl

/-- Before the first character. -/
lemma within_start : Within fb start :=
  ⟨by simp [start, vgaHeight], by simp [start, vgaWidth], fun p hp => absurd hp List.not_mem_nil⟩

/-- **The screen stays within its bounds if and only if no newline is written in the last row.** For
every sequence of characters, with a framebuffer of `1024` times `768` pixels and a font of glyphs
of at most `24` rows and `16` columns: after each of the characters the cursor is on the screen and
every store of a pixel is in the framebuffer exactly when no newline comes while `terminal_row` is
`VGA_HEIGHT - 1`. -/
theorem within_iff (hfont : SmallFont font) (hw : fb.width = 1024) (hh : fb.height = 768)
    (data : List (BitVec 8)) :
    (∀ pre, pre <+: data → Within fb (terminalWrite fb font pre start)) ↔
      ∀ pre, pre ++ [0x0A] <+: data → (terminalWrite fb font pre start).row ≠ vgaHeight - 1 := by
  constructor
  · intro h pre hpre
    have hnow := h pre ((List.prefix_append pre _).trans hpre)
    have hnext := h _ hpre
    rw [terminalWrite_concat] at hnext
    exact hnow.newline_iff.mp hnext
  · intro h pre
    induction pre using List.reverseRecOn with
    | nil => exact fun _ => within_start
    | append_singleton pre c ih =>
      intro hpre
      have hnow := ih ((List.prefix_append pre _).trans hpre)
      rw [terminalWrite_concat]
      by_cases hc : c = 0x0A
      · subst hc
        exact hnow.newline_iff.mpr (h pre hpre)
      · exact hnow.put hfont hw hh hc

/-- A framebuffer of `1024` times `768` pixels. -/
def defaultFramebuffer : Framebuffer := ⟨1024, 768, 4096⟩

/-- A font of one black pixel. -/
def dotFont : Font := ⟨32, 1, 1, 1, fun _ => 0xFF⟩

/-- Two characters on a line: both are drawn in the framebuffer. -/
theorem within_iff_two :
    Within defaultFramebuffer (terminalWrite defaultFramebuffer dotFont [0x41, 0x42] start) := by
  refine (within_iff ⟨by decide, by decide⟩ rfl rfl [0x41, 0x42]).mpr (fun pre hpre => ?_) _
    List.prefix_rfl
  have hmem : (0x0A : BitVec 8) ∈ [0x41, 0x42] := hpre.subset (by simp)
  exact absurd hmem (by decide)

/-- **Newlines lead out of the screen.** After `25` newlines the cursor is below the last row, and a
character after `39` newlines is drawn below the framebuffer. -/
theorem newlines_leave_screen :
    (terminalWrite defaultFramebuffer dotFont (List.replicate 25 0x0A) start).row = vgaHeight ∧
      (terminalWrite defaultFramebuffer dotFont (List.replicate 39 0x0A ++ [0x41]) start).stores =
        [⟨0, 780, 0xE030C000, 0xAAAAAA⟩] ∧
      ¬∀ data, Within defaultFramebuffer (terminalWrite defaultFramebuffer dotFont data start) := by
  have hrow : (terminalWrite defaultFramebuffer dotFont (List.replicate 25 0x0A) start).row =
      vgaHeight := by
    decide
  refine ⟨hrow, by decide +kernel, fun hall => ?_⟩
  have hlt := (hall (List.replicate 25 0x0A)).1
  rw [hrow] at hlt
  exact lt_irrefl _ hlt

end Screen

end AlphaOS
