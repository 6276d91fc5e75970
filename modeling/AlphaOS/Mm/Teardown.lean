import AlphaOS.Mm.Lifetime
import AlphaOS.Tty.Printing

set_option relaxedAutoImplicit false
set_option autoImplicit false

/-!
# The messages of `unmmap_ring3`

`unmmap_ring3` writes a line to the terminal for every page and every page table before it frees it.
A newline moves the cursor down without end, and only `38` rows of letters are on the mapped part of
the framebuffer, so the loops come to their end only for an address space that is small enough for
the cursor it finds: for a larger one the kernel faults on its way, and the other frames are never
given back.

## Main definitions

* `AlphaOS.Teardown.unmmapRing3` — the function of the source, with the terminal.
* `AlphaOS.Sys.words` — the pages and page tables of a task, as the lines that are written for them.

## Main results

* `AlphaOS.Teardown.unmmapRing3_eq` — the function is its loops without the messages, and the
  messages.
* `AlphaOS.Sys.Inv.lines_eq` — there is one message for each page and each page table.
* `AlphaOS.Sys.address_space_returned_iff` — nothing is left of a task if and only if its lines fit.
* `AlphaOS.Sys.frames_kept` — a task whose frames are not given back.

## Design

`AlphaOS.Mm.unmmapRing3` has the same loops without the messages. The texts depend on the memory
only, so `Loop.attempt_write` separates the two.
-/

namespace AlphaOS

open Screen

/-! ## The function with the terminal -/

namespace Teardown

/-- The word of the line for a page, `"table free\n"`. -/
def tableFree : List (BitVec 8) := [0x74, 0x61, 0x62, 0x6C, 0x65, 0x20, 0x66, 0x72, 0x65, 0x65]

/-- The word of the line for a page table, `"page table free\n"`. -/
def pageTableFree : List (BitVec 8) := [0x70, 0x61, 0x67, 0x65, 0x20] ++ tableFree

section Source

variable (fb : Framebuffer) (font : Font)

/-- The part of an iteration of `unmmap_ring3` that frees a page. -/
def freeUserPage (table j : ℕ) (x : Mm × Screen) : Option (Mm × Screen) :=
  if table &&& 0x001 ≠ 0 ∧ x.1.readEntry table j ≠ 0 then
    (terminalWritestring fb font x.2 (line tableFree)).map fun screen =>
      ((x.1.writeEntry table j 0).pmmFree (x.1.readEntry table j &&& pageMask) 1, screen)
  else some (x.1.unmapTmpPage, x.2)

/-- The part of an iteration of `unmmap_ring3` that frees the page table after its last entry. -/
def freeUserTable (pd i j table : ℕ) (x : Mm × Screen) : Option (Mm × Screen) :=
  if 1024 ≤ j + 1 ∧ x.1.readEntry pd i &&& 0x001 ≠ 0 then
    (terminalWritestring fb font x.2 (line pageTableFree)).map fun screen =>
      ((x.1.writeEntry pd i 0).pmmFree (table &&& pageMask) 1, screen)
  else some (x.1.unmapTmpPage, x.2)

/-- An iteration of the inner loop of `unmmap_ring3`. -/
def unmmapRing3Page (pd i j : ℕ) (x : Mm × Screen) : Option (Mm × Screen) :=
  (freeUserPage fb font (x.1.readEntry pd i) j x).bind
    (freeUserTable fb font pd i j (x.1.readEntry pd i))

/-- The inner loop of `unmmap_ring3`, which starts at the second entry of the first table. -/
def unmmapRing3Table (pd i : ℕ) (x : Mm × Screen) : Option (Mm × Screen) :=
  if i = 0 then Loop.attempt (unmmapRing3Page fb font pd i) 1 1023 x
  else Loop.attempt (unmmapRing3Page fb font pd i) 0 1024 x

/-- `unmmap_ring3`. It has no result when a pixel of a message is not mapped. -/
def unmmapRing3 (mm : Mm) (pd : ℕ) (screen : Screen) : Option (Mm × Screen) :=
  (Loop.attempt (unmmapRing3Table fb font pd) 0 768 (mm, screen)).map fun x =>
    (x.1.pmmFree (pd &&& pageMask) 1, x.2)

end Source

/-! ## The messages apart -/

variable {fb : Framebuffer} {font : Font} {mm : Mm} {screen : Screen} {pd i j table : ℕ}

/-- What `freeUserPage` writes. -/
def linesOfPage (mm : Mm) (table j : ℕ) : List (List (BitVec 8)) :=
  if table &&& 0x001 ≠ 0 ∧ mm.readEntry table j ≠ 0 then [line tableFree] else []

/-- What `freeUserTable` writes. -/
def linesOfTable (mm : Mm) (pd i j : ℕ) : List (List (BitVec 8)) :=
  if 1024 ≤ j + 1 ∧ mm.readEntry pd i &&& 0x001 ≠ 0 then [line pageTableFree] else []

/-- What an iteration of the inner loop writes. -/
def linesOfEntry (pd i j : ℕ) (mm : Mm) : List (List (BitVec 8)) :=
  linesOfPage mm (mm.readEntry pd i) j ++
    linesOfTable (mm.freeUserPage (mm.readEntry pd i) j) pd i j

/-- What the inner loop writes. -/
def linesOfLoop (pd i : ℕ) (mm : Mm) : List (List (BitVec 8)) :=
  if i = 0 then Loop.written (Mm.unmmapRing3Page pd i) (linesOfEntry pd i) 1 1023 mm
  else Loop.written (Mm.unmmapRing3Page pd i) (linesOfEntry pd i) 0 1024 mm

/-- What `unmmap_ring3` writes. -/
def lines (mm : Mm) (pd : ℕ) : List (List (BitVec 8)) :=
  Loop.written (Mm.unmmapRing3Table pd) (linesOfLoop pd) 0 768 mm

/-- A page is freed after its message. -/
lemma freeUserPage_eq : freeUserPage fb font table j (mm, screen) =
    ((linesOfPage mm table j).foldlM (terminalWritestring fb font) screen).map
      (Prod.mk (mm.freeUserPage table j)) := by
  rw [freeUserPage, linesOfPage, Mm.freeUserPage]
  split_ifs
  · rw [List.foldlM_cons]
    cases terminalWritestring fb font screen (line tableFree) <;> rfl
  · rfl

/-- A page table is freed after its message. -/
lemma freeUserTable_eq : freeUserTable fb font pd i j table (mm, screen) =
    ((linesOfTable mm pd i j).foldlM (terminalWritestring fb font) screen).map
      (Prod.mk (mm.freeUserTable pd i j table)) := by
  rw [freeUserTable, linesOfTable, Mm.freeUserTable]
  split_ifs
  · rw [List.foldlM_cons]
    cases terminalWritestring fb font screen (line pageTableFree) <;> rfl
  · rfl

/-- The messages of an iteration. -/
lemma unmmapRing3Page_eq (j : ℕ) (mm : Mm) (screen : Screen) :
    unmmapRing3Page fb font pd i j (mm, screen) =
      ((linesOfEntry pd i j mm).foldlM (terminalWritestring fb font) screen).map
        (Prod.mk (mm.unmmapRing3Page pd i j)) := by
  rw [unmmapRing3Page, freeUserPage_eq, linesOfEntry, List.foldlM_append]
  cases (linesOfPage mm (mm.readEntry pd i) j).foldlM (terminalWritestring fb font) screen with
  | none => rfl
  | some screen' => exact freeUserTable_eq

/-- The messages of the inner loop. -/
lemma unmmapRing3Table_eq (i : ℕ) (mm : Mm) (screen : Screen) :
    unmmapRing3Table fb font pd i (mm, screen) =
      ((linesOfLoop pd i mm).foldlM (terminalWritestring fb font) screen).map
        (Prod.mk (mm.unmmapRing3Table pd i)) := by
  rw [unmmapRing3Table, linesOfLoop, Mm.unmmapRing3Table]
  split_ifs
  · exact Loop.attempt_write unmmapRing3Page_eq 1 1023 mm screen
  · exact Loop.attempt_write unmmapRing3Page_eq 0 1024 mm screen

/-- **The function is its loops without the messages, and the messages.** -/
theorem unmmapRing3_eq : unmmapRing3 fb font mm pd screen =
    ((lines mm pd).foldlM (terminalWritestring fb font) screen).map
      (Prod.mk (mm.unmmapRing3 pd)) := by
  rw [unmmapRing3, Loop.attempt_write unmmapRing3Table_eq, Mm.unmmapRing3, lines, Option.map_map]
  generalize Loop.forEach (Mm.unmmapRing3Table pd) 0 768 mm = m
  rfl

/-- The letters at the ends of the messages. -/
def letters : List (BitVec 8) := [0x74, 0x70, 0x65]

/-- The messages are words, when the letters at their ends are legible. -/
lemma words_legible (h : ∀ c ∈ letters, Legible font c) :
    Message font tableFree ∧ Message font pageTableFree := by
  refine ⟨⟨by decide, by decide, ⟨0x74, tableFree.tail, rfl, h _ (by decide)⟩,
    ⟨tableFree.dropLast, 0x65, rfl, h _ (by decide)⟩⟩, by decide, by decide,
    ⟨0x70, pageTableFree.tail, rfl, h _ (by decide)⟩,
    ⟨pageTableFree.dropLast, 0x65, rfl, h _ (by decide)⟩⟩

end Teardown

namespace Sys

open Teardown

variable {s s' s₀ : Sys} {d i j : ℕ} {font : Font} {screen : Screen}

/-! ## One message for each page and table -/

/-- The message for a page of a task, if the page is mapped. -/
def pageWord (s : Sys) (d i j : ℕ) : List (List (BitVec 8)) :=
  if s.own (.page (.task d) i j) = none then [] else [tableFree]

/-- The message for a page table of a task, if there is one. -/
def tableWord (s : Sys) (d i : ℕ) : List (List (BitVec 8)) :=
  if s.own (.table (.task d) i) = none then [] else [pageTableFree]

/-- The messages for the pages of a table, and for the table. -/
def tableWords (s : Sys) (d i : ℕ) : List (List (BitVec 8)) :=
  (List.range 1024).flatMap (s.pageWord d i) ++ s.tableWord d i

/-- The messages for the pages and page tables of a task. -/
def words (s : Sys) (d : ℕ) : List (List (BitVec 8)) := (List.range 768).flatMap (s.tableWords d)

/-- What `unmmap_ring3` knows at entry `j` of table `i` beside `Dying`: the pages and tables that it
has not come to are those of the task that was given to it. -/
structure Pending (s₀ : Sys) (d i j : ℕ) (s : Sys) : Prop where
  dying : Dying s₀ d i j s
  pages : ∀ {i' j'}, i < i' ∨ i' = i ∧ j ≤ j' →
    s.own (.page (.task d) i' j') = s₀.own (.page (.task d) i' j')
  tables : ∀ {i'}, i < i' ∨ i' = i ∧ j < 1024 →
    s.own (.table (.task d) i') = s₀.own (.table (.task d) i')

/-- What iteration `j` of the inner loop writes of the words of table `i`. -/
def entryLines (s : Sys) (d i j : ℕ) : List (List (BitVec 8)) :=
  (s.pageWord d i j).map line ++ if 1024 ≤ j + 1 then (s.tableWord d i).map line else []

/-- **An iteration** writes the messages for its page, and for the table after the last page. -/
lemma Pending.page (h : Pending s₀ d i j s) (hd : d ∈ s₀.dirs) (hi : i < 768) (hj : j < 1024) :
    Pending s₀ d i (j + 1) (s.withMm (Mm.unmmapRing3Page d i j s.mm)) ∧
      linesOfEntry d i j s.mm = s₀.entryLines d i j := by
  have hd' : d ∈ s.dirs := h.dying.confined.dirs ▸ hd
  have hdying := h.dying.page hd' hi hj
  rw [linesOfEntry, entryLines, Mm.unmmapRing3Page, h.dying.inv.readEntry_dir hd' hi]
  rw [Mm.unmmapRing3Page, h.dying.inv.readEntry_dir hd' hi] at hdying
  obtain ⟨hpage, -, hentry, htab⟩ := h.dying.parts hd' hi hj rfl
  have hlines : linesOfPage s.mm (s.tableEntry (.task d) i) j = (s₀.pageWord d i j).map line := by
    have hmet := h.dying.inv.pageMet_iff (d := d) (i := i) hj
    rw [h.pages (.inr ⟨rfl, Nat.le_refl j⟩)] at hmet
    rw [linesOfPage, pageWord]
    by_cases hown : s₀.own (.page (.task d) i j) = none
    · rw [if_pos hown, if_neg fun hc => hmet.mp hc hown]
      rfl
    · rw [if_neg hown, if_pos (hmet.mpr hown)]
      rfl
  generalize s.mm.freeUserPage (s.tableEntry (.task d) i) j = m at hpage hentry htab hdying ⊢
  have hpages {i' j' : ℕ} (hlater : i < i' ∨ i' = i ∧ j + 1 ≤ j') :
      (s.withMm m).own (.page (.task d) i' j') = s₀.own (.page (.task d) i' j') := by
    rw [hpage.own, Function.update_of_ne (by simp; omega)]
    exact h.pages (by omega)
  have htables {i' : ℕ} (hlater : i ≤ i') :
      (s.withMm m).own (.table (.task d) i') = s₀.own (.table (.task d) i') := by
    rw [hpage.own, Function.update_of_ne (by simp)]
    exact h.tables (by omega)
  have hread : m.readEntry d i = s.tableEntry (.task d) i := by
    rw [hentry]
    exact hpage.inv.readEntry_dir (hpage.confined.dirs ▸ hd') hi
  rw [hlines]
  by_cases hlast : j = 1023
  · have htable := htab hlast
    refine ⟨⟨hdying, fun {i' j'} hlater => ?_, fun {i'} hlater => ?_⟩, ?_⟩
    · rw [htable.own, Function.update_of_ne (by simp)]
      exact hpages hlater
    · rw [htable.own, Function.update_of_ne (by simp; omega)]
      exact htables (by omega)
    · have hmet := hpage.inv.tableMet_iff (d := d) (i := i)
      rw [← hentry, htables (Nat.le_refl i)] at hmet
      rw [linesOfTable, hread, if_pos (show 1024 ≤ j + 1 by omega), tableWord]
      by_cases hown : s₀.own (.table (.task d) i) = none
      · rw [if_pos hown, if_neg fun hc => hmet.mp hc.2 hown]
        rfl
      · rw [if_neg hown, if_pos ⟨by omega, hmet.mpr hown⟩]
        rfl
  · rw [Mm.freeUserTable, if_neg (by omega)] at hdying ⊢
    have hown : (s.withMm m.unmapTmpPage).own = (s.withMm m).own := own_congr rfl rfl rfl
    refine ⟨⟨hdying, fun {i' j'} hlater => ?_, fun {i'} hlater => ?_⟩, ?_⟩
    · rw [hown]
      exact hpages hlater
    · rw [hown]
      exact htables (by omega)
    · rw [linesOfTable, if_neg (by omega), if_neg (by omega)]

/-- The messages of the iterations from `lo` on are those for the table. -/
lemma flatMap_entryLines {lo n : ℕ} (hn : lo + n = 1023) :
    (List.range' lo (n + 1)).flatMap (s.entryLines d i) =
      ((List.range' lo (n + 1)).flatMap (s.pageWord d i) ++ s.tableWord d i).map line := by
  have hlast : lo + 1 * n = 1023 := by omega
  have hfirst : (List.range' lo n).flatMap (s.entryLines d i) =
      ((List.range' lo n).flatMap (s.pageWord d i)).map line := by
    rw [List.map_flatMap]
    refine List.flatMap_congr fun j hj => ?_
    have hlt := List.mem_range'_1.mp hj
    rw [entryLines, if_neg (by omega), List.append_nil]
  rw [List.range'_concat, hlast, List.flatMap_append, List.flatMap_append, hfirst,
    List.flatMap_singleton, List.flatMap_singleton, entryLines, if_pos (Nat.le_refl _),
    List.map_append, List.map_append, List.append_assoc]

/-- **The inner loop** writes the messages for a table. -/
lemma Pending.table (h : Pending s₀ d i 0 s) (hd : d ∈ s₀.dirs) (hi : i < 768) :
    Pending s₀ d (i + 1) 0 (s.withMm (Mm.unmmapRing3Table d i s.mm)) ∧
      linesOfLoop d i s.mm = (s₀.tableWords d i).map line := by
  have hloop (lo n : ℕ) (hn : lo + n = 1023) (h : Pending s₀ d i lo s) :
      Pending s₀ d (i + 1) 0 (s.withMm (Loop.forEach (Mm.unmmapRing3Page d i) lo (n + 1) s.mm)) ∧
        Loop.written (Mm.unmmapRing3Page d i) (linesOfEntry d i) lo (n + 1) s.mm =
          ((List.range' lo (n + 1)).flatMap (s₀.pageWord d i) ++ s₀.tableWord d i).map line := by
    have hstep (j : ℕ) (mm : Mm) (h₂ : j < lo + (n + 1)) (hI : Pending s₀ d i j (s.withMm mm)) :=
      hI.page hd hi (show j < 1024 by omega)
    have hend := Loop.forEach_rule (n := n + 1) (I := fun j mm => Pending s₀ d i j (s.withMm mm))
      (fun j mm _ h₂ hI => (hstep j mm h₂ hI).1) h
    have hwritten : Loop.written (Mm.unmmapRing3Page d i) (linesOfEntry d i) lo (n + 1) s.mm =
        (List.range' lo (n + 1)).flatMap (s₀.entryLines d i) :=
      Loop.written_eq (I := fun j mm => Pending s₀ d i j (s.withMm mm))
        (fun j mm _ h₂ hI => hstep j mm h₂ hI) h
    rw [show lo + (n + 1) = 1024 by omega] at hend
    refine ⟨⟨hend.dying.next, fun hlater => hend.pages (by omega),
      fun hlater => hend.tables (by omega)⟩, ?_⟩
    rw [hwritten, flatMap_entryLines hn]
  rw [Mm.unmmapRing3Table, linesOfLoop, tableWords]
  split_ifs with hz
  · subst hz
    have hsecond : Pending s₀ d 0 1 s := ⟨h.dying.second, fun hlater => h.pages (by omega),
      fun hlater => h.tables (by omega)⟩
    have hnull : s₀.pageWord d 0 0 = [] := by
      have hown : s.own (.page (.task d) 0 0) = none := h.dying.inv.null d
      rw [h.pages (.inr ⟨rfl, Nat.le_refl 0⟩)] at hown
      exact if_pos hown
    obtain ⟨hend, hwritten⟩ := hloop 1 1022 rfl hsecond
    refine ⟨hend, hwritten.trans ?_⟩
    rw [List.range_eq_range', List.range'_succ (s := 0), List.flatMap_cons, hnull,
      List.nil_append]
  · rw [List.range_eq_range']
    exact hloop 0 1023 rfl h

/-- **`unmmap_ring3` writes one message for each page and each page table.**

**Proof sketch.** At every entry the pages and tables ahead are still those of the task, so an
iteration writes what belongs to its entry, and the iterations follow one another in the order of
the entries. -/
theorem Inv.lines_eq (h : Inv s) (hd : d ∈ s.dirs) :
    lines s.mm d = (s.words d).map line := by
  have hstart : Pending s d 0 0 s :=
    ⟨⟨h, .refl d s, fun hi => by omega, fun hj => absurd hj (Nat.not_lt_zero _)⟩, fun _ => rfl,
      fun _ => rfl⟩
  have hwritten : Loop.written (Mm.unmmapRing3Table d) (linesOfLoop d) 0 768 s.mm =
      (List.range' 0 768).flatMap fun i => (s.tableWords d i).map line :=
    Loop.written_eq (I := fun i mm => Pending s d i 0 (s.withMm mm))
      (fun i mm _ h₂ hI => hI.table hd (by omega)) hstart
  rw [lines, hwritten, words, List.map_flatMap, List.range_eq_range']

/-! ## Nothing is left -/

/-- The messages are words. -/
lemma mem_words {w : List (BitVec 8)} (h : w ∈ s.words d) : w = tableFree ∨ w = pageTableFree := by
  obtain ⟨i, -, hw⟩ := List.mem_flatMap.mp h
  rcases List.mem_append.mp hw with hw | hw
  · obtain ⟨j, -, hw⟩ := List.mem_flatMap.mp hw
    rw [pageWord] at hw
    split_ifs at hw
    · exact absurd hw List.not_mem_nil
    · exact .inl (List.mem_singleton.mp hw)
  · rw [tableWord] at hw
    split_ifs at hw
    · exact absurd hw List.not_mem_nil
    · exact .inr (List.mem_singleton.mp hw)

/-- They are what is asked of a message. -/
lemma messages_words (hletters : ∀ c ∈ letters, Legible font c) :
    ∀ w ∈ s.words d, Message font w := by
  obtain ⟨hpage, htable⟩ := words_legible hletters
  intro w hw
  rcases mem_words hw with rfl | rfl
  · exact hpage
  · exact htable

/-- **`unmmap_ring3` returns if and only if its messages are written.** -/
lemma Inv.unmmapRing3_iff (h : Inv s) (hd : d ∈ s.dirs) :
    (∃ m screen', Teardown.unmmapRing3 defaultFramebuffer font s.mm d screen = some (m, screen')) ↔
      ∃ screen', ((s.words d).map line).foldlM (terminalWritestring defaultFramebuffer font)
        screen = some screen' := by
  rw [Teardown.unmmapRing3_eq, h.lines_eq hd]
  constructor
  · rintro ⟨m, screen', hm⟩
    obtain ⟨screen'', hs, -⟩ := Option.map_eq_some_iff.mp hm
    exact ⟨screen'', hs⟩
  · rintro ⟨screen', hs⟩
    exact ⟨_, screen', Option.map_eq_some_iff.mpr ⟨screen', hs, rfl⟩⟩

/-- **Nothing is left of an address space** if and only if the messages of `unmmap_ring3` fit on the
screen. In every reachable state with four free frames, after `mmap_ring3` and any sequence of calls
of `sys_mmap` and `sys_munmap` of the new task that are given what they need, `unmmap_ring3`
returns, with the bitmap, the kernel's page directory and the kernel's page tables as they were
before `mmap_ring3` and each frame of the task freed once, when the lines for the pages and page
tables of the task stand in the first `38` rows from the cursor on; and in no other case, if the
cursor is in a row that is not so far down that addresses wrap around.

**Proof sketch.** The loops without the messages free each frame of the task once, whatever is
written. The messages are one for each page and each page table, so the function returns if and only
if these lines are written without a store to an unmapped page. -/
theorem address_space_returned_iff (h : Transition.Reach Boot Step (fun _ _ => True) s)
    (hfree : 4 ≤ s.mm.freeCount) (code : ℕ → ℕ) (hd : d = (s.mm.mmapRing3 code).1)
    (hrun : Transition.Reach (fun u => u = s.exec (.create code)) (CallStep d) (Provides d) s')
    (hfont : SmallFont font) (hletters : ∀ c ∈ letters, Legible font c)
    (hcol : screen.column < vgaWidth)
    (hdrawn : ∀ p ∈ screen.stores, OnFramebuffer defaultFramebuffer p) :
    (Screen.Fits screen.row screen.column ((s'.words d).map List.length) →
      ∃ m screen', Teardown.unmmapRing3 defaultFramebuffer font s'.mm d screen =
        some (m, screen') ∧ Returned d s s' m) ∧
    (screen.row < 6500 →
      (∃ m screen', Teardown.unmmapRing3 defaultFramebuffer font s'.mm d screen =
        some (m, screen') ∧ Returned d s s' m) →
      Screen.Fits screen.row screen.column ((s'.words d).map List.length)) := by
  have hrunning := running_of_calls h hfree code hd hrun
  have hreturned := hrunning.returned (inv_of_reach h)
  have hwords := messages_words (s := s') (d := d) hletters
  constructor
  · intro hfits
    obtain ⟨m, screen', hm⟩ := (hrunning.inv.unmmapRing3_iff hrunning.mem).mpr
      (lines_written hfont hwords hcol hdrawn hfits)
    refine ⟨m, screen', hm, ?_⟩
    rw [Teardown.unmmapRing3_eq] at hm
    obtain ⟨_, -, heq⟩ := Option.map_eq_some_iff.mp hm
    rw [← (Prod.mk.inj heq).1]
    exact hreturned
  · rintro hrow ⟨m, screen', hm, -⟩
    exact (lines_written_iff hfont hwords hrow hcol hdrawn).mp
      ((hrunning.inv.unmmapRing3_iff hrunning.mem).mp ⟨m, screen', hm⟩)

/-- A new task has two pages and one page table. -/
lemma Created.words (h : Created s d s') : s'.words d = [tableFree, tableFree, pageTableFree] := by
  have hpage (i j : ℕ) (hij : ¬ (i = 0 ∧ (j = 1 ∨ j = 2))) : s'.pageWord d i j = [] :=
    if_pos (by by_contra hown; exact hij (h.pages.mp hown))
  have htable (i : ℕ) (hi : i ≠ 0) : s'.tableWord d i = [] :=
    if_pos (by by_contra hown; exact hi (h.tables.mp hown))
  have hrest : (List.range' 1 767).flatMap (s'.tableWords d) = [] := by
    refine List.flatMap_eq_nil_iff.mpr fun i hi => ?_
    have hpos := (List.mem_range'_1.mp hi).1
    rw [tableWords, htable i (by omega), List.append_nil]
    exact List.flatMap_eq_nil_iff.mpr fun j _ => hpage i j (by omega)
  have hlater : (List.range' 3 1021).flatMap (s'.pageWord d 0) = [] := by
    refine List.flatMap_eq_nil_iff.mpr fun j hj => hpage 0 j ?_
    have hlow := (List.mem_range'_1.mp hj).1
    omega
  have hfirst : s'.pageWord d 0 1 = [tableFree] ∧ s'.pageWord d 0 2 = [tableFree] ∧
      s'.tableWord d 0 = [pageTableFree] :=
    ⟨if_neg (h.pages.mpr (by omega)), if_neg (h.pages.mpr (by omega)), if_neg (h.tables.mpr rfl)⟩
  rw [Sys.words, List.range_eq_range', List.range'_succ, List.flatMap_cons, hrest, List.append_nil,
    tableWords, List.range_eq_range', List.range'_succ, List.range'_succ, List.range'_succ,
    List.flatMap_cons, List.flatMap_cons, List.flatMap_cons, hlater, hpage 0 0 (by omega), hfirst.1,
    hfirst.2.1, hfirst.2.2]
  rfl

/-- The letters are legible in the font of the kernel. -/
lemma legible_zapLight : ∀ c ∈ letters, Legible zapLight c := by
  intro c hc
  rw [letters, List.mem_cons, List.mem_cons, List.mem_singleton] at hc
  rcases hc with rfl | rfl | rfl
  · exact ⟨10, 1, by decide, by decide, by decide, by decide⟩
  · exact ⟨9, 1, by decide, by decide, by decide, by decide⟩
  · exact ⟨9, 3, by decide, by decide, by decide, by decide⟩

/-- The run to the state in which the first task is made. -/
lemma reach_heapGrown : Transition.Reach Boot Step (fun _ _ => True) (bootState.exec (.mmap 1)) :=
  .next (a := .mmap 1) (.start boot_bootState) trivial ⟨trivial, rfl, heapGrown_boot.2.1⟩

/-- The first task is given back when it ends at once, with three lines from the end of the last row
of the screen on. -/
theorem address_space_returned_iff_first : ∃ m screen',
    Teardown.unmmapRing3 defaultFramebuffer zapLight taskState.mm firstTask ⟨24, 75, []⟩ =
        some (m, screen') ∧
      Returned firstTask (bootState.exec (.mmap 1)) taskState m := by
  have hfits : Screen.Fits 24 75 ((taskState.words firstTask).map List.length) := by
    rw [created_taskState.words]
    decide
  have hrun : Transition.Reach (fun u => u = taskState) (CallStep firstTask) (Provides firstTask)
      taskState := .start rfl
  have hdir : firstTask = ((bootState.exec (.mmap 1)).mm.mmapRing3 fun _ => 0).1 := rfl
  exact (address_space_returned_iff reach_heapGrown provides_wide.1 (fun _ => 0) hdir hrun
    smallFont_zapLight legible_zapLight (by decide)
    fun p hp => absurd hp List.not_mem_nil).1 hfits

/-- There is a line for each mapped page. -/
lemma le_length_words {n : ℕ} (hn : n ≤ 1023)
    (h : ∀ p, 1 ≤ p → p ≤ n → s.own (userPage d p) ≠ none) : n ≤ (s.words d).length := by
  have hpages : (List.range' 1 n).flatMap (s.pageWord d 0) = (List.range' 1 n).map fun _ =>
      tableFree := by
    rw [← List.flatMap_pure_eq_map]
    refine List.flatMap_congr fun p hp => ?_
    obtain ⟨hlow, hhigh⟩ := List.mem_range'_1.mp hp
    have hown := h p hlow (by omega)
    rw [userPage, Nat.div_eq_of_lt (by omega), Nat.mod_eq_of_lt (by omega)] at hown
    exact if_neg hown
  have hsplit : List.range' 0 1024 = 0 :: (List.range' 1 n ++ List.range' (1 + n) (1023 - n)) := by
    rw [List.range'_append_1, Nat.add_sub_cancel' hn, List.range'_succ]
  rw [words, List.range_eq_range', List.range'_succ, List.flatMap_cons, tableWords,
    List.range_eq_range', hsplit, List.flatMap_cons, List.flatMap_append, hpages]
  simp only [List.length_append, List.length_map, List.length_range']
  omega

/-- **Frames that are not given back**: the first task maps 1022 pages, and when it ends with the
cursor at the beginning of the screen, `unmmap_ring3` does not return. -/
theorem frames_kept : ¬ ∀ s, Transition.Reach Boot Step (fun _ _ => True) s → 4 ≤ s.mm.freeCount →
    ∀ (code : ℕ → ℕ) d s', d = (s.mm.mmapRing3 code).1 →
      Transition.Reach (fun u => u = s.exec (.create code)) (CallStep d) (Provides d) s' →
      ∀ screen : Screen, screen.row < vgaHeight → screen.column < vgaWidth → screen.stores = [] →
        ∃ m screen', Teardown.unmmapRing3 defaultFramebuffer zapLight s'.mm d screen =
          some (m, screen') ∧ Returned d s s' m := by
  intro hall
  obtain ⟨hreach, hmem, hpages⟩ := wideState_spec
  have hcall := provides_wide.2
  have hrun : Transition.Reach (fun u => u = taskState) (CallStep firstTask) (Provides firstTask)
      wideState := .next (a := .mmap 4186112) (.start rfl) hcall rfl
  obtain ⟨m, screen', hm, -⟩ := hall _ reach_heapGrown provides_wide.1 (fun _ => 0) firstTask
    wideState rfl hrun Screen.start (by decide) (by decide) rfl
  have hwords := messages_words (s := wideState) (d := firstTask) legible_zapLight
  have hrow : Screen.start.row < 6500 := by decide
  have hwritten := ((inv_of_reach hreach).unmmapRing3_iff hmem).mp ⟨m, screen', hm⟩
  have hfits := (lines_written_iff smallFont_zapLight hwords hrow (by decide)
    fun p hp => absurd hp List.not_mem_nil).mp hwritten
  have hlen : 39 ≤ (wideState.words firstTask).length :=
    le_length_words (by omega) fun p h₁ h₂ => hpages p h₁ (by omega)
  have hshort : ∀ n ∈ (wideState.words firstTask).map List.length, n < vgaWidth := by
    intro n hn
    obtain ⟨w, hw, rfl⟩ := List.mem_map.mp hn
    rcases mem_words hw with rfl | rfl <;> decide
  rcases (fits_fresh hshort 0).mp hfits with hnil | hroom
  · rw [List.map_eq_nil_iff] at hnil
    rw [hnil, List.length_nil] at hlen
    omega
  · rw [List.length_map, textRows] at hroom
    omega

end Sys

end AlphaOS
