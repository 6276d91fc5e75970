import AlphaOS.Mm.Operations
import Mathlib.Data.Nat.Count

set_option relaxedAutoImplicit false
set_option autoImplicit false

/-!
# What `sys_mmap` does

The two nested loops of `sys_mmap` are one walk over the page numbers of the user half. The walk
maps every hole it meets until it has mapped as many as were asked for. This file states what the
walk has done when it stands at a page, and proves that the call either ends with that many holes
filled or has run out of frames, which it does only when there are too few.

## Main definitions

* `AlphaOS.Sys.Hole` — a user page that is not mapped.
* `AlphaOS.Sys.Enough` — enough free frames and user pages for a call.
* `AlphaOS.Sys.Filled` — what has happened when the walk stands at a page.

## Main results

* `AlphaOS.Sys.sysMmap_spec` — the outcome of the call.
-/

namespace AlphaOS

namespace Sys

variable {s₀ s s' : Sys} {d i j f g p q N : ℕ}

/-! ## Pages by their number -/

/-- The place of page number `p` of a task's user half. -/
def userPage (d p : ℕ) : Place := .page (.task d) (p / 1024) (p % 1024)

/-- User page `p` is not mapped. -/
def Hole (s : Sys) (d p : ℕ) : Prop := s.own (userPage d p) = none

instance (s : Sys) (d p : ℕ) : Decidable (s.Hole d p) := inferInstanceAs (Decidable (_ = none))

/-- The first page of a table that the walk visits: it leaves out page 0. -/
def startPage (i : ℕ) : ℕ := if i = 0 then 1 else i * 1024

/-- The number of holes the walk meets before page `p`. -/
def holes (s : Sys) (d p : ℕ) : ℕ := Nat.count (fun q => 1 ≤ q ∧ s.Hole d q) p

/-- Page `p` is the first the walk visits of a missing table. -/
def Opens (s : Sys) (d p : ℕ) : Prop :=
  startPage (p / 1024) = p ∧ s.own (.table (.task d) (p / 1024)) = none

instance (s : Sys) (d p : ℕ) : Decidable (s.Opens d p) := inferInstanceAs (Decidable (_ ∧ _ = none))

/-- The number of missing tables the walk meets before page `p`. -/
def missing (s : Sys) (d p : ℕ) : ℕ := Nat.count (s.Opens d) p

/-- The lowest hole of a task. -/
def LowestHole (s : Sys) (d q : ℕ) : Prop := 1 ≤ q ∧ s.Hole d q ∧ ∀ r, 1 ≤ r → r < q → ¬ s.Hole d r

/-- Enough free frames and user pages for `N` pages: the walk meets `N` holes in the user half, and
there are frames for them and for the tables missing on the way. -/
def Enough (s : Sys) (d N : ℕ) : Prop :=
  ∃ p ≤ 768 * 1024, s.holes d p = N ∧ N + s.missing d p ≤ s.mm.freeCount

/-- The first page that is looked at in a table. -/
lemma startPage_le (hp : 1 ≤ p) : startPage (p / 1024) ≤ p := by
  unfold startPage
  split_ifs <;> omega

/-- The table of the first page that is looked at. -/
lemma startPage_div (h : startPage i = p) : p / 1024 = i := by
  rw [← h]
  unfold startPage
  split_ifs <;> omega

/-- Different pages have different places. -/
lemma userPage_ne (h : p ≠ q) : userPage d p ≠ userPage d q := by
  intro he
  obtain ⟨-, h₁, h₂⟩ : d = d ∧ p / 1024 = q / 1024 ∧ p % 1024 = q % 1024 := by
    simpa [userPage] using he
  omega

/-- The place of a page by table and index. -/
lemma page_eq_userPage (d i : ℕ) (hj : j < 1024) :
    Place.page (.task d) i j = userPage d (i * 1024 + j) := by
  rw [userPage]
  congr 1 <;> omega

/-- A place with a frame has an index below 1024. -/
lemma place_eq_userPage (hg : s.own (.page (.task d) i j) = some g) :
    Place.page (.task d) i j = userPage d (i * 1024 + j) :=
  page_eq_userPage d i (tableEntry_of_pageEntry (frameOf_eq_some.mp hg).1).2

/-- A page with no table is a hole. -/
lemma hole_of_table (h : s.own (.table (.task d) (p / 1024)) = none) : s.Hole d p :=
  frameOf_eq_none.mpr (if_pos (.inl (frameOf_eq_none.mp h)))

/-- The holes up to the next page. -/
lemma holes_succ (hp : 1 ≤ p) :
    s.holes d (p + 1) = s.holes d p + if s.Hole d p then 1 else 0 := by
  rw [holes, Nat.count_succ, holes]
  simp [hp]

/-- The missing tables up to the next page. -/
lemma missing_succ : s.missing d (p + 1) = s.missing d p + if s.Opens d p then 1 else 0 :=
  Nat.count_succ ..

/-- Too few frames at some page of the walk are too few for the call. -/
lemma not_enough (hN : s.holes d p < N)
    (hfew : s.mm.freeCount < s.holes d (p + 1) + s.missing d (p + 1)) : ¬ s.Enough d N := by
  rintro ⟨q, -, hq, hcount⟩
  rcases Nat.lt_or_ge p q with hpq | hpq
  · have h₁ : s.holes d (p + 1) ≤ s.holes d q := Nat.count_monotone _ hpq
    have h₂ : s.missing d (p + 1) ≤ s.missing d q := Nat.count_monotone _ hpq
    omega
  · have h₁ : s.holes d q ≤ s.holes d p := Nat.count_monotone _ hpq
    omega

/-! ## What the walk has done -/

/-- The walk of the task with directory `d`, begun in `s₀`, stands at page `p` in `s`: the holes
before `p` are filled with frames that were free, and nothing else has changed. -/
structure Filled (s₀ : Sys) (d p : ℕ) (s : Sys) : Prop where
  inv : Inv s
  confined : Confined d s₀ s
  used : ∀ {g}, s₀.mm.used g → s.mm.used g
  fresh : ∀ {q}, 1 ≤ q → q < p → s₀.Hole d q →
    ∃ f, s.own (userPage d q) = some f ∧ ¬ s₀.mm.used f
  same : ∀ {q}, p ≤ q ∨ ¬ s₀.Hole d q → s.own (userPage d q) = s₀.own (userPage d q)
  tables : ∀ {i}, p ≤ startPage i → s.own (.table (.task d) i) = s₀.own (.table (.task d) i)
  present : ∀ {i}, i < 768 → startPage i < p → s.own (.table (.task d) i) ≠ none
  count : s.mm.freeCount + s₀.holes d p + s₀.missing d p = s₀.mm.freeCount
  zero : ∀ {q f}, 1 ≤ q → q < p → s₀.Hole d q → s.own (userPage d q) = some f →
    ∀ x, s.mm.mem f x = 0
  kept : ∀ {q f}, s₀.own (userPage d q) = some f → s.mm.mem f = s₀.mm.mem f
  table : ∀ i, s.own (.table (.task d) i) = s₀.own (.table (.task d) i) ∨
    s₀.own (.table (.task d) i) = none ∧
      ∃ f, s.own (.table (.task d) i) = some f ∧ ¬ s₀.mm.used f
  grown : ∀ {g}, s.mm.used g → s₀.mm.used g ∨ ∃ pl : Place, pl.OfTask d ∧ s.own pl = some g

/-- Before the first page nothing has been done. -/
lemma Filled.start (h : Inv s) (d : ℕ) : Filled s d 1 s where
  inv := h
  confined := .refl d s
  used := id
  fresh := fun h₁ h₂ => by omega
  same := fun _ => rfl
  tables := fun _ => rfl
  present := by
    intro i _ h
    unfold startPage at h
    split_ifs at h <;> omega
  count := by
    have h₁ : s.holes d 1 = 0 := by simp [holes, Nat.count_succ]
    have h₂ : s.missing d 1 = 0 := by simp [missing, Nat.count_succ, Opens, startPage]
    omega
  zero := fun h₁ h₂ => by omega
  kept := fun _ => rfl
  table := fun _ => .inl rfl
  grown := .inl

/-- The temporary mapping does not matter. -/
lemma Filled.tmp (h : Filled s₀ d p s) (e : ℕ) :
    Filled s₀ d p (s.withMm { s.mm with tmpPte := e }) := by
  have hown : (s.withMm { s.mm with tmpPte := e }).own = s.own := own_congr rfl rfl rfl
  refine ⟨h.inv.tmp e, h.confined.trans (.tmp d s e), h.used, ?_, ?_, ?_, ?_, h.count,
    ?_, h.kept, ?_,
    ?_⟩
  · rw [hown]; exact h.fresh
  · rw [hown]; exact h.same
  · rw [hown]; exact h.tables
  · rw [hown]; exact h.present
  · rw [hown]; exact h.zero
  · rw [hown]; exact h.table
  · rw [hown]; exact h.grown

/-- The table of the page the walk stands at is missing only if it was, and then the page is the
first of its table. -/
lemma Filled.opens_iff (h : Filled s₀ d p s) (hp : 1 ≤ p) (hlt : p < 768 * 1024) :
    s.own (.table (.task d) (p / 1024)) = none ↔ s₀.Opens d p := by
  have hle := startPage_le hp
  have hi : p / 1024 < 768 := by omega
  constructor
  · intro hnone
    have hstart : ¬ startPage (p / 1024) < p := fun hs => h.present hi hs hnone
    have heq : startPage (p / 1024) = p := by omega
    exact ⟨heq, by rw [← h.tables heq.ge]; exact hnone⟩
  · rintro ⟨heq, hnone⟩
    rw [h.tables heq.ge]
    exact hnone

/-- A mapped page is passed over. -/
lemma Filled.skip (h : Filled s₀ d p s) (hp : 1 ≤ p) (hlt : p < 768 * 1024) (hole : ¬ s.Hole d p) :
    Filled s₀ d (p + 1) s := by
  have hown : s.own (userPage d p) = s₀.own (userPage d p) := h.same (.inl (Nat.le_refl p))
  have hole₀ : ¬ s₀.Hole d p := by
    unfold Hole at hole ⊢
    rwa [hown] at hole
  have hopen : ¬ s₀.Opens d p := fun ho => hole (hole_of_table ((h.opens_iff hp hlt).mpr ho))
  refine ⟨h.inv, h.confined, h.used, ?_, ?_, ?_, ?_, ?_, ?_, h.kept, h.table, h.grown⟩
  · intro q h₁ h₂ hq
    have hne : q ≠ p := fun he => hole₀ (he ▸ hq)
    exact h.fresh h₁ (by omega) hq
  · rintro q (hq | hq)
    · exact h.same (.inl (by omega))
    · exact h.same (.inr hq)
  · exact fun hi => h.tables (by omega)
  · intro i hi hs
    rcases Nat.lt_or_ge (startPage i) p with hs' | hs'
    · exact h.present hi hs'
    · have hpi : p / 1024 = i := startPage_div (by omega)
      exact fun hnone => hole (hole_of_table (hpi ▸ hnone))
  · rw [holes_succ hp, if_neg hole₀, missing_succ, if_neg hopen]
    exact h.count
  · intro q f h₁ h₂ hq
    have hne : q ≠ p := fun he => hole₀ (he ▸ hq)
    exact h.zero h₁ (by omega) hq

/-- The holes and tables before the next page, when the walk stands at a hole. -/
lemma Filled.cost_succ (h : Filled s₀ d p s) (hp : 1 ≤ p) (hole : s.Hole d p) :
    s₀.holes d (p + 1) + s₀.missing d (p + 1) =
      s₀.holes d p + s₀.missing d p + 1 + if s₀.Opens d p then 1 else 0 := by
  have hole₀ : s₀.Hole d p := by
    unfold Hole at hole ⊢
    rwa [h.same (.inl (Nat.le_refl p))] at hole
  rw [holes_succ hp, if_pos hole₀, missing_succ]
  omega

/-- A hole is filled: what the walk has done is read off the change of the ledger. -/
lemma Filled.fill (h : Filled s₀ d p s) (hp : 1 ≤ p) (hole : s.Hole d p) (hinv : Inv s')
    (hconf : Confined d s s') (hused : ∀ g, s.mm.used g → s'.mm.used g) (hfree : ¬ s.mm.used f)
    (hpage : s'.own (userPage d p) = some f)
    (hpages : ∀ q, q ≠ p → s'.own (userPage d q) = s.own (userPage d q))
    (htable : s'.own (.table (.task d) (p / 1024)) ≠ none)
    (htables : ∀ i, i ≠ p / 1024 → s'.own (.table (.task d) i) = s.own (.table (.task d) i))
    (hcount : s'.mm.freeCount + 1 + (if s₀.Opens d p then 1 else 0) = s.mm.freeCount)
    (hzero : ∀ x, s'.mm.mem f x = 0)
    (hkept : ∀ q g, s.own (userPage d q) = some g → s'.mm.mem g = s.mm.mem g)
    (hnew : s'.own (.table (.task d) (p / 1024)) = s.own (.table (.task d) (p / 1024)) ∨
      s.own (.table (.task d) (p / 1024)) = none ∧
        ∃ t, s'.own (.table (.task d) (p / 1024)) = some t ∧ ¬ s.mm.used t)
    (hgrown : ∀ g, s'.mm.used g → s.mm.used g ∨ ∃ pl : Place, pl.OfTask d ∧ s'.own pl = some g) :
    Filled s₀ d (p + 1) s' := by
  -- the places that are taken keep their frames
  have hstay (pl : Place) (hpl : pl.OfTask d) {g : ℕ} (hg : s.own pl = some g) :
      s'.own pl = some g := by
    cases pl with
    | dir d' =>
      rw [← hg, own, own, hconf.dirs]
    | table sp i =>
      obtain rfl : sp = .task d := hpl
      by_cases hi : i = p / 1024
      · rcases hnew with he | ⟨hnone, -⟩
        · rw [hi, he, ← hi, hg]
        · rw [hi, hnone] at hg
          exact absurd hg (by simp)
      · rw [htables i hi, hg]
    | page sp i j =>
      obtain rfl : sp = .task d := hpl
      have hplace := place_eq_userPage hg
      rw [hplace] at hg ⊢
      have hne : i * 1024 + j ≠ p := by
        rintro rfl
        rw [Hole, hg] at hole
        exact absurd hole (by simp)
      rw [hpages _ hne, hg]
  refine ⟨hinv, h.confined.trans hconf, fun hg =>
    hused _ (h.used hg), ?_, ?_, ?_, ?_, ?_, ?_, ?_, ?_,
    ?_⟩
  · intro q h₁ h₂ hq
    by_cases hqp : q = p
    · exact ⟨f, hqp ▸ hpage, fun hu => hfree (h.used hu)⟩
    · rw [hpages q hqp]
      exact h.fresh h₁ (by omega) hq
  · intro q hq
    have hqp : q ≠ p := by
      rintro rfl
      rcases hq with hq | hq
      · omega
      · unfold Hole at hole hq
        rw [h.same (.inl (Nat.le_refl q))] at hole
        exact hq hole
    rw [hpages q hqp]
    exact h.same (hq.imp_left fun h => by omega)
  · intro i hi
    have hne : i ≠ p / 1024 := by
      rintro rfl
      have := startPage_le hp
      omega
    rw [htables i hne]
    exact h.tables (by omega)
  · intro i hi hs
    by_cases hne : i = p / 1024
    · exact hne ▸ htable
    · have hsp : startPage i ≠ p := fun he => hne (startPage_div he).symm
      rw [htables i hne]
      exact h.present hi (by omega)
  · have hcost := h.cost_succ hp hole
    have := h.count
    omega
  · intro q g h₁ h₂ hq hg x
    by_cases hqp : q = p
    · rw [hqp, hpage, Option.some.injEq] at hg
      exact hg ▸ hzero x
    · rw [hpages q hqp] at hg
      rw [hkept q g hg]
      exact h.zero h₁ (by omega) hq hg x
  · intro q g hg
    have hq : ¬ s₀.Hole d q := by
      rw [Hole, hg]
      simp
    rw [hkept q g ((h.same (.inr hq)).trans hg), h.kept hg]
  · intro i
    by_cases hi : i = p / 1024
    · subst hi
      rcases hnew with he | ⟨hnone, t, ht, hfree⟩
      · rw [he]
        exact h.table _
      · refine .inr ⟨?_, t, ht, fun hu => hfree (h.used hu)⟩
        rcases h.table (p / 1024) with he | ⟨hnone₀, -⟩
        · rw [← he, hnone]
        · exact hnone₀
    · rw [htables i hi]
      exact h.table i
  · intro g hg
    rcases hgrown g hg with hu | hpl
    · rcases h.grown hu with hu₀ | ⟨pl, hpl, hown⟩
      · exact .inl hu₀
      · exact .inr ⟨pl, hpl, hstay pl hpl hown⟩
    · exact .inr hpl

/-- A hole in a table is filled. -/
lemma Filled.fillPage (h : Filled s₀ d p s) (hp : 1 ≤ p) (hlt : p < 768 * 1024)
    (hole : s.Hole d p) (ht : s.own (.table (.task d) (p / 1024)) ≠ none)
    (hi : Installs d (userPage d p) f s s') : Filled s₀ d (p + 1) s' := by
  have hopen : ¬ s₀.Opens d p := fun ho => ht ((h.opens_iff hp hlt).mpr ho)
  refine h.fill hp hole hi.inv hi.confined (fun g hg => (hi.used g).mpr (.inr hg)) hi.free ?_ ?_ ?_
    ?_ ?_ hi.zero (fun q g hg => hi.kept hg) (.inl ?_) ?_
  · rw [hi.own, Function.update_self]
  · intro q hq
    rw [hi.own, Function.update_of_ne (userPage_ne hq)]
  · rw [hi.own, Function.update_of_ne (by simp [userPage])]
    exact ht
  · intro i _
    rw [hi.own, Function.update_of_ne (by simp [userPage])]
  · rw [if_neg hopen]
    exact hi.count
  · rw [hi.own, Function.update_of_ne (by simp [userPage])]
  · intro g hg
    rcases (hi.used g).mp hg with rfl | hu
    · exact .inr ⟨userPage d p, rfl, by rw [hi.own, Function.update_self]⟩
    · exact .inl hu

/-- A missing table is installed, and the hole in it filled. -/
lemma Filled.fillTable {s₁ s₂ : Sys} {t : ℕ} (h : Filled s₀ d p s) (hp : 1 ≤ p)
    (hlt : p < 768 * 1024) (hnone : s.own (.table (.task d) (p / 1024)) = none)
    (ht : Installs d (.table (.task d) (p / 1024)) t s s₁)
    (hi : Installs d (userPage d p) f s₁ s₂) :
    Filled s₀ d (p + 1) s₂ := by
  have hopen : s₀.Opens d p := (h.opens_iff hp hlt).mp hnone
  have htown : s₂.own (.table (.task d) (p / 1024)) = some t := by
    rw [hi.own, Function.update_of_ne (by simp [userPage]), ht.own, Function.update_self]
  refine h.fill (f := f) hp (hole_of_table hnone) hi.inv (ht.confined.trans hi.confined) ?_ ?_ ?_ ?_
    ?_ ?_ ?_ hi.zero ?_ (.inr ⟨hnone, t, htown, ht.free⟩) ?_
  · exact fun g hg => (hi.used g).mpr (.inr ((ht.used g).mpr (.inr hg)))
  · exact fun hu => hi.free ((ht.used f).mpr (.inr hu))
  · rw [hi.own, Function.update_self]
  · intro q hq
    rw [hi.own, Function.update_of_ne (userPage_ne hq), ht.own,
      Function.update_of_ne (by simp [userPage])]
  · rw [htown]
    simp
  · intro i hne
    rw [hi.own, Function.update_of_ne (by simp [userPage]), ht.own,
      Function.update_of_ne (by simpa using hne)]
  · rw [if_pos hopen]
    have h₁ := ht.count
    have h₂ := hi.count
    omega
  · intro q g hg
    have hg' : s₁.own (userPage d q) = some g := by
      rw [ht.own, Function.update_of_ne (by simp [userPage]), hg]
    rw [hi.kept hg', ht.kept hg]
  · intro g hg
    rcases (hi.used g).mp hg with rfl | hu
    · exact .inr ⟨userPage d p, rfl, by rw [hi.own, Function.update_self]⟩
    · rcases (ht.used g).mp hu with rfl | hu
      · exact .inr ⟨.table (.task d) (p / 1024), rfl, htown⟩
      · exact .inl hu

/-! ## One page -/

/-- Frames run out only when none is free. -/
lemma freeCount_of_overrun {mm : Mm} {t j flags : ℕ} (hquiet : mm.overrun = false)
    (h : ¬ (mm.installEntry t j flags).overrun = false) : mm.freeCount = 0 := by
  by_contra hne
  refine h ?_
  rw [overrun_installEntry, Mm.overrun_allocFilled (Nat.pos_of_ne_zero hne), hquiet]

/-- The page the walk stands at is not page 0. -/
lemma page_ne_zero (hp : 1 ≤ p) : p / 1024 ≠ 0 ∨ p % 1024 ≠ 0 := by omega

/-- A hole whose table is missing: the table and the page are installed, or frames have run out. -/
lemma Filled.mapTable (h : Filled s₀ d p s) (hd : d ∈ s.dirs) (hp : 1 ≤ p) (hlt : p < 768 * 1024)
    (hnone : s.own (.table (.task d) (p / 1024)) = none) :
    (((s.mm.installEntry d (p / 1024) userFlags).installEntry
        (entry s.mm.allocZeroed.1 userFlags) (p % 1024) userFlags).overrun = true ∧
      s.mm.freeCount < 2) ∨
    Filled s₀ d (p + 1) (s.withMm ((s.mm.installEntry d (p / 1024) userFlags).installEntry
      (entry s.mm.allocZeroed.1 userFlags) (p % 1024) userFlags)) := by
  by_cases hok : (s.mm.installEntry d (p / 1024) userFlags).overrun = false
  · obtain ⟨t, haddr, htab⟩ := h.inv.installTable hd (by omega) (frameOf_eq_none.mp hnone) hok
    generalize s.mm.installEntry d (p / 1024) userFlags = m at *
    have htown : (s.withMm m).own (.table (.task d) (p / 1024)) = some t := by
      rw [htab.own, Function.update_self]
    have hentry : entry s.mm.allocZeroed.1 userFlags =
        (s.withMm m).tableEntry (.task d) (p / 1024) := by
      rw [haddr, entry_userFlags d (htab.inv.frame_lt htown), htab.inv.tableEntry_eq htown]
    rw [hentry]
    by_cases hok' : (m.installEntry ((s.withMm m).tableEntry (.task d) (p / 1024)) (p % 1024)
        userFlags).overrun = false
    · obtain ⟨f, hpage⟩ :=
        htab.inv.installPage htown (Nat.mod_lt p (by omega)) (page_ne_zero hp) hok'
      rw [withMm_withMm, withMm_mm] at hpage
      exact .inr (h.fillTable hp hlt hnone htab hpage)
    · have hzero : (s.withMm m).mm.freeCount = 0 := freeCount_of_overrun htab.inv.quiet hok'
      have := htab.count
      exact .inl ⟨by simpa using hok', by omega⟩
  · have hzero := freeCount_of_overrun h.inv.quiet hok
    refine .inl ⟨?_, by omega⟩
    rw [overrun_installEntry]
    exact overrun_allocFilled_of (by simpa using hok)

/-- A hole in a table: the page is installed, or frames have run out. -/
lemma Filled.mapPage (h : Filled s₀ d p s) (hp : 1 ≤ p) (hlt : p < 768 * 1024) (hole : s.Hole d p)
    (ht : s.own (.table (.task d) (p / 1024)) ≠ none) :
    ((s.mm.installEntry (s.tableEntry (.task d) (p / 1024)) (p % 1024) userFlags).overrun = true ∧
      s.mm.freeCount < 1) ∨
    Filled s₀ d (p + 1) (s.withMm
      (s.mm.installEntry (s.tableEntry (.task d) (p / 1024)) (p % 1024) userFlags)) := by
  obtain ⟨t, htown⟩ := Option.ne_none_iff_exists'.mp ht
  by_cases hok : (s.mm.installEntry (s.tableEntry (.task d) (p / 1024)) (p % 1024)
      userFlags).overrun = false
  · obtain ⟨f, hpage⟩ := h.inv.installPage htown (Nat.mod_lt p (by omega)) (page_ne_zero hp) hok
    exact .inr (h.fillPage hp hlt hole ht hpage)
  · have hzero := freeCount_of_overrun h.inv.quiet hok
    exact .inl ⟨by simpa using hok, by omega⟩

/-! ## The loops -/

/-- The address of a page. -/
lemma userAddr_eq (p : ℕ) : Mm.userAddr (p / 1024) (p % 1024) = p * 4096 := by
  have hshift : (p / 1024) <<< 22 = (p / 1024 * 1024) <<< 12 := by
    rw [Nat.shiftLeft_eq, Nat.shiftLeft_eq]
    omega
  rw [Mm.userAddr, hshift, ← Nat.shiftLeft_or_distrib]
  have hor : p / 1024 * 1024 ||| p % 1024 = p := by
    have h := Nat.two_pow_add_eq_or_of_lt (i := 10) (b := p % 1024) (by omega) (p / 1024)
    rw [Nat.mul_comm, show 1024 * (p / 1024) = 2 ^ 10 * (p / 1024) from rfl, ← h]
    omega
  rw [hor, Nat.shiftLeft_eq]

/-- What the loops know at page `p`: the holes before it are filled, fewer than asked for, and the
address of the first is remembered. -/
structure Walk (s₀ : Sys) (d N p : ℕ) (st : Mm.MmapState) : Prop where
  filled : Filled s₀ d p (s₀.withMm st.mm)
  mapped : st.mapped = s₀.holes d p
  lt : st.mapped < N
  first : st.mapped ≠ 0 → ∃ q, s₀.LowestHole d q ∧ q < p ∧ st.first = q * 4096

/-- What the call has done when it returns: `N` holes are filled, and the address of the lowest is
the result. -/
def Done (s₀ : Sys) (d N : ℕ) (r : ℕ × Mm) : Prop :=
  ∃ p, 1 ≤ p ∧ p ≤ 768 * 1024 ∧ Filled s₀ d p (s₀.withMm r.2) ∧ s₀.holes d p = N ∧
    (∃ q, s₀.LowestHole d q ∧ q < p ∧ r.1 = q * 4096) ∧ s₀.Hole d (p - 1)

/-- Frames have run out, and there were too few. -/
def Failed (s₀ : Sys) (d N : ℕ) (mm : Mm) : Prop := mm.overrun = true ∧ ¬ s₀.Enough d N

/-- The end of an iteration that has mapped a page. -/
lemma Walk.countPage {st : Mm.MmapState} {mm : Mm} (h : Walk s₀ d N p st) (hp : 1 ≤ p)
    (hlt : p < 768 * 1024) (hole : s₀.Hole d p) (hf : Filled s₀ d (p + 1) (s₀.withMm mm)) :
    Loop.Ends (Done s₀ d N) (Walk s₀ d N (p + 1))
      (Mm.countPage N (p / 1024) (p % 1024) st mm) := by
  have hcount : s₀.holes d (p + 1) = st.mapped + 1 := by
    rw [holes_succ hp, if_pos hole, h.mapped]
  have hfirst : ∃ q, s₀.LowestHole d q ∧ q < p + 1 ∧
      (if st.mapped = 0 then Mm.userAddr (p / 1024) (p % 1024) else st.first) = q * 4096 := by
    split_ifs with hz
    · refine ⟨p, ⟨hp, hole, fun r h₁ h₂ hr => ?_⟩, by omega, userAddr_eq p⟩
      rw [h.mapped, holes] at hz
      exact Nat.count_iff_forall_not.mp hz r h₂ ⟨h₁, hr⟩
    · obtain ⟨q, hq, hqp, heq⟩ := h.first hz
      exact ⟨q, hq, by omega, heq⟩
  rw [Mm.countPage]
  split_ifs with hN hz hz
  · rw [if_pos hz] at hfirst
    exact ⟨p + 1, by omega, by omega, hf, hcount.trans hN, hfirst, hole⟩
  · rw [if_neg hz] at hfirst
    exact ⟨p + 1, by omega, by omega, hf, hcount.trans hN, hfirst, hole⟩
  · have := h.lt
    exact ⟨hf, hcount.symm, by dsimp only; omega, fun _ => by simpa [hz] using hfirst⟩
  · have := h.lt
    exact ⟨hf, hcount.symm, by dsimp only; omega, fun _ => by simpa [hz] using hfirst⟩

/-- A failure stays one through the end of an iteration. -/
lemma Failed.countPage {st : Mm.MmapState} {mm : Mm} (h : Failed s₀ d N mm) :
    Loop.Ends (fun r => Failed s₀ d N r.2) (fun st' => Failed s₀ d N st'.mm)
      (Mm.countPage N i j st mm) := by
  rw [Mm.countPage]
  split_ifs
  · exact h
  · exact h
  · exact h
  · exact h

/-- A failure stays one through an iteration. -/
lemma Failed.page {st : Mm.MmapState} (h : Failed s₀ d N st.mm) :
    Loop.Ends (fun r => Failed s₀ d N r.2) (fun st' => Failed s₀ d N st'.mm)
      (Mm.sysMmapPage d N i j st) := by
  have hkeep {mm : Mm} (t k : ℕ) (hm : mm.overrun = true) :
      (mm.installEntry t k userFlags).overrun = true := by
    rw [overrun_installEntry]
    exact overrun_allocFilled_of hm
  rw [Mm.sysMmapPage]
  split_ifs
  · exact Failed.countPage ⟨hkeep _ _ (hkeep _ _ h.1), h.2⟩
  · exact Failed.countPage ⟨hkeep _ _ h.1, h.2⟩
  · exact h

/-- **An iteration** passes over a mapped page, or fills a hole, or has run out of frames. -/
lemma Walk.page {st : Mm.MmapState} (h : Walk s₀ d N p st) (hd : d ∈ s₀.dirs) (hp : 1 ≤ p)
    (hlt : p < 768 * 1024) :
    Loop.Ends (fun r => Failed s₀ d N r.2 ∨ Done s₀ d N r)
      (fun st' => Failed s₀ d N st'.mm ∨ Walk s₀ d N (p + 1) st')
      (Mm.sysMmapPage d N (p / 1024) (p % 1024) st) := by
  have hf := h.filled
  have hinv := hf.inv
  have hhole (hole : (s₀.withMm st.mm).Hole d p) : s₀.Hole d p := by
    unfold Hole at hole ⊢
    rwa [hf.same (.inl (Nat.le_refl p))] at hole
  have hlow : s₀.holes d p < N := h.mapped ▸ h.lt
  have hcount := hf.count
  have hdir : st.mm.readEntry d (p / 1024) = (s₀.withMm st.mm).tableEntry (.task d) (p / 1024) :=
    hinv.readEntry_dir (s := s₀.withMm st.mm) hd (by omega)
  rw [Mm.sysMmapPage, hdir]
  by_cases ht : (s₀.withMm st.mm).tableEntry (.task d) (p / 1024) = 0
  · have hnone : (s₀.withMm st.mm).own (.table (.task d) (p / 1024)) = none :=
      frameOf_eq_none.mpr ht
    have hole := hole_of_table hnone
    have hcost := hf.cost_succ hp hole
    rw [if_pos ((hf.opens_iff hp hlt).mp hnone)] at hcost
    rw [if_pos ht]
    rcases hf.mapTable hd hp hlt hnone with ⟨hover, hfew⟩ | hfilled
    · have hfail : Failed s₀ d N _ := ⟨hover, not_enough hlow (by omega)⟩
      exact hfail.countPage.mono (fun _ hr => .inl hr) (fun _ hr => .inl hr)
    · exact (h.countPage hp hlt (hhole hole) hfilled).mono (fun _ hr => .inr hr)
        (fun _ hr => .inr hr)
  · have htown : (s₀.withMm st.mm).own (.table (.task d) (p / 1024)) ≠ none :=
      fun he => ht (frameOf_eq_none.mp he)
    have hread : st.mm.readEntry ((s₀.withMm st.mm).tableEntry (.task d) (p / 1024)) (p % 1024) =
        (s₀.withMm st.mm).pageEntry (.task d) (p / 1024) (p % 1024) :=
      hinv.readEntry_table (s := s₀.withMm st.mm) ht (Nat.mod_lt p (by omega))
    rw [if_neg ht, hread]
    split_ifs with hpage
    · have hole : (s₀.withMm st.mm).Hole d p := frameOf_eq_none.mpr hpage
      have hcost := hf.cost_succ hp hole
      rcases hf.mapPage hp hlt hole htown with ⟨hover, hfew⟩ | hfilled
      · have hfail : Failed s₀ d N _ :=
          ⟨hover, not_enough hlow (by rw [withMm_mm] at hfew hcount; omega)⟩
        exact hfail.countPage.mono (fun _ hr => .inl hr) (fun _ hr => .inl hr)
      · exact (h.countPage hp hlt (hhole hole) hfilled).mono (fun _ hr => .inr hr)
          (fun _ hr => .inr hr)
    · have hole : ¬ (s₀.withMm st.mm).Hole d p := fun he => hpage (frameOf_eq_none.mp he)
      have hole₀ : ¬ s₀.Hole d p := fun he => hole (by
        unfold Hole at he ⊢
        rw [hf.same (.inl (Nat.le_refl p))]
        exact he)
      refine .inr ⟨(hf.skip hp hlt hole).tmp _, ?_, h.lt, ?_⟩
      · rw [holes_succ hp, if_neg hole₀]
        exact h.mapped
      · intro hz
        obtain ⟨q, hq, hqp, heq⟩ := h.first hz
        exact ⟨q, hq, by omega, heq⟩

/-- An iteration of the inner loop, by table and entry. -/
lemma page_ends {st : Mm.MmapState} (h : Failed s₀ d N st.mm ∨ Walk s₀ d N (i * 1024 + j) st)
    (hd : d ∈ s₀.dirs) (hi : i < 768) (hj : j < 1024) (hij : i ≠ 0 ∨ j ≠ 0) :
    Loop.Ends (fun r => Failed s₀ d N r.2 ∨ Done s₀ d N r)
      (fun st' => Failed s₀ d N st'.mm ∨ Walk s₀ d N (i * 1024 + (j + 1)) st')
      (Mm.sysMmapPage d N i j st) := by
  rcases h with hfail | hwalk
  · exact hfail.page.mono (fun _ hr => .inl hr) (fun _ hr => .inl hr)
  · have hpage := hwalk.page hd (by omega) (by omega)
    rw [show (i * 1024 + j) / 1024 = i by omega, show (i * 1024 + j) % 1024 = j by omega,
      show i * 1024 + j + 1 = i * 1024 + (j + 1) by omega] at hpage
    exact hpage

/-- **The inner loop** walks over the pages of one table. -/
lemma table_ends {st : Mm.MmapState} (h : Failed s₀ d N st.mm ∨ Walk s₀ d N (startPage i) st)
    (hd : d ∈ s₀.dirs) (hi : i < 768) :
    Loop.Ends (fun r => Failed s₀ d N r.2 ∨ Done s₀ d N r)
      (fun st' => Failed s₀ d N st'.mm ∨ Walk s₀ d N (startPage (i + 1)) st')
      (Mm.sysMmapTable d N i st) := by
  have hnext : startPage (i + 1) = i * 1024 + 1024 := by
    simp [startPage, Nat.succ_mul]
  have hwalk (lo n : ℕ) (hlo : i ≠ 0 ∨ 1 ≤ lo) (hn : lo + n = 1024)
      (h : Failed s₀ d N st.mm ∨ Walk s₀ d N (i * 1024 + lo) st) :
      Loop.Ends (fun r => Failed s₀ d N r.2 ∨ Done s₀ d N r)
        (fun st' => Failed s₀ d N st'.mm ∨ Walk s₀ d N (i * 1024 + 1024) st')
        (Loop.forRange (Mm.sysMmapPage d N i) lo n st) := by
    have hend := Loop.forRange_rule (n := n)
      (I := fun k st => Failed s₀ d N st.mm ∨ Walk s₀ d N (i * 1024 + k) st)
      (fun k st h₁ h₂ h => page_ends h hd hi (by omega : k < 1024) (by omega)) h
    rw [hn] at hend
    exact hend
  rw [hnext, Mm.sysMmapTable]
  split_ifs with hz
  · subst hz
    exact hwalk 1 1023 (.inr (Nat.le_refl 1)) rfl h
  · rw [startPage, if_neg hz] at h
    exact hwalk 0 1024 (.inl hz) rfl (by rw [Nat.add_zero]; exact h)

/-- A failure stays one through the inner loop. -/
lemma Failed.table {st : Mm.MmapState} (h : Failed s₀ d N st.mm) :
    Loop.Ends (fun r => Failed s₀ d N r.2) (fun st' => Failed s₀ d N st'.mm)
      (Mm.sysMmapTable d N i st) := by
  rw [Mm.sysMmapTable]
  split_ifs
  · exact Loop.forRange_rule (I := fun _ st' => Failed s₀ d N (Mm.MmapState.mm st'))
      (fun _ _ _ _ h => h.page) h
  · exact Loop.forRange_rule (I := fun _ st' => Failed s₀ d N (Mm.MmapState.mm st'))
      (fun _ _ _ _ h => h.page) h

/-- **The outcome of `sys_mmap`** for a positive number of pages that fit in the holes of the user
half: the lowest holes are filled and the address of the lowest is returned, or frames have run out
and there were too few.

**Proof sketch.** The outer loop keeps the walk at the first page of a table. It cannot reach the
end of the user half, where it would have met all holes and still be short of pages. -/
theorem sysMmap_spec {len : ℕ} (h : Inv s) (hd : d ∈ s.dirs) (hlen : 0 < Mm.totalPages len)
    (hroom : Mm.totalPages len ≤ s.holes d (768 * 1024)) :
    Failed s d (Mm.totalPages len) (s.mm.sysMmap d len).2 ∨
      Done s d (Mm.totalPages len) (s.mm.sysMmap d len) := by
  have hloop : Loop.Ends
      (fun r => Failed s d (Mm.totalPages len) r.2 ∨ Done s d (Mm.totalPages len) r)
      (fun st => Failed s d (Mm.totalPages len) (Mm.MmapState.mm st) ∨
        (0 + 1024 < 768 ∧ Walk s d (Mm.totalPages len) (startPage (0 + 1024)) st))
      (Loop.forRange (Mm.sysMmapTable d (Mm.totalPages len)) 0 1024 ⟨s.mm, 0, 0⟩) := by
    refine Loop.forRange_rule (I := fun i st => Failed s d (Mm.totalPages len) st.mm ∨
      (i < 768 ∧ Walk s d (Mm.totalPages len) (startPage i) st)) ?_ ?_
    · rintro i st - - (hfail | ⟨hi, hwalk⟩)
      · exact hfail.table.mono (fun _ hr => .inl hr) (fun _ hr => .inl hr)
      · refine (table_ends (.inr hwalk) hd hi).mono (fun _ hr => hr) fun st' hst => ?_
        refine hst.imp_right fun hw => ⟨?_, hw⟩
        by_contra hge
        obtain rfl : i = 767 := by omega
        have hend : startPage (767 + 1) = 768 * 1024 := rfl
        rw [hend] at hw
        have h₁ := hw.mapped
        have h₂ := hw.lt
        omega
    · refine .inr ⟨by omega, Filled.start h d, ?_, hlen, fun h => absurd rfl h⟩
      simp [startPage, holes, Nat.count_succ]
  rw [Mm.sysMmap]
  generalize Loop.forRange (Mm.sysMmapTable d (Mm.totalPages len)) 0 1024 ⟨s.mm, 0, 0⟩ = x at hloop
  cases x with
  | inl r => exact hloop
  | inr st => exact .inl (hloop.resolve_right fun h => absurd h.1 (by omega))

end Sys

end AlphaOS
