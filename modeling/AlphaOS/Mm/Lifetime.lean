import AlphaOS.Mm.Runs
import AlphaOS.Mm.Unmapping

set_option relaxedAutoImplicit false
set_option autoImplicit false

/-!
# The life of an address space

A task's address space is made by `mmap_ring3`, grows and shrinks by `sys_mmap` and `sys_munmap`,
and is given back by `unmmap_ring3`. The frames taken since it was made are at all times exactly the
frames at its places, and `unmmap_ring3` frees each of these once, so the bitmap is in the end what
it was.

## Main definitions

* `AlphaOS.Mm.unmmapRing3Frees` — the frames that `unmmap_ring3` passes to `pmm_free`, in order.
* `AlphaOS.Sys.Call`, `AlphaOS.Sys.Provides` — the calls of a task, and what they are given.

## Main results

* `AlphaOS.Sys.Inv.frees_spec` — what `unmmap_ring3` frees.
* `AlphaOS.Sys.Holds.call` — a call of the task gives and takes frames of the task only.
* `AlphaOS.Sys.Running.returned` — nothing is left of a task.

## Design

The record of the frees is not in the source: `unmmapRing3Frees` runs the same loops with a list
beside the state, to which every call of `pmm_free` adds its frame.
-/

namespace AlphaOS

namespace Mm

variable {s : Mm} {pd i j table : ℕ}

/-! ## The frees of `unmmap_ring3` -/

/-- What `freeUserPage` frees. -/
def freesOfPage (s : Mm) (table j : ℕ) : List ℕ :=
  if table &&& 0x001 ≠ 0 ∧ s.readEntry table j ≠ 0 then
    [(s.readEntry table j &&& pageMask) / 4096]
  else []

/-- What `freeUserTable` frees. -/
def freesOfTable (s : Mm) (pd i j table : ℕ) : List ℕ :=
  if 1024 ≤ j + 1 ∧ s.readEntry pd i &&& 0x001 ≠ 0 then [(table &&& pageMask) / 4096] else []

/-- `unmmapRing3Page` with the record of the frees. -/
def unmmapRing3PageLog (pd i j : ℕ) (x : Mm × List ℕ) : Mm × List ℕ :=
  (unmmapRing3Page pd i j x.1, x.2 ++ freesOfPage x.1 (x.1.readEntry pd i) j ++
    freesOfTable (x.1.freeUserPage (x.1.readEntry pd i) j) pd i j (x.1.readEntry pd i))

/-- `unmmapRing3Table` with the record of the frees. -/
def unmmapRing3TableLog (pd i : ℕ) (x : Mm × List ℕ) : Mm × List ℕ :=
  if i = 0 then Loop.forEach (unmmapRing3PageLog pd i) 1 1023 x
  else Loop.forEach (unmmapRing3PageLog pd i) 0 1024 x

/-- The frames that `unmmap_ring3` passes to `pmm_free`, in order. -/
def unmmapRing3Frees (s : Mm) (pd : ℕ) : List ℕ :=
  (Loop.forEach (unmmapRing3TableLog pd) 0 768 (s, [])).2 ++ [(pd &&& pageMask) / 4096]

/-- The record does not change what the loops do. -/
lemma unmmapRing3TableLog_fst (x : Mm × List ℕ) :
    (unmmapRing3TableLog pd i x).1 = unmmapRing3Table pd i x.1 := by
  rw [unmmapRing3TableLog, unmmapRing3Table]
  split_ifs
  · exact Loop.forEach_proj Prod.fst (fun _ _ => rfl) 1 1023 x
  · exact Loop.forEach_proj Prod.fst (fun _ _ => rfl) 0 1024 x

/-- The loop with the record is the loop. -/
lemma unmmapRing3Log_fst (s : Mm) (pd n : ℕ) :
    (Loop.forEach (unmmapRing3TableLog pd) 0 n (s, [])).1 =
      Loop.forEach (unmmapRing3Table pd) 0 n s := by
  refine Loop.forEach_proj Prod.fst (fun k y => ?_) 0 n (s, [])
  exact unmmapRing3TableLog_fst y

end Mm

namespace Sys

variable {b s₀ s s' : Sys} {d i j f g p addr len N : ℕ} {q : Place} {log : List ℕ}

/-! ## Each frame is freed once -/

/-- The frees so far: no frame twice, the frames at the places of the task that have been cleared,
and these are the bits that have been cleared. -/
structure Tally (s₀ : Sys) (d : ℕ) (s : Sys) (log : List ℕ) : Prop where
  nodup : log.Nodup
  mem : ∀ f, f ∈ log ↔ ∃ pl : Place, pl.OfTask d ∧ s₀.own pl = some f ∧ s.own pl = none
  kept : ∀ {pl : Place}, pl.OfTask d → s.own pl = s₀.own pl ∨ s.own pl = none
  used : ∀ f, s.mm.used f ↔ s₀.mm.used f ∧ f ∉ log

/-- At the start nothing has been freed. -/
lemma Tally.start (s : Sys) (d : ℕ) : Tally s d s [] := by
  refine ⟨List.nodup_nil, fun f => ?_, fun _ => .inl rfl, fun f => by simp⟩
  refine ⟨fun hf => absurd hf List.not_mem_nil, fun ⟨pl, _, hf, hnone⟩ => ?_⟩
  rw [hf] at hnone
  exact absurd hnone (by simp)

/-- The temporary mapping does not matter. -/
lemma Tally.tmp (h : Tally s₀ d s log) (e : ℕ) :
    Tally s₀ d (s.withMm { s.mm with tmpPte := e }) log := by
  have hown : (s.withMm { s.mm with tmpPte := e }).own = s.own := own_congr rfl rfl rfl
  refine ⟨h.nodup, ?_, ?_, h.used⟩
  · rw [hown]
    exact h.mem
  · rw [hown]
    exact h.kept

/-- **One more place is cleared**, and its frame freed if there is one. -/
lemma Tally.freed (h : Tally s₀ d s log) (hinv : Inv s₀) (hq : q.OfTask d)
    (hf : Freed d q s s') : Tally s₀ d s' (log ++ (s.own q).toList) := by
  have hown (r : Place) : s'.own r = if r = q then none else s.own r := by
    rw [hf.own, Function.update_apply]
  cases ho : s.own q with
  | none =>
    have hsame : s'.own = s.own := by
      funext r
      rw [hown]
      split_ifs with hr
      · rw [hr, ho]
      · rfl
    have hused (g : ℕ) : s'.mm.used g ↔ s.mm.used g := by
      rw [hf.used, ho]
      simp
    rw [Option.toList_none, List.append_nil]
    refine ⟨h.nodup, ?_, ?_, fun g => (hused g).trans (h.used g)⟩
    · rw [hsame]
      exact h.mem
    · rw [hsame]
      exact h.kept
  | some f =>
    have hold : s₀.own q = some f := by
      rcases h.kept hq with he | he
      · rw [← he, ho]
      · rw [ho] at he
        exact absurd he (by simp)
    have hnew : f ∉ log := by
      rw [h.mem]
      rintro ⟨r, hr, hrf, hnone⟩
      rw [hinv.sound.inj hrf hold, ho] at hnone
      exact absurd hnone (by simp)
    rw [Option.toList_some]
    refine ⟨?_, fun g => ?_, fun {r} hr => ?_, fun g => ?_⟩
    · exact h.nodup.append (List.nodup_singleton f) (by simpa using hnew)
    · rw [List.mem_append, List.mem_singleton]
      constructor
      · rintro (hg | rfl)
        · obtain ⟨r, hr, hrg, hnone⟩ := (h.mem g).mp hg
          exact ⟨r, hr, hrg, by rw [hown, hnone, ite_self]⟩
        · exact ⟨q, hq, hold, by rw [hown, if_pos rfl]⟩
      · rintro ⟨r, hr, hrg, hnone⟩
        by_cases hrq : r = q
        · rw [hrq, hold, Option.some.injEq] at hrg
          exact .inr hrg.symm
        · rw [hown, if_neg hrq] at hnone
          exact .inl ((h.mem g).mpr ⟨r, hr, hrg, hnone⟩)
    · rw [hown]
      split_ifs
      · exact .inr rfl
      · exact h.kept hr
    · rw [hf.used, h.used, ho, List.mem_append, List.mem_singleton, ne_eq, Option.some.injEq,
        eq_comm (a := f)]
      exact ⟨fun hu => ⟨hu.1.1, fun hm => hm.elim hu.1.2 hu.2⟩,
        fun hu => ⟨⟨hu.1, fun hm => hu.2 (.inl hm)⟩, fun he => hu.2 (.inr he)⟩⟩

/-- An iteration meets a page to free exactly at the mapped pages of the task. -/
lemma Inv.pageMet_iff (h : Inv s) (hj : j < 1024) :
    (s.tableEntry (.task d) i &&& 0x001 ≠ 0 ∧ s.mm.readEntry (s.tableEntry (.task d) i) j ≠ 0) ↔
      s.own (.page (.task d) i j) ≠ none := by
  constructor
  · rintro ⟨hpresent, hne⟩
    have ht : s.tableEntry (.task d) i ≠ 0 := fun hz => hpresent (by rw [hz]; rfl)
    rw [h.readEntry_table ht hj] at hne
    exact fun hnone => hne (frameOf_eq_none.mp hnone)
  · intro hown
    have ht : s.tableEntry (.task d) i ≠ 0 :=
      fun hz => hown (frameOf_eq_none.mpr (if_pos (.inl hz)))
    refine ⟨and_present (h.tables ht), fun hz => hown (frameOf_eq_none.mpr ?_)⟩
    rwa [h.readEntry_table ht hj] at hz

/-- The last iteration over a table meets it exactly when there is one. -/
lemma Inv.tableMet_iff (h : Inv s) :
    s.tableEntry (.task d) i &&& 0x001 ≠ 0 ↔ s.own (.table (.task d) i) ≠ none := by
  constructor
  · intro hpresent hnone
    exact hpresent (by rw [frameOf_eq_none.mp hnone]; rfl)
  · exact fun hown => and_present (h.tables fun hz => hown (frameOf_eq_none.mpr hz))

/-- The page part of an iteration frees the frame of its page. -/
lemma Inv.freesOfPage_eq (h : Inv s) (hj : j < 1024) :
    s.mm.freesOfPage (s.tableEntry (.task d) i) j = (s.own (.page (.task d) i j)).toList := by
  rw [Mm.freesOfPage]
  split_ifs with hc
  · have ht : s.tableEntry (.task d) i ≠ 0 := fun hz => hc.1 (by rw [hz]; rfl)
    obtain ⟨f, hf⟩ := Option.ne_none_iff_exists'.mp ((h.pageMet_iff hj).mp hc)
    have hdiv := (frameOf_eq_some.mp hf).2
    have hlt := h.frame_lt hf
    rw [h.readEntry_table ht hj, mask_div (by omega), hdiv, hf, Option.toList_some]
  · have hnone : s.own (.page (.task d) i j) = none := by
      by_contra hown
      exact hc ((h.pageMet_iff hj).mpr hown)
    rw [hnone, Option.toList_none]

/-- The table part of the last iteration frees the frame of its table. -/
lemma Inv.freesOfTable_eq (h : Inv s) (hd : d ∈ s.dirs) (hi : i < 768) :
    s.mm.freesOfTable d i 1023 (s.tableEntry (.task d) i) =
      (s.own (.table (.task d) i)).toList := by
  rw [Mm.freesOfTable, h.readEntry_dir hd hi]
  split_ifs with hc
  · have ht : s.tableEntry (.task d) i ≠ 0 := fun hz => hc.2 (by rw [hz]; rfl)
    rw [mask_div (h.tableEntry_lt _ _), own_table ht, Option.toList_some]
  · have hnone : s.own (.table (.task d) i) = none := by
      by_contra hown
      exact hc ⟨Nat.le_refl _, h.tableMet_iff.mpr hown⟩
    rw [hnone, Option.toList_none]

/-- **An iteration keeps the tally.** -/
lemma Tally.page (ht : Tally s₀ d s log) (h : Dying s₀ d i j s) (hinv : Inv s₀) (hd : d ∈ s.dirs)
    (hi : i < 768) (hj : j < 1024) :
    Tally s₀ d (s.withMm (Mm.unmmapRing3Page d i j s.mm))
      (Mm.unmmapRing3PageLog d i j (s.mm, log)).2 := by
  rw [Mm.unmmapRing3PageLog, Mm.unmmapRing3Page, h.inv.readEntry_dir hd hi,
    h.inv.freesOfPage_eq hj]
  obtain ⟨hpage, -, hentry, htab⟩ := h.parts hd hi hj rfl
  generalize s.mm.freeUserPage (s.tableEntry (.task d) i) j = m at hpage hentry htab ⊢
  have hmid := ht.freed hinv (q := .page (.task d) i j) rfl hpage
  by_cases hlast : j = 1023
  · have htable := htab hlast
    subst hlast
    have hfrees : m.freesOfTable d i 1023 (s.tableEntry (.task d) i) =
        ((s.withMm m).own (.table (.task d) i)).toList := by
      rw [hentry]
      exact hpage.inv.freesOfTable_eq hd hi
    rw [hfrees]
    exact hmid.freed hinv (q := .table (.task d) i) rfl htable
  · rw [Mm.freeUserTable, if_neg (by omega), Mm.freesOfTable, if_neg (by omega), List.append_nil]
    exact hmid.tmp 0

/-- **The inner loop keeps the tally.** -/
lemma Tally.table (ht : Tally s₀ d s log) (h : Dying s₀ d i 0 s) (hinv : Inv s₀) (hd : d ∈ s₀.dirs)
    (hi : i < 768) :
    Dying s₀ d (i + 1) 0 (s.withMm (Mm.unmmapRing3TableLog d i (s.mm, log)).1) ∧
      Tally s₀ d (s.withMm (Mm.unmmapRing3TableLog d i (s.mm, log)).1)
        (Mm.unmmapRing3TableLog d i (s.mm, log)).2 := by
  have hdirs : s.dirs = s₀.dirs := h.confined.dirs
  have hloop (lo n : ℕ) (hn : lo + n = 1024) (h : Dying s₀ d i lo s) {x : Mm × List ℕ}
      (hx : x = Loop.forEach (Mm.unmmapRing3PageLog d i) lo n (s.mm, log)) :
      Dying s₀ d i 1024 (s.withMm x.1) ∧ Tally s₀ d (s.withMm x.1) x.2 := by
    have hend : Dying s₀ d i (lo + n) (s.withMm x.1) ∧ Tally s₀ d (s.withMm x.1) x.2 := by
      rw [hx]
      refine Loop.forEach_rule
        (I := fun j (y : Mm × List ℕ) => Dying s₀ d i j (s.withMm y.1) ∧
          Tally s₀ d (s.withMm y.1) y.2) ?_ ⟨h, ht⟩
      intro j y _ h₂ hI
      exact ⟨hI.1.page (s := s.withMm y.1) (hdirs ▸ hd) hi (by omega),
        hI.2.page (s := s.withMm y.1) hI.1 hinv (hdirs ▸ hd) hi (by omega)⟩
    rwa [hn] at hend
  rw [Mm.unmmapRing3TableLog]
  split_ifs with hz
  · subst hz
    exact (hloop 1 1023 rfl h.second rfl).imp_left Dying.next
  · exact (hloop 0 1024 rfl h rfl).imp_left Dying.next

/-- **The outer loop keeps the tally.** -/
lemma Inv.tally_tables (h : Inv s) (hd : d ∈ s.dirs) {n : ℕ} (hn : n ≤ 768) {x : Mm × List ℕ}
    (hx : x = Loop.forEach (Mm.unmmapRing3TableLog d) 0 n (s.mm, [])) :
    Dying s d n 0 (s.withMm x.1) ∧ Tally s d (s.withMm x.1) x.2 := by
  have hstart : Dying s d 0 0 s :=
    ⟨h, .refl d s, fun hi => by omega, fun hj => absurd hj (Nat.not_lt_zero _)⟩
  have hend : Dying s d (0 + n) 0 (s.withMm x.1) ∧ Tally s d (s.withMm x.1) x.2 := by
    rw [hx]
    refine Loop.forEach_rule
      (I := fun i (y : Mm × List ℕ) => Dying s d i 0 (s.withMm y.1) ∧ Tally s d (s.withMm y.1) y.2)
      ?_ ⟨hstart, .start s d⟩
    intro i y _ h₂ hI
    exact hI.2.table (s := s.withMm y.1) hI.1 h hd (by omega)
  rwa [Nat.zero_add] at hend

/-- **What `unmmap_ring3` frees**: every frame of the task, each once, and no other; and these are
the bits it clears.

**Proof sketch.** The loops clear every table and every page of the task, so their record has the
frames of all places but the directory; the directory comes last. -/
lemma Inv.frees_spec (h : Inv s) (hd : d ∈ s.dirs) :
    (s.mm.unmmapRing3Frees d).Nodup ∧
      (∀ f, f ∈ s.mm.unmmapRing3Frees d ↔ ∃ pl : Place, pl.OfTask d ∧ s.own pl = some f) ∧
      ∀ f, (s.mm.unmmapRing3 d).used f ↔ s.mm.used f ∧ f ∉ s.mm.unmmapRing3Frees d := by
  obtain ⟨x, hx⟩ : ∃ x, x = Loop.forEach (Mm.unmmapRing3TableLog d) 0 768 (s.mm, []) := ⟨_, rfl⟩
  have hend := h.tally_tables hd (Nat.le_refl 768) hx
  rw [Mm.unmmapRing3Frees, Mm.unmmapRing3, ← Mm.unmmapRing3Log_fst, ← hx, Mm.pmmFree_one,
    mask_div (h.dir_lt hd)]
  obtain ⟨hdying, htally⟩ := hend
  have hdir : (s.withMm x.1).own (.dir d) = some (d / 4096) := own_dir hd
  have hlast : d / 4096 ∉ x.2 := by
    rw [htally.mem]
    rintro ⟨pl, hpl, hown, hnone⟩
    rw [h.sound.inj hown (own_dir hd), hdir] at hnone
    exact absurd hnone (by simp)
  have hcleared {pl : Place} (hpl : pl.OfTask d) (hne : pl ≠ .dir d) :
      (s.withMm x.1).own pl = none := by
    have htable (i : ℕ) : (s.withMm x.1).own (.table (.task d) i) = none := by
      rcases Nat.lt_or_ge i 768 with hi | hi
      · exact hdying.tables (.inl (by omega))
      · exact frameOf_eq_none.mpr (if_neg fun hc => absurd hc.2 (by omega))
    cases pl with
    | dir d' =>
      obtain rfl : d' = d := hpl
      exact absurd rfl hne
    | table sp i =>
      obtain rfl : sp = .task d := hpl
      exact htable i
    | page sp i j =>
      obtain rfl : sp = .task d := hpl
      exact frameOf_eq_none.mpr (if_pos (.inl (frameOf_eq_none.mp (htable i))))
  refine ⟨?_, fun f => ?_, fun f => ?_⟩
  · exact htally.nodup.append (List.nodup_singleton _) (by simpa using hlast)
  · rw [List.mem_append, List.mem_singleton, htally.mem]
    constructor
    · rintro (⟨pl, hpl, hown, -⟩ | rfl)
      · exact ⟨pl, hpl, hown⟩
      · exact ⟨.dir d, rfl, own_dir hd⟩
    · rintro ⟨pl, hpl, hown⟩
      by_cases hne : pl = .dir d
      · rw [hne, own_dir hd, Option.some.injEq] at hown
        exact .inr hown.symm
      · exact .inl ⟨pl, hpl, hown, hcleared hpl hne⟩
  · have hused := htally.used f
    rw [withMm_mm] at hused
    rw [Mm.used_release, hused, List.mem_append, List.mem_singleton]
    exact ⟨fun hu => ⟨hu.2.1, fun hm => hm.elim hu.2.2 hu.1⟩,
      fun hu => ⟨fun he => hu.2 (.inr he), hu.1, fun hm => hu.2 (.inl hm)⟩⟩

/-! ## The calls of a task -/

/-- A frame of the task before the walk is at the same place after it. -/
lemma Filled.own_stays (hf : Filled s d p s') (hq : q.OfTask d) (hg : s.own q = some g) :
    s'.own q = some g := by
  cases q with
  | dir d' => rw [← hg, own, own, hf.confined.dirs]
  | table sp i =>
    obtain rfl : sp = .task d := hq
    rcases hf.table i with hsame | ⟨hnone, -⟩
    · rw [hsame, hg]
    · rw [hnone] at hg
      exact absurd hg (by simp)
  | page sp i j =>
    obtain rfl : sp = .task d := hq
    have hplace := place_eq_userPage hg
    rw [hplace] at hg ⊢
    rw [hf.same (.inr (by rw [Hole, hg]; simp)), hg]

/-- A frame of the task after the walk was at the same place, or was free. -/
lemma Filled.own_new (hf : Filled s d p s') (hq : q.OfTask d) (hg : s'.own q = some g) :
    s.own q = some g ∨ ¬ s.mm.used g := by
  cases q with
  | dir d' =>
    left
    rw [← hg, own, own, hf.confined.dirs]
  | table sp i =>
    obtain rfl : sp = .task d := hq
    rcases hf.table i with hsame | ⟨-, t, ht, hfree⟩
    · exact .inl (hsame.symm.trans hg)
    · rw [ht, Option.some.injEq] at hg
      exact .inr (hg ▸ hfree)
  | page sp i j =>
    obtain rfl : sp = .task d := hq
    have hplace := place_eq_userPage hg
    rw [hplace] at hg ⊢
    generalize i * 1024 + j = r at hg ⊢
    by_cases hold : p ≤ r ∨ ¬ s.Hole d r
    · exact .inl ((hf.same hold).symm.trans hg)
    · rw [not_or, not_le, not_not] at hold
      rcases Nat.eq_zero_or_pos r with rfl | hpos
      · exact absurd ((hf.inv.null d).symm.trans hg) (by simp)
      · obtain ⟨f, hown, hfree⟩ := hf.fresh hpos hold.1 hold.2
        rw [hown, Option.some.injEq] at hg
        exact .inr (hg ▸ hfree)

/-- The frames that were in use before the task was made are alien to it. -/
lemma Holds.alien (h : Holds b d s) (hg : b.mm.used g) : s.Alien d g :=
  ⟨(h.used g).mpr (.inl hg), fun _ hq he => h.fresh hq he hg⟩

/-- **A walk of `sys_mmap` takes frames for the task only.** -/
lemma Holds.filled (h : Holds b d s) (hf : Filled s d p s') : Holds b d s' := by
  refine ⟨fun g => ⟨fun hg => ?_, fun hg => ?_⟩, fun {q g} hq hg hu => ?_, fun {g} hg => ?_,
    hf.confined.kernel.trans h.kernel⟩
  · rcases hf.grown hg with hu | hnew
    · exact ((h.used g).mp hu).imp_right fun ⟨q, hq, hown⟩ => ⟨q, hq, hf.own_stays hq hown⟩
    · exact .inr hnew
  · rcases hg with hg | ⟨q, -, hown⟩
    · exact hf.used ((h.used g).mpr (.inl hg))
    · exact hf.inv.sound.used_of_own hown
  · rcases hf.own_new hq hg with hold | hfree
    · exact h.fresh hq hold hu
    · exact hfree ((h.used g).mpr (.inl hu))
  · exact (hf.confined.alien (h.alien hg)).2.trans (h.mem hg)

/-- **`sys_munmap` on mapped pages gives back frames of the task only.** -/
lemma Holds.emptied {c : ℕ} (h : Holds b d s) (he : Emptied s d addr c s') :
    Holds b d s' := by
  have hown {q : Place} {g : ℕ} (hg : s'.own q = some g) : s.own q = some g := by
    by_cases hq : ∃ k < c, q = visited d addr k
    · obtain ⟨k, hk, rfl⟩ := hq
      exact absurd ((he.cleared hk).symm.trans hg) (by simp)
    · exact (he.same fun k hk heq => hq ⟨k, hk, heq⟩).symm.trans hg
  refine ⟨fun g => ⟨fun hg => ?_, fun hg => ?_⟩, fun {q g} hq hg => h.fresh hq (hown hg),
    fun {g} hg => ?_, he.confined.kernel.trans h.kernel⟩
  · obtain ⟨hu, hnot⟩ := (he.used g).mp hg
    refine ((h.used g).mp hu).imp_right fun ⟨q, hq, hqg⟩ => ⟨q, hq, ?_⟩
    rw [he.same fun k hk heq => hnot k hk (heq ▸ hqg), hqg]
  · rcases hg with hg | ⟨q, -, hqg⟩
    · refine (he.used g).mpr ⟨(h.used g).mpr (.inl hg), fun k _ hk => ?_⟩
      exact h.fresh (p := visited d addr k) rfl hk hg
    · exact he.inv.sound.used_of_own hqg
  · exact (he.confined.alien (h.alien hg)).2.trans (h.mem hg)

/-- The calls of a task that change its address space. -/
inductive Call
  /-- `sys_mmap(_, len)`. -/
  | mmap (len : ℕ)
  /-- `sys_munmap(addr, len)`. -/
  | munmap (addr len : ℕ)

/-- The call as an event of the memory system. -/
def Call.event (d : ℕ) : Call → Event
  | .mmap len => .sysMmap d len
  | .munmap addr len => .sysMunmap d addr len

/-- What a call is given: `sys_mmap` a positive length with enough frames and user pages,
`sys_munmap` a range of mapped pages of the user half inside one page table. -/
def Provides (d : ℕ) (s : Sys) : Call → Prop
  | .mmap len => 0 < len ∧ s.Enough d ((len + 4095) / 4096)
  | .munmap addr len => addr < 2 ^ 32 ∧ pteIndex addr + (len + 4095) / 4096 ≤ 1024 ∧
      s.MappedRange d (addr / 4096) ((len + 4095) / 4096)

/-- A call of the task. -/
def CallStep (d : ℕ) (s : Sys) (c : Call) (s' : Sys) : Prop := s' = s.exec (c.event d)

/-- While the task runs, the invariant holds and the task holds the frames taken since `b`. -/
structure Running (b : Sys) (d : ℕ) (s : Sys) : Prop where
  inv : Inv s
  mem : d ∈ s.dirs
  holds : Holds b d s

/-- **Every call of the task keeps it so.** -/
lemma Running.call {c : Call} (h : Running b d s) (hc : Provides d s c) (hs : CallStep d s c s') :
    Running b d s' := by
  obtain rfl : s' = s.exec (c.event d) := hs
  cases c with
  | mmap len =>
    obtain ⟨hlen, henough⟩ := hc
    rw [← totalPages_eq] at henough
    obtain ⟨p, -, -, hf, -⟩ := h.inv.sysMmap_of_enough h.mem hlen henough
    exact ⟨hf.inv, hf.confined.dirs ▸ h.mem, h.holds.filled hf⟩
  | munmap addr len =>
    obtain ⟨haddr, hin, hm⟩ := hc
    have he := sysMunmap_spec h.inv h.mem (hm.clears haddr (.inr hin))
    exact ⟨he.inv, he.confined.dirs ▸ h.mem, h.holds.emptied he⟩

/-! ## Nothing is left -/

/-- What `unmmap_ring3` makes of an address space that was made in `s`, when it is called in `s'`
and returns with memory `m`: the bitmap is what it was, each frame of the task has been freed once
and no other frame, and the kernel's page directory and page tables are what they were. -/
structure Returned (d : ℕ) (s s' : Sys) (m : Mm) : Prop where
  bitmap : m.bitmap = s.mm.bitmap
  once : (s'.mm.unmmapRing3Frees d).Nodup
  frees : ∀ f, f ∈ s'.mm.unmmapRing3Frees d ↔ ∃ q : Place, q.OfTask d ∧ s'.own q = some f
  directory : m.kernelPageDirectory = s.mm.kernelPageDirectory
  tables : ∀ i j, 768 ≤ i → i < 1024 → s.mm.kernelPageDirectory i ≠ 0 →
    m.mem (s.mm.kernelPageDirectory i / 4096) j = s.mm.mem (s.mm.kernelPageDirectory i / 4096) j

/-- **Nothing is left of a task** that runs, when the loops of `unmmap_ring3` have come to their
end.

**Proof sketch.** The frames taken since `mmap_ring3` are at all times the frames at the places of
the task. The loops of `unmmap_ring3` go through these places and free the frame of each. -/
lemma Running.returned (h : Running s d s') (hinv : Inv s) :
    Returned d s s' (s'.mm.unmmapRing3 d) := by
  obtain ⟨honce, hfrees, hused⟩ := h.inv.frees_spec h.mem
  have hgone := h.inv.unmmapRing3 h.mem
  refine ⟨Mm.bitmap_ext fun f => ?_, honce, hfrees, hgone.kernel.trans h.holds.kernel,
    fun i j hi hi' hne => ?_⟩
  · rw [hused, hfrees, h.holds.used]
    constructor
    · rintro ⟨hu | hq, hnot⟩
      · exact hu
      · exact absurd hq hnot
    · intro hu
      refine ⟨.inl hu, ?_⟩
      rintro ⟨q, hq, hown⟩
      exact h.holds.fresh hq hown hu
  · have hu := (hinv.alien_kernelTable (d := d) hi hi' hne).1
    have hloop := ((h.inv.unmmapRing3Tables h.mem).confined.alien (h.holds.alien hu)).2
    have hfree : ∀ (m : Mm) (a : ℕ), (m.pmmFree a 1).mem = m.mem := fun _ _ => rfl
    have hmem : (s'.mm.unmmapRing3 d).mem (s.mm.kernelPageDirectory i / 4096) =
        s'.mm.mem (s.mm.kernelPageDirectory i / 4096) := by
      rw [Mm.unmmapRing3, hfree, ← hloop, withMm_mm]
    rw [hmem, h.holds.mem hu]

/-- **A task runs** after `mmap_ring3` in a reachable state with four free frames, and any sequence
of its calls of `sys_mmap` and `sys_munmap` that are given what they need. -/
theorem running_of_calls (h : Transition.Reach Boot Step (fun _ _ => True) s)
    (hfree : 4 ≤ s.mm.freeCount) (code : ℕ → ℕ) (hd : d = (s.mm.mmapRing3 code).1)
    (hrun : Transition.Reach (fun u => u = s.exec (.create code)) (CallStep d) (Provides d) s') :
    Running s d s' := by
  have hinv := inv_of_reach h
  refine hrun.invariant (fun u hu => ?_) fun _ _ _ hI hc hs => hI.call hc hs
  have hnew := hinv.mmapRing3 (hinv.mmapRing3_quiet hfree code)
  rw [← hd] at hnew
  subst hu
  rw [exec, ← hd]
  exact ⟨hnew.inv, hnew.dirs ▸ List.mem_cons_self .., hnew.holds⟩

/-- The first task can be made, and can map 1022 pages. -/
lemma provides_wide : 4 ≤ (bootState.exec (.mmap 1)).mm.freeCount ∧
    Provides firstTask taskState (.mmap 4186112) := by
  have hfree := heapGrown_boot.2.2
  refine ⟨by omega, by omega, ?_⟩
  rw [← totalPages_eq]
  exact enough_wide.1

end Sys

end AlphaOS
