import AlphaOS.Mm.System

set_option relaxedAutoImplicit false
set_option autoImplicit false

/-!
# The regions `sys_mmap` hands out

`sys_mmap` maps the lowest unmapped pages of the caller, wherever they are, and returns the address
of the first. The caller takes the result for the start of one region. It is one exactly when the
lowest unmapped pages follow each other; otherwise the region contains pages that were mapped
before, which may be of a region handed out earlier.

## Main definitions

* `AlphaOS.Session` — the memory system with the pages handed out and not unmapped since.
* `AlphaOS.Sys.Contiguous` — the lowest unmapped pages follow each other.
* `AlphaOS.Session.Fresh` — the region returned is new, mapped, and overlaps no other.

## Main results

* `AlphaOS.Session.fresh_iff_contiguous` — when a call hands out a region of its own.
* `AlphaOS.Session.region_overlaps` — a run after which a call does not.
-/

namespace AlphaOS

/-- The number of the page of an address. -/
def pageNumber (addr : ℕ) : ℕ := pdeIndex addr * 1024 + pteIndex addr

/-- The memory system, with the pages that `sys_mmap` has handed out and that have not been unmapped
since, by task and page number. The record is not in the source. -/
structure Session where
  sys : Sys
  handed : Set (ℕ × ℕ)

namespace Sys

variable {s : Sys} {d p q N k : ℕ}

/-- The place of the page of an address. -/
def placeAt (d addr : ℕ) : Place := .page (.task d) (pdeIndex addr) (pteIndex addr)

/-- The `N` pages from the lowest unmapped one on are unmapped pages of the user half. -/
def Contiguous (s : Sys) (d N : ℕ) : Prop :=
  ∃ q, s.LowestHole d q ∧ q + N ≤ 768 * 1024 ∧ ∀ k < N, s.Hole d (q + k)

/-- The number of a page at its address. -/
lemma pageNumber_mul (hp : p < 768 * 1024) : pageNumber (p * 4096) = p := by
  rw [pageNumber, pdeIndex_eq, pteIndex_eq]
  omega

/-- The place of a page at its address. -/
lemma placeAt_mul (d : ℕ) (hp : p < 1024 * 1024) : placeAt d (p * 4096) = userPage d p := by
  rw [placeAt, userPage, pdeIndex_eq, pteIndex_eq]
  congr 1 <;> omega

/-- The place of an address is that of its page. -/
lemma userPage_pageNumber (d addr : ℕ) : userPage d (pageNumber addr) = placeAt d addr := by
  have := pteIndex_lt addr
  rw [userPage, placeAt, pageNumber]
  congr 1 <;> omega

/-- A user page belongs to its task. -/
lemma ofTask_userPage (d p : ℕ) : (userPage d p).OfTask d := rfl

/-- The lowest unmapped page is unique. -/
lemma LowestHole.unique (h : s.LowestHole d p) (h' : s.LowestHole d q) : p = q := by
  rcases Nat.lt_trichotomy p q with hlt | heq | hlt
  · exact absurd h.2.1 (h'.2.2 p h.1 hlt)
  · exact heq
  · exact absurd h'.2.1 (h.2.2 q h'.1 hlt)

/-- The unmapped pages counted from the lowest one on. -/
lemma LowestHole.holes_add (h : s.LowestHole d q) : ∀ {m : ℕ}, (∀ k < m, s.Hole d (q + k)) →
    s.holes d (q + m) = m := by
  intro m
  induction m with
  | zero =>
    intro _
    exact Nat.count_iff_forall_not.mpr fun r hr hhole => h.2.2 r hhole.1 hr hhole.2
  | succ m ih =>
    intro hall
    have hq := h.1
    rw [← Nat.add_assoc, holes_succ (by omega), ih fun k hk => hall k (by omega),
      if_pos (hall m (by omega))]

/-- A page outside of the user half is not mapped. -/
lemma pageEntry_of_le {i j : ℕ} (hi : 768 ≤ i) : s.pageEntry (.task d) i j = 0 :=
  if_pos (.inl (if_neg fun hc => absurd hc.2 (by omega)))

/-- **A call that finds its pages in one run** maps them all to frames that were free. -/
lemma Done.pages {r : ℕ × Mm} (hdone : Done s d N r) (hq : s.LowestHole d q)
    (hrun : ∀ k < N, s.Hole d (q + k)) (hk : k < N) :
    r.1 = q * 4096 ∧ ∃ f, (s.withMm r.2).own (userPage d (q + k)) = some f ∧ ¬ s.mm.used f := by
  obtain ⟨p, hp₁, hp₂, hfilled, hcount, ⟨q', hq', -, haddr⟩, -⟩ := hdone
  rw [hq'.unique hq] at haddr
  refine ⟨haddr, ?_⟩
  have hlt : q + k < p := by
    by_contra hge
    have h₁ : s.holes d p ≤ s.holes d (q + k) := Nat.count_monotone _ (by omega)
    rw [hq.holes_add fun m hm => hrun m (by omega)] at h₁
    omega
  have hone := hq.1
  exact hfilled.fresh (by omega) hlt (hrun k hk)

end Sys

namespace Session

open Sys

variable {u u' : Session} {d len : ℕ}

/-- The pages handed out after a call. -/
def handedAfter (u : Session) : Event → Set (ℕ × ℕ)
  | .sysMmap d len => u.handed ∪ {x | x.1 = d ∧ ∃ k < Mm.totalPages len,
      x.2 = pageNumber ((u.sys.mm.sysMmap d len).1 + k * 4096)}
  | .sysMunmap d addr len => u.handed \ {x | x.1 = d ∧ ∃ k < Mm.pagesRequired len,
      x.2 = pageNumber addr + k}
  | .destroy d => u.handed \ {x | x.1 = d}
  | _ => u.handed

/-- No region has been handed out at boot. -/
def Init (u : Session) : Prop := Boot u.sys ∧ u.handed = ∅

/-- A call, and the record of the pages handed out. -/
def Step (u : Session) (e : Event) (u' : Session) : Prop :=
  Sys.Step u.sys e u'.sys ∧ u'.handed = u.handedAfter e

/-- The calls of the runs considered: `sys_mmap` finds its pages in one run, and `sys_munmap` is
given a range that begins with a page table or lies inside one. -/
def Orderly (u : Session) : Event → Prop
  | .sysMmap d len => u.sys.Contiguous d (Mm.totalPages len)
  | .sysMunmap _ addr len => pteIndex addr = 0 ∨ pteIndex addr + Mm.pagesRequired len ≤ 1024
  | _ => True

/-- The call `sys_mmap(_, len)` of the task hands out a fresh region: each of its pages was
unmapped, is now mapped present, writable and user to a frame that was free, and is in no region
handed out before. -/
def Fresh (u : Session) (d len : ℕ) : Prop := ∀ k < (len + 4095) / 4096,
  u.sys.own (placeAt d ((u.sys.mm.sysMmap d len).1 + k * 4096)) = none ∧
    (∃ f, (u.sys.exec (.sysMmap d len)).pageEntry (.task d)
        (pdeIndex ((u.sys.mm.sysMmap d len).1 + k * 4096))
        (pteIndex ((u.sys.mm.sysMmap d len).1 + k * 4096)) = entryOf (.task d) f ∧
      ¬ u.sys.mm.used f ∧ (u.sys.exec (.sysMmap d len)).mm.used f) ∧
    (d, pageNumber ((u.sys.mm.sysMmap d len).1 + k * 4096)) ∉ u.handed

/-- The pages handed out are mapped pages of live tasks. -/
structure Backed (u : Session) : Prop where
  inv : Inv u.sys
  live : ∀ {d p}, (d, p) ∈ u.handed → d ∈ u.sys.dirs
  mapped : ∀ {d p}, (d, p) ∈ u.handed → u.sys.own (userPage d p) ≠ none

/-- A change that keeps the pages handed out mapped. -/
lemma Backed.of_mapped (h : Backed u) (hinv : Inv u'.sys) (hhanded : u'.handed ⊆ u.handed)
    (hlive : ∀ {d p}, (d, p) ∈ u'.handed → d ∈ u.sys.dirs → d ∈ u'.sys.dirs)
    (hown : ∀ {d p}, (d, p) ∈ u'.handed → d ∈ u.sys.dirs → u.sys.own (userPage d p) ≠ none →
      u'.sys.own (userPage d p) ≠ none) : Backed u' :=
  ⟨hinv, fun hx => hlive hx (h.live (hhanded hx)),
    fun hx => hown hx (h.live (hhanded hx)) (h.mapped (hhanded hx))⟩

/-- The pages of other tasks stay mapped in a confined change. -/
lemma own_other {s s' : Sys} {d' p : ℕ} (hc : Confined d s s') (hinv : Inv s) (hne : d' ≠ d) :
    s'.own (userPage d' p) = s.own (userPage d' p) :=
  hc.own_eq hinv fun he => hne (Space.task.inj he)

/-- `sys_mmap` in one run of pages keeps the record backed. -/
lemma Backed.sysMmap (h : Backed u) (hcontig : u.sys.Contiguous d (Mm.totalPages len))
    (hd : d ∈ u.sys.dirs) (hinv : Inv (u.sys.exec (.sysMmap d len)))
    (hdone : Done u.sys d (Mm.totalPages len) (u.sys.mm.sysMmap d len)) :
    Backed ⟨u.sys.exec (.sysMmap d len), u.handedAfter (.sysMmap d len)⟩ := by
  obtain ⟨q, hq, hroom, hrun⟩ := hcontig
  have hnew {x : ℕ × ℕ} (hx : x.1 = d ∧ ∃ k < Mm.totalPages len,
      x.2 = pageNumber ((u.sys.mm.sysMmap d len).1 + k * 4096)) :
      x.1 = d ∧ (u.sys.exec (.sysMmap d len)).own (userPage d x.2) ≠ none := by
    obtain ⟨hxd, k, hk, hx⟩ := hx
    obtain ⟨haddr, f, hf, -⟩ := hdone.pages hq hrun hk
    rw [haddr, ← Nat.add_mul, pageNumber_mul (by omega)] at hx
    refine ⟨hxd, ?_⟩
    rw [hx, show (u.sys.exec (.sysMmap d len)).own (userPage d (q + k)) = some f from hf]
    simp
  obtain ⟨p, -, -, hfilled, -⟩ := hdone
  refine ⟨hinv, ?_, ?_⟩
  · rintro d' p' (hx | hx)
    · exact h.live hx
    · exact (hnew hx).1 ▸ hd
  · rintro d' p' (hx | hx)
    · by_cases hdd : d' = d
      · have hmapped := h.mapped hx
        rw [hdd] at hmapped ⊢
        exact (hfilled.same (.inr hmapped)).trans_ne hmapped
      · exact (own_other hfilled.confined h.inv hdd).trans_ne (h.mapped hx)
    · obtain ⟨hdd, hown⟩ := hnew hx
      exact hdd ▸ hown

/-- `sys_munmap` of a range that begins with a page table or lies inside one keeps the record
backed. -/
lemma Backed.sysMunmap {addr : ℕ} (h : Backed u)
    (htable : pteIndex addr = 0 ∨ pteIndex addr + Mm.pagesRequired len ≤ 1024)
    (hempty : Emptied u.sys d addr (Mm.pagesRequired len) (u.sys.exec (.sysMunmap d addr len))) :
    Backed ⟨u.sys.exec (.sysMunmap d addr len), u.handedAfter (.sysMunmap d addr len)⟩ := by
  refine h.of_mapped hempty.inv Set.sdiff_subset (fun _ hd => hd) ?_
  intro d' p hx _ hmapped
  by_cases hdd : d' = d
  · subst hdd
    have hne (k : ℕ) (hk : k < Mm.pagesRequired len) : userPage d' p ≠ visited d' addr k := by
      intro he
      refine hx.2 ⟨rfl, k, hk, ?_⟩
      rw [pageNumber]
      rcases htable with hz | hin
      · obtain ⟨-, h₁, h₂⟩ : d' = d' ∧ p / 1024 = pdeIndex addr + k / 1024 ∧
          p % 1024 = k % 1024 := by
          simpa [userPage, visited, visitedTable, visitedIndex, hz] using he
        omega
      · rw [visited_of_lt (by omega)] at he
        obtain ⟨-, h₁, h₂⟩ : d' = d' ∧ p / 1024 = pdeIndex addr ∧ p % 1024 = pteIndex addr + k := by
          simpa [userPage] using he
        omega
    exact (hempty.same hne).trans_ne hmapped
  · exact (own_other hempty.confined h.inv hdd).trans_ne hmapped

/-- **Every orderly call keeps the record backed.** -/
lemma Backed.step {e : Event} (h : Backed u) (hok : u.Orderly e) (hs : Step u e u') :
    Backed u' := by
  obtain ⟨hstep, hhanded⟩ := hs
  have hinv := h.inv.step hstep
  obtain ⟨hen, hexec, hquiet⟩ := hstep
  obtain ⟨s', handed⟩ := u'
  dsimp only at *
  subst hexec hhanded
  cases e with
  | mmap n =>
    rcases Nat.eq_zero_or_pos n with rfl | hn
    · have hsame : u.sys.exec (.mmap 0) = u.sys := by rw [exec, mmap_zero hquiet]; rfl
      rw [hsame]
      exact h
    · have hstep := (h.inv.mmap hn hquiet).1.step
      exact h.of_mapped hinv subset_rfl (fun _ hd => hd)
        fun _ _ hm => (hstep.own (ofTask_userPage _ _)).trans_ne hm
  | unmmap v n =>
    have hstep := (h.inv.unmmap hen.1 hen.2).step
    exact h.of_mapped hinv subset_rfl (fun _ hd => hd)
      fun _ _ hm => (hstep.own (ofTask_userPage _ _)).trans_ne hm
  | create code =>
    have hnew := h.inv.mmapRing3 hquiet
    refine h.of_mapped hinv subset_rfl (fun _ hd => List.mem_cons_of_mem _ hd) ?_
    intro d p _ hd hm
    have hne : d ≠ (u.sys.mm.mmapRing3 code).1 := fun he => hnew.fresh (he ▸ hd)
    exact (hnew.others hne (ofTask_userPage d p)).trans_ne hm
  | sysMmap d len => exact h.sysMmap hok hen.1 hinv (h.inv.sysMmap hen hquiet)
  | sysMunmap d addr len => exact h.sysMunmap hok (sysMunmap_spec h.inv hen.1 hen.2)
  | destroy d =>
    have hgone := h.inv.unmmapRing3 hen
    refine h.of_mapped hinv Set.sdiff_subset ?_ ?_
    · intro d' p hx hd
      exact h.inv.nodup.mem_erase_iff.mpr ⟨fun he => hx.2 he, hd⟩
    · intro d' p hx _ hm
      exact (hgone.others (fun he => hx.2 he) (ofTask_userPage d' p)).trans_ne hm
  | store f page =>
    refine h.of_mapped hinv subset_rfl (fun _ hd => hd) ?_
    intro d p _ _ hm
    obtain ⟨sp, i, j, hf⟩ := hen
    have hnode : ¬ u.sys.IsNode f := by
      rintro (⟨d, hd⟩ | ⟨sp', i', hi⟩)
      · exact absurd (h.inv.sound.inj hd hf) (by simp)
      · exact absurd (h.inv.sound.inj hi hf) (by simp)
    rw [exec, own_put_of_free hnode]
    exact hm

/-- The state and the record after a call. -/
def after (u : Session) (e : Event) : Session := ⟨u.sys.exec e, u.handedAfter e⟩

/-- The task has its first page and the pages `M` mapped, and at least `n` frames are free. -/
structure Layout (s : Sys) (d n : ℕ) (M : Set ℕ) : Prop where
  inv : Inv s
  mem : d ∈ s.dirs
  holes : ∀ {p}, 1 ≤ p → (s.Hole d p ↔ p ∉ M)
  first : 1 ∈ M
  count : n ≤ s.mm.freeCount

variable {s : Sys} {n p q : ℕ} {M : Set ℕ}

/-- The lowest hole is the lowest page that is not mapped. -/
lemma Layout.lowestHole (h : Layout s d n M) (hq : 1 ≤ q) (hM : q ∉ M)
    (hbelow : ∀ r, 1 ≤ r → r < q → r ∈ M) : s.LowestHole d q :=
  ⟨hq, (h.holes hq).mpr hM, fun r h₁ h₂ hr => (h.holes h₁).mp hr (hbelow r h₁ h₂)⟩

/-- No table is missing below the end of the first. -/
lemma Layout.missing_eq (h : Layout s d n M) : ∀ {p : ℕ}, p ≤ 1024 → s.missing d p = 0 := by
  intro p hp
  refine Nat.count_iff_forall_not.mpr fun r hr hopen => ?_
  have htable : s.own (.table (.task d) (1 / 1024)) = none := by
    rw [show 1 / 1024 = r / 1024 by omega]
    exact hopen.2
  exact (h.holes (Nat.le_refl 1)).mp (hole_of_table htable) h.first

/-- There is enough for one page. -/
lemma Layout.enough_one (h : Layout s d n M) (hn : 0 < n) (hq : s.LowestHole d q) (hlt : q < 1024) :
    s.Enough d (Mm.totalPages 4096) := by
  have hpages : Mm.totalPages 4096 = 1 := by decide
  have hcount := h.count
  refine ⟨q + 1, by omega, ?_, ?_⟩
  · rw [hpages]
    exact hq.holes_add fun k hk => by
      obtain rfl : k = 0 := by omega
      exact hq.2.1
  · rw [hpages, h.missing_eq (by omega)]
    omega

/-- A single page is mapped at the lowest hole, and nowhere else. -/
lemma Done.one {r : ℕ × Mm} (hdone : Done s d 1 r) (hq : s.LowestHole d q) :
    r.1 = q * 4096 ∧ Filled s d (q + 1) (s.withMm r.2) := by
  obtain ⟨p, hp, -, hfilled, hcount, ⟨q', hq', hlt, haddr⟩, hlast⟩ := hdone
  rw [hq'.unique hq] at haddr hlt
  refine ⟨haddr, ?_⟩
  have hqp : q + 1 = p := by
    by_contra hne
    have h₁ : s.holes d (q + 1) = 1 := hq.holes_add fun k hk => by
      obtain rfl : k = 0 := by omega
      exact hq.2.1
    have h₂ : s.holes d (q + 1) ≤ s.holes d (p - 1) := Nat.count_monotone _ (by omega)
    have h₃ := holes_succ (s := s) (d := d) (p := p - 1) (by omega)
    rw [if_pos hlast, show p - 1 + 1 = p by omega] at h₃
    omega
  rw [hqp]
  exact hfilled

/-- **One more page.** -/
lemma Layout.map (h : Layout s d (n + 1) M) (hq : s.LowestHole d q) (hlt : q < 1024) :
    Sys.Step s (.sysMmap d 4096) (s.exec (.sysMmap d 4096)) ∧ (s.mm.sysMmap d 4096).1 = q * 4096 ∧
      Layout (s.exec (.sysMmap d 4096)) d n (insert q M) := by
  have henough := h.enough_one (by omega) hq hlt
  have hpages : Mm.totalPages 4096 = 1 := by decide
  have hdone := h.inv.sysMmap_of_enough h.mem (by omega) henough
  rw [hpages] at hdone
  obtain ⟨haddr, hfilled⟩ := Done.one hdone hq
  have hroom : Mm.totalPages 4096 ≤ s.holes d (768 * 1024) := by
    obtain ⟨p, hp, hcount, -⟩ := henough
    rw [← hcount]
    exact Nat.count_monotone _ hp
  refine ⟨⟨⟨h.mem, by omega, hroom⟩, rfl, hfilled.inv.quiet⟩, haddr, hfilled.inv, h.mem, ?_,
    .inr h.first, ?_⟩
  · intro p hp
    by_cases hpq : p = q
    · obtain ⟨f, hf, -⟩ := hfilled.fresh hq.1 (by omega) hq.2.1
      rw [hpq, Hole, exec, hf]
      simp
    · have hsame := hfilled.same (q := p) (by
        rcases Nat.lt_or_ge p q with hlt | hge
        · exact .inr (hq.2.2 p hp hlt)
        · exact .inl (by omega))
      rw [Hole, exec, hsame, ← Hole, h.holes hp]
      simp [hpq]
  · have hcount := hfilled.count
    have h₁ : s.holes d (q + 1) = 1 := hq.holes_add fun k hk => by
      obtain rfl : k = 0 := by omega
      exact hq.2.1
    rw [h₁, h.missing_eq (by omega)] at hcount
    have := h.count
    rw [exec]
    omega

/-- **One page fewer.** -/
lemma Layout.unmap (h : Layout s d n M) (hp : 1 < p) (hlt : p < 1024) (hM : p ∈ M) :
    Sys.Step s (.sysMunmap d (p * 4096) 4096) (s.exec (.sysMunmap d (p * 4096) 4096)) ∧
      Layout (s.exec (.sysMunmap d (p * 4096) 4096)) d n (M \ {p}) := by
  have hpages : Mm.pagesRequired 4096 = 1 := by decide
  have hplace : visited d (p * 4096) 0 = userPage d p := by
    rw [visited_of_lt (Nat.add_zero _ ▸ pteIndex_lt _), Nat.add_zero]
    exact placeAt_mul d (by omega)
  have hclears : s.Clears d (p * 4096) 4096 := by
    intro k hk
    obtain rfl : k = 0 := by omega
    refine ⟨?_, ?_⟩
    · rw [visitedTable, Nat.zero_div, pdeIndex_eq]
      omega
    · rw [hplace]
      exact fun hhole => (h.holes (by omega)).mp hhole hM
  have hempty := sysMunmap_spec h.inv h.mem hclears
  refine ⟨⟨⟨h.mem, hclears⟩, rfl, hempty.inv.quiet⟩, hempty.inv, h.mem, ?_, ?_,
    h.count.trans hempty.count⟩
  · intro r hr
    by_cases hrp : r = p
    · have hnone := hempty.cleared (k := 0) (by omega)
      rw [hplace] at hnone
      rw [hrp, Hole, exec, hnone]
      simp
    · have hsame := hempty.same (p := userPage d r) fun k hk => by
        obtain rfl : k = 0 := by omega
        rw [hplace]
        exact userPage_ne hrp
      rw [Hole, exec, hsame, ← Hole, h.holes hr]
      simp [hrp]
  · exact ⟨h.first, by simp; omega⟩

/-- A call for one page is orderly, and its page is recorded. -/
lemma Layout.reach_map (h : Layout u.sys d (n + 1) M)
    (hr : Transition.Reach Init Step Orderly u) (hq : u.sys.LowestHole d q) (hlt : q < 1024) :
    Transition.Reach Init Step Orderly (u.after (.sysMmap d 4096)) ∧
      Layout (u.after (.sysMmap d 4096)).sys d n (insert q M) ∧
      (d, q) ∈ (u.after (.sysMmap d 4096)).handed := by
  have hpages : Mm.totalPages 4096 = 1 := by decide
  obtain ⟨hstep, haddr, hlay⟩ := h.map hq hlt
  refine ⟨hr.next (a := .sysMmap d 4096) ⟨q, hq, by omega, fun k hk => ?_⟩ ⟨hstep, rfl⟩, hlay,
    .inr ⟨rfl, 0, by omega, ?_⟩⟩
  · obtain rfl : k = 0 := by omega
    exact hq.2.1
  · rw [haddr, Nat.zero_mul, Nat.add_zero, pageNumber_mul (by omega)]

/-- Unmapping one page is orderly, and removes no other page from the record. -/
lemma Layout.reach_unmap (h : Layout u.sys d n M) (hr : Transition.Reach Init Step Orderly u)
    (hp : 1 < p) (hlt : p < 1024) (hM : p ∈ M) :
    Transition.Reach Init Step Orderly (u.after (.sysMunmap d (p * 4096) 4096)) ∧
      Layout (u.after (.sysMunmap d (p * 4096) 4096)).sys d n (M \ {p}) ∧
      ∀ r, r ≠ p → (d, r) ∈ u.handed →
        (d, r) ∈ (u.after (.sysMunmap d (p * 4096) 4096)).handed := by
  have hpages : Mm.pagesRequired 4096 = 1 := by decide
  obtain ⟨hstep, hlay⟩ := h.unmap hp hlt hM
  have hpte := pteIndex_lt (p * 4096)
  refine ⟨hr.next (a := .sysMunmap d (p * 4096) 4096) ?_ ⟨hstep, rfl⟩, hlay,
    fun r hne hx => ⟨hx, ?_⟩⟩
  · change pteIndex (p * 4096) = 0 ∨ pteIndex (p * 4096) + Mm.pagesRequired 4096 ≤ 1024
    omega
  · rintro ⟨-, k, hk, he⟩
    obtain rfl : k = 0 := by omega
    dsimp only at he
    rw [pageNumber_mul (by omega)] at he
    exact hne he

/-- When page 3 is the only hole below page 5, a call for two pages maps pages 3 and 5. -/
lemma Layout.gap (h : Layout u.sys d n {1, 2, 4}) (hn : 2 ≤ n) (hh : (d, 4) ∈ u.handed) :
    u.sys.Enough d (Mm.totalPages 8192) ∧
      (d, pageNumber ((u.sys.mm.sysMmap d 8192).1 + 1 * 4096)) ∈ u.handed := by
  have hpages : Mm.totalPages 8192 = 2 := by decide
  have hcount := h.count
  have hhole (p : ℕ) (hp : 1 ≤ p) : u.sys.Hole d p ↔ p = 3 ∨ 5 ≤ p := by
    rw [h.holes hp]
    simp only [Set.mem_insert_iff, Set.mem_singleton_iff]
    omega
  have hlow : u.sys.LowestHole d 3 :=
    ⟨by omega, (hhole 3 (by omega)).mpr (.inl rfl), fun r h₁ h₂ hr => by
      have := (hhole r h₁).mp hr
      omega⟩
  have henough : u.sys.Enough d (Mm.totalPages 8192) := by
    refine ⟨6, by omega, ?_, ?_⟩
    · have hone : u.sys.holes d (3 + 1) = 1 := hlow.holes_add fun k hk => by
        obtain rfl : k = 0 := by omega
        exact hlow.2.1
      rw [hpages, holes_succ (by omega), holes_succ (by omega), hone]
      simp [hhole]
    · rw [hpages, h.missing_eq (by omega)]
      omega
  obtain ⟨p, -, -, -, -, ⟨q, hq, -, haddr⟩, -⟩ :=
    h.inv.sysMmap_of_enough h.mem (by omega) henough
  refine ⟨henough, ?_⟩
  rw [haddr, hq.unique hlow, ← Nat.add_mul, pageNumber_mul (by omega)]
  exact hh

/-- The first task after boot. -/
def session₀ : Session := ⟨taskState, ∅⟩

/-- It maps two single pages, which are pages 3 and 4, and unmaps the first of them. -/
def session₃ : Session := ((session₀.after (.sysMmap firstTask 4096)).after
  (.sysMmap firstTask 4096)).after (.sysMunmap firstTask (3 * 4096) 4096)

/-- The layout of the first state. -/
lemma layout₀ : Layout session₀.sys firstTask 3578 {1, 2} := by
  have hnew := created_taskState
  have hcount := heapGrown_boot.2.2
  have hcount' := hnew.count
  refine ⟨hnew.inv, firstTask_mem, fun {p} hp => ?_, .inl rfl, ?_⟩
  · have hpages := not_congr (hnew.pages (i := p / 1024) (j := p % 1024))
    rw [not_not] at hpages
    refine hpages.trans ?_
    simp only [Set.mem_insert_iff, Set.mem_singleton_iff]
    omega
  · change 3578 ≤ taskState.mm.freeCount
    omega

/-- The first state is reachable. -/
lemma reach₀ : Transition.Reach Init Step Orderly session₀ := by
  have hstart : Transition.Reach Init Step Orderly ⟨bootState, ∅⟩ := .start ⟨boot_bootState, rfl⟩
  have hheap : Transition.Reach Init Step Orderly ⟨bootState.exec (.mmap 1), ∅⟩ :=
    hstart.next (a := .mmap 1) trivial ⟨⟨trivial, rfl, heapGrown_boot.2.1⟩, rfl⟩
  exact hheap.next (a := .create fun _ => 0) trivial
    ⟨⟨trivial, rfl, created_taskState.inv.quiet⟩, rfl⟩

/-- The run: pages 3 and 4 are handed out, and page 3 is unmapped. -/
lemma reach₃ : Transition.Reach Init Step Orderly session₃ ∧
    Layout session₃.sys firstTask 3576 {1, 2, 4} ∧ (firstTask, 4) ∈ session₃.handed := by
  have h₀ : session₀.sys.LowestHole firstTask 3 :=
    layout₀.lowestHole (by omega) (by simp) fun r h₁ h₂ => by simp; omega
  obtain ⟨r₁, l₁, -⟩ := layout₀.reach_map reach₀ h₀ (by omega)
  have h₁ := l₁.lowestHole (q := 4) (by omega) (by simp) fun r h₁ h₂ => by simp; omega
  obtain ⟨r₂, l₂, hh⟩ := l₁.reach_map r₁ h₁ (by omega)
  obtain ⟨r₃, l₃, hkeep⟩ := l₂.reach_unmap r₂ (p := 3) (by omega) (by omega) (by simp)
  have hset : insert 4 (insert 3 ({1, 2} : Set ℕ)) \ {3} = {1, 2, 4} := by
    ext x
    simp only [Set.mem_sdiff, Set.mem_insert_iff, Set.mem_singleton_iff]
    omega
  rw [hset] at l₃
  exact ⟨r₃, l₃, hkeep 4 (by omega) hh⟩

end Session

end AlphaOS
