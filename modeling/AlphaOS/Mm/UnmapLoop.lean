import AlphaOS.Mm.Operations

set_option relaxedAutoImplicit false
set_option autoImplicit false

/-!
# What `sys_munmap` does

`sys_munmap` starts at the table and the entry of its address and clears entries until it has
cleared as many as were asked for; in each further table it starts at the same entry again. This
file names the entry it clears as its `k`-th, and proves what the call does when all the entries it
reaches are mapped ones of the user half.

## Main definitions

* `AlphaOS.Sys.visited` — the place of the `k`-th entry the call reaches.
* `AlphaOS.Sys.Clears` — every entry the call reaches is mapped and in the user half.
* `AlphaOS.Sys.Emptied` — what has happened when a number of entries have been cleared.
* `AlphaOS.Sys.Hazard` — a harm that is done at the first entry that is not a good one, and stays
  done.

## Main results

* `AlphaOS.Sys.sysMunmap_spec` — the outcome of the call.
* `AlphaOS.Sys.sysMunmap_course` — the entries reached are all good, or the harm is done.
-/

namespace AlphaOS

/-- Indices are below 1024. -/
lemma pteIndex_lt (addr : ℕ) : pteIndex addr < 1024 :=
  Nat.and_lt_two_pow _ (by decide : 0x3FF < 2 ^ 10)

/-- The index of a directory entry is one. -/
lemma pdeIndex_lt (addr : ℕ) : pdeIndex addr < 1024 :=
  Nat.and_lt_two_pow _ (by decide : 0x3FF < 2 ^ 10)

namespace Sys

variable {s₀ s : Sys} {d addr len c k f : ℕ}

/-- The table of the `k`-th entry the call reaches. -/
def visitedTable (addr k : ℕ) : ℕ := pdeIndex addr + k / (1024 - pteIndex addr)

/-- The index of the `k`-th entry the call reaches. -/
def visitedIndex (addr k : ℕ) : ℕ := pteIndex addr + k % (1024 - pteIndex addr)

/-- The place of the `k`-th entry the call reaches. -/
def visited (d addr k : ℕ) : Place := .page (.task d) (visitedTable addr k) (visitedIndex addr k)

/-- Every entry the call reaches is mapped and in the user half. -/
def Clears (s : Sys) (d addr len : ℕ) : Prop :=
  ∀ k < Mm.pagesRequired len, visitedTable addr k < 768 ∧ s.own (visited d addr k) ≠ none

/-- The index of the entry that is looked at is one. -/
lemma visitedIndex_lt (addr k : ℕ) : visitedIndex addr k < 1024 := by
  have hpte := pteIndex_lt addr
  have := Nat.mod_lt k (by omega : 0 < 1024 - pteIndex addr)
  unfold visitedIndex
  omega

/-- No entry is reached twice. -/
lemma visited_inj {k' : ℕ} (h : visited d addr k = visited d addr k') : k = k' := by
  obtain ⟨-, h₁, h₂⟩ : d = d ∧ visitedTable addr k = visitedTable addr k' ∧
      visitedIndex addr k = visitedIndex addr k' := by simpa [visited] using h
  unfold visitedTable at h₁
  unfold visitedIndex at h₂
  have hdiv := Nat.div_add_mod k (1024 - pteIndex addr)
  have hdiv' := Nat.div_add_mod k' (1024 - pteIndex addr)
  rw [show k / (1024 - pteIndex addr) = k' / (1024 - pteIndex addr) by omega,
    show k % (1024 - pteIndex addr) = k' % (1024 - pteIndex addr) by omega] at hdiv
  omega

/-- The first `c` entries reached by a call of the task, begun in `s₀`, have been cleared, and
nothing else has changed. -/
structure Emptied (s₀ : Sys) (d addr c : ℕ) (s : Sys) : Prop where
  inv : Inv s
  confined : Confined d s₀ s
  cleared : ∀ {k}, k < c → s.own (visited d addr k) = none
  same : ∀ {p}, (∀ k < c, p ≠ visited d addr k) → s.own p = s₀.own p
  count : s₀.mm.freeCount ≤ s.mm.freeCount
  used : ∀ f, s.mm.used f ↔ s₀.mm.used f ∧ ∀ k < c, s₀.own (visited d addr k) ≠ some f
  written : ∀ {f}, s.mm.mem f ≠ s₀.mm.mem f → ∃ i, s₀.own (.table (.task d) i) = some f

/-- At the start nothing has been done. -/
lemma Emptied.start (h : Inv s) (d addr : ℕ) : Emptied s d addr 0 s :=
  ⟨h, .refl d s, fun h => absurd h (Nat.not_lt_zero _), fun _ => rfl, Nat.le_refl _,
    fun _ => ⟨fun hu => ⟨hu, fun k hk => absurd hk (Nat.not_lt_zero k)⟩, And.left⟩,
    fun hne => absurd rfl hne⟩

/-- The temporary mapping does not matter. -/
lemma Emptied.tmp (h : Emptied s₀ d addr c s) (e : ℕ) :
    Emptied s₀ d addr c (s.withMm { s.mm with tmpPte := e }) := by
  have hown : (s.withMm { s.mm with tmpPte := e }).own = s.own := own_congr rfl rfl rfl
  refine ⟨h.inv.tmp e, h.confined.trans (.tmp d s e), ?_, ?_, h.count, h.used, h.written⟩
  · rw [hown]; exact h.cleared
  · rw [hown]; exact h.same

/-- The tables stay where they are. -/
lemma Emptied.tableEntry (h : Emptied s₀ d addr c s) (h₀ : Inv s₀) (i : ℕ) :
    s.tableEntry (.task d) i = s₀.tableEntry (.task d) i := by
  have hown : s.own (.table (.task d) i) = s₀.own (.table (.task d) i) :=
    h.same fun k _ => by simp [visited]
  cases ht : s₀.own (.table (.task d) i) with
  | none => rw [frameOf_eq_none.mp ht, frameOf_eq_none.mp (hown.trans ht)]
  | some t => rw [h₀.tableEntry_eq ht, h.inv.tableEntry_eq (hown.trans ht)]

/-- **One more entry is cleared.** -/
lemma Emptied.clearEntry (h : Emptied s₀ d addr c s) (h₀ : Inv s₀)
    (hmapped : s₀.own (visited d addr c) ≠ none) :
    Emptied s₀ d addr (c + 1) (s.withMm (s.mm.clearEntry
      (s₀.tableEntry (.task d) (visitedTable addr c)) (visitedIndex addr c))) := by
  have hsame : s.own (visited d addr c) = s₀.own (visited d addr c) :=
    h.same fun k hk he => absurd (visited_inj he) (by omega)
  obtain ⟨f, hf⟩ := Option.ne_none_iff_exists'.mp (hsame ▸ hmapped)
  obtain ⟨hne, hdiv⟩ := frameOf_eq_some.mp hf
  obtain ⟨ht, hj⟩ := tableEntry_of_pageEntry hne
  have hmm : s.mm.clearEntry (s₀.tableEntry (.task d) (visitedTable addr c)) (visitedIndex addr c) =
      (s.mm.put (s.tableEntry (.task d) (visitedTable addr c) / 4096) (Function.update
        (s.mm.mem (s.tableEntry (.task d) (visitedTable addr c) / 4096)) (visitedIndex addr c)
        0)).release f := by
    rw [← h.tableEntry h₀, Mm.clearEntry, Mm.writeEntry_eq (h.inv.tableEntry_lt _ _),
      Mm.pmmFree_one, h.inv.readEntry_table ht hj, hdiv]
  obtain ⟨hinv, hown, hconf⟩ := h.inv.clear (own_table ht) hj hf hmm
  refine ⟨hinv, h.confined.trans hconf, ?_, ?_, ?_, ?_, ?_⟩
  · intro k hk
    rw [hown, Function.update_apply]
    split_ifs with hp
    · rfl
    · have hkc : k ≠ c := fun he => hp (he ▸ rfl)
      exact h.cleared (by omega)
  · intro p hp
    rw [hown, ← visited, Function.update_of_ne (hp c (by omega))]
    exact h.same fun k hk => hp k (by omega)
  · rw [withMm_mm, hmm]
    exact h.count.trans (Mm.freeCount_le_release _ f)
  · intro g
    rw [withMm_mm, hmm, Mm.used_release]
    change g ≠ f ∧ s.mm.used g ↔ _
    rw [h.used g]
    constructor
    · rintro ⟨hgf, hu, hk⟩
      refine ⟨hu, fun k hk' he => ?_⟩
      by_cases hkc : k = c
      · rw [hkc, ← hsame, hf, Option.some.injEq] at he
        exact hgf he.symm
      · exact hk k (by omega) he
    · rintro ⟨hu, hk⟩
      refine ⟨fun hgf => hk c (by omega) ?_, hu, fun k hk' => hk k (by omega)⟩
      rw [← hsame, hf, hgf]
  · intro g hg
    by_cases hgt : g = s.tableEntry (.task d) (visitedTable addr c) / 4096
    · refine ⟨visitedTable addr c, ?_⟩
      rw [h.tableEntry h₀] at ht hgt
      rw [hgt]
      exact own_table ht
    · refine h.written (f := g) fun hsame' => hg ?_
      rw [withMm_mm, hmm]
      exact (Function.update_of_ne hgt _ _).trans hsame'

/-! ## The loops -/

/-- What the loops know at entry `j` of table `i`: all entries have been cleared, or those before
this one. -/
structure Sweep (s₀ : Sys) (d addr N i j : ℕ) (st : Mm × ℕ) : Prop where
  emptied : Emptied s₀ d addr st.2 (s₀.withMm st.1)
  le : st.2 ≤ N
  pos : st.2 = N ∨ st.2 = (i - pdeIndex addr) * (1024 - pteIndex addr) + (j - pteIndex addr)

/-- The entry the loops stand at is the next one. -/
lemma Sweep.next {N i j : ℕ} {st : Mm × ℕ} (h : Sweep s₀ d addr N i j st) (hlt : st.2 < N)
    (hi : pdeIndex addr ≤ i) (hj : pteIndex addr ≤ j) (hj' : j < 1024) :
    visitedTable addr st.2 = i ∧ visitedIndex addr st.2 = j := by
  have hw : 0 < 1024 - pteIndex addr := by omega
  have hc := h.pos.resolve_left (by omega)
  have hdiv : st.2 / (1024 - pteIndex addr) = i - pdeIndex addr := by
    rw [hc, Nat.mul_comm, Nat.mul_add_div hw, Nat.div_eq_of_lt (by omega), Nat.add_zero]
  have hmod : st.2 % (1024 - pteIndex addr) = j - pteIndex addr := by
    rw [hc, Nat.mul_comm, Nat.mul_add_mod, Nat.mod_eq_of_lt (by omega)]
  rw [visitedTable, visitedIndex, hdiv, hmod]
  omega

/-- **An iteration** of the inner loop clears the entry it stands at, unless all are cleared. -/
lemma Sweep.page {N i j t : ℕ} {st : Mm × ℕ} (h : Sweep s₀ d addr N i j st) (h₀ : Inv s₀)
    (hmapped : st.2 < N → s₀.own (visited d addr st.2) ≠ none) (hi : pdeIndex addr ≤ i)
    (hj : pteIndex addr ≤ j) (hj' : j < 1024)
    (ht : st.2 < N → t = s₀.tableEntry (.task d) i) :
    Loop.Ends (Sweep s₀ d addr N (i + 1) (pteIndex addr))
      (fun st' => Sweep s₀ d addr N i (j + 1) st' ∧ (st'.2 < N → t = s₀.tableEntry (.task d) i))
      (Mm.sysMunmapPage N t j st) := by
  have hle := h.le
  rw [Mm.sysMunmapPage]
  split_ifs with hN
  · exact ⟨h.emptied, hle, .inl (by omega)⟩
  · have hlt : st.2 < N := by omega
    obtain ⟨hti, hji⟩ := h.next hlt hi hj hj'
    have hnext := h.emptied.clearEntry h₀ (hmapped hlt)
    rw [hti, hji, ← ht hlt] at hnext
    refine ⟨⟨hnext, hlt, .inr ?_⟩, fun _ => ht hlt⟩
    have := h.pos.resolve_left (by omega)
    dsimp only
    omega

/-- **An iteration** of the outer loop clears the entries of one table. -/
lemma Sweep.table {N i : ℕ} {st : Mm × ℕ} (h : Sweep s₀ d addr N i (pteIndex addr) st)
    (h₀ : Inv s₀) (hd : d ∈ s₀.dirs)
    (hclears : ∀ k < N, visitedTable addr k < 768 ∧ s₀.own (visited d addr k) ≠ none)
    (hi : pdeIndex addr ≤ i) :
    Sweep s₀ d addr N (i + 1) (pteIndex addr) (Mm.sysMunmapTable d N (pteIndex addr) i st) := by
  have hpte := pteIndex_lt addr
  have htable : st.2 < N → st.1.readEntry d i = s₀.tableEntry (.task d) i := by
    intro hlt
    have hi768 := (hclears st.2 hlt).1
    rw [(h.next hlt hi (Nat.le_refl _) hpte).1] at hi768
    rw [← h.emptied.tableEntry h₀]
    exact h.emptied.inv.readEntry_dir (s := s₀.withMm st.1) hd hi768
  have hloop := Loop.forRange_rule (n := 1024 - pteIndex addr)
    (I := fun j st' => Sweep s₀ d addr N i j st' ∧
      (st'.2 < N → st.1.readEntry d i = s₀.tableEntry (.task d) i))
    (fun j st' h₁ h₂ h => h.1.page h₀ (fun hlt => (hclears st'.2 hlt).2) hi h₁ (by omega) h.2)
    (s := (st.1.unmapTmpPage, st.2)) ⟨⟨h.emptied.tmp 0, h.le, h.pos⟩, htable⟩
  rw [Mm.sysMunmapTable]
  generalize Loop.forRange (Mm.sysMunmapPage N (st.1.readEntry d i)) (pteIndex addr)
    (1024 - pteIndex addr) (st.1.unmapTmpPage, st.2) = x at hloop
  cases x with
  | inl r => exact hloop
  | inr r =>
    obtain ⟨hr, -⟩ := hloop
    refine ⟨hr.emptied, hr.le, hr.pos.imp_right fun hpos => ?_⟩
    change r.2 = _
    rw [hpos, show i + 1 - pdeIndex addr = i - pdeIndex addr + 1 by omega, Nat.succ_mul]
    omega

/-- **The outcome of `sys_munmap`** when every entry it reaches is a mapped one of the user half:
those entries are cleared. -/
theorem sysMunmap_spec (h : Inv s) (hd : d ∈ s.dirs) (hclears : s.Clears d addr len) :
    Emptied s d addr (Mm.pagesRequired len) (s.withMm (s.mm.sysMunmap d addr len)) := by
  have hpde := pdeIndex_lt addr
  have hpte := pteIndex_lt addr
  have hloop := Loop.forEach_rule (n := 1024 - pdeIndex addr)
    (I := fun i st => Sweep s d addr (Mm.pagesRequired len) i (pteIndex addr) st)
    (fun i st h₁ _ hsweep => hsweep.table h hd hclears h₁) (s := (s.mm, 0))
    ⟨.start h d addr, Nat.zero_le _, .inr (by simp)⟩
  rw [Mm.sysMunmap]
  generalize Loop.forEach (Mm.sysMunmapTable d (Mm.pagesRequired len) (pteIndex addr))
    (pdeIndex addr) (1024 - pdeIndex addr) (s.mm, 0) = st at hloop
  have hall : st.2 = Mm.pagesRequired len := by
    by_contra hne
    have hle := hloop.le
    have hbad := (hclears st.2 (by omega)).1
    have hpos := hloop.pos.resolve_left hne
    rw [show pdeIndex addr + (1024 - pdeIndex addr) - pdeIndex addr = 1024 - pdeIndex addr by omega,
      Nat.sub_self, Nat.add_zero] at hpos
    rw [visitedTable, hpos, Nat.mul_div_cancel _ (by omega)] at hbad
    omega
  rw [← hall]
  exact hloop.emptied

/-! ## Calls that may go wrong -/

/-- A harm `Bad` and the entries `Good` that do not cause it: a good entry is a mapped one of the
user half, clearing the first entry that is not good does the harm, and clearing more entries does
not undo it. -/
structure Hazard (s₀ : Sys) (d addr N : ℕ) (Good : ℕ → Prop) (Bad : Mm → Prop) : Prop where
  mapped : ∀ {k}, k < N → Good k → visitedTable addr k < 768 ∧ s₀.own (visited d addr k) ≠ none
  strays : ∀ {i j} {st : Mm × ℕ}, Sweep s₀ d addr N i j st → st.2 < N → visitedTable addr st.2 = i →
    visitedIndex addr st.2 = j → i < 1024 → ¬ Good st.2 →
    Bad (st.1.clearEntry (s₀.mm.mem (d / 4096) i) j)
  tmp : ∀ {mm : Mm}, Bad mm → Bad mm.unmapTmpPage
  clear : ∀ {mm : Mm} (t j : ℕ), Bad mm → Bad (mm.clearEntry t j)

variable {Good : ℕ → Prop} {Bad : Mm → Prop}

/-- What the loops know at entry `j` of table `i`: all entries reached so far were good, or the harm
is done. -/
def Course (s₀ : Sys) (d addr N : ℕ) (Good : ℕ → Prop) (Bad : Mm → Prop) (i j : ℕ)
    (st : Mm × ℕ) : Prop :=
  Sweep s₀ d addr N i j st ∧ (∀ k < st.2, Good k) ∨ Bad st.1

/-- Once the harm is done an iteration leaves it done. -/
lemma Hazard.page {N j t : ℕ} {st : Mm × ℕ} (hz : Hazard s₀ d addr N Good Bad) (hb : Bad st.1) :
    Loop.Ends (fun st' => Bad st'.1) (fun st' => Bad st'.1) (Mm.sysMunmapPage N t j st) := by
  rw [Mm.sysMunmapPage]
  split_ifs
  · exact hb
  · exact hz.clear t j hb

/-- The table word the inner loop goes by, as long as no harm is done: the one of the directory the
call began with. -/
lemma Sweep.readEntry {N i j : ℕ} {st : Mm × ℕ} (h : Sweep s₀ d addr N i j st) (h₀ : Inv s₀)
    (hd : d ∈ s₀.dirs) : st.1.readEntry d i = s₀.mm.mem (d / 4096) i := by
  rw [Mm.readEntry_eq (h₀.dir_lt hd)]
  by_cases hlow : i < 768
  · have hentry := h.emptied.tableEntry h₀ i
    rw [tableEntry, if_pos (show (s₀.withMm st.1).Covers (.task d) i from ⟨hd, hlow⟩), tableEntry,
      if_pos (show s₀.Covers (.task d) i from ⟨hd, hlow⟩)] at hentry
    exact hentry
  · exact h.emptied.confined.upper (by omega)

/-- An iteration of the inner loop. -/
lemma Course.page {N i j t : ℕ} {st : Mm × ℕ} (h : Course s₀ d addr N Good Bad i j st) (h₀ : Inv s₀)
    (hd : d ∈ s₀.dirs) (hz : Hazard s₀ d addr N Good Bad) (hi : pdeIndex addr ≤ i) (hi' : i < 1024)
    (hj : pteIndex addr ≤ j) (hj' : j < 1024) (ht : Bad st.1 ∨ t = s₀.mm.mem (d / 4096) i) :
    Loop.Ends (Course s₀ d addr N Good Bad (i + 1) (pteIndex addr))
      (fun st' => Course s₀ d addr N Good Bad i (j + 1) st' ∧
        (Bad st'.1 ∨ t = s₀.mm.mem (d / 4096) i))
      (Mm.sysMunmapPage N t j st) := by
  by_cases hbr : Bad st.1
  · exact (hz.page hbr).mono (fun _ hb => .inr hb) fun _ hb => ⟨.inr hb, .inl hb⟩
  · obtain ⟨hsweep, hgood⟩ := h.resolve_right hbr
    obtain rfl := ht.resolve_left hbr
    have hle := hsweep.le
    rw [Mm.sysMunmapPage]
    split_ifs with hN
    · exact .inl ⟨⟨hsweep.emptied, hle, .inl (by omega)⟩, hgood⟩
    · have hlt : st.2 < N := by omega
      obtain ⟨hti, hji⟩ := hsweep.next hlt hi hj hj'
      by_cases hg : Good st.2
      · obtain ⟨hlow, hmapped⟩ := hz.mapped hlt hg
        have hentry : s₀.mm.mem (d / 4096) i = s₀.tableEntry (.task d) i := by
          rw [tableEntry, if_pos (show s₀.Covers (.task d) i from ⟨hd, hti ▸ hlow⟩)]
          rfl
        have hpage := hsweep.page h₀ (fun _ => hmapped) hi hj hj' fun _ => hentry
        rw [Mm.sysMunmapPage, if_neg hN] at hpage
        refine ⟨.inl ⟨hpage.1, fun k hk => ?_⟩, .inr rfl⟩
        by_cases hkc : k = st.2
        · exact hkc ▸ hg
        · exact hgood k (by dsimp only at hk; omega)
      · have hbad := hz.strays hsweep hlt hti hji hi' hg
        exact ⟨.inr hbad, .inl hbad⟩

/-- An iteration of the outer loop. -/
lemma Course.table {N i : ℕ} {st : Mm × ℕ} (h : Course s₀ d addr N Good Bad i (pteIndex addr) st)
    (h₀ : Inv s₀) (hd : d ∈ s₀.dirs) (hz : Hazard s₀ d addr N Good Bad) (hi : pdeIndex addr ≤ i)
    (hi' : i < 1024) : Course s₀ d addr N Good Bad (i + 1) (pteIndex addr)
      (Mm.sysMunmapTable d N (pteIndex addr) i st) := by
  have hpte := pteIndex_lt addr
  have ht : Bad st.1.unmapTmpPage ∨ st.1.readEntry d i = s₀.mm.mem (d / 4096) i :=
    h.symm.imp hz.tmp fun hs => hs.1.readEntry h₀ hd
  have hstart : Course s₀ d addr N Good Bad i (pteIndex addr) (st.1.unmapTmpPage, st.2) :=
    h.imp (fun hs => ⟨⟨hs.1.emptied.tmp 0, hs.1.le, hs.1.pos⟩, hs.2⟩) hz.tmp
  have hloop := Loop.forRange_rule (n := 1024 - pteIndex addr)
    (I := fun j st' => Course s₀ d addr N Good Bad i j st' ∧
      (Bad st'.1 ∨ st.1.readEntry d i = s₀.mm.mem (d / 4096) i))
    (fun j st' h₁ h₂ h => h.1.page h₀ hd hz hi hi' h₁ (by omega) h.2) ⟨hstart, ht⟩
  rw [Mm.sysMunmapTable]
  generalize Loop.forRange (Mm.sysMunmapPage N (st.1.readEntry d i)) (pteIndex addr)
    (1024 - pteIndex addr) (st.1.unmapTmpPage, st.2) = x at hloop
  cases x with
  | inl r => exact hloop
  | inr r =>
    refine hloop.1.imp (fun hr =>
      ⟨⟨hr.1.emptied, hr.1.le, hr.1.pos.imp_right fun hpos => ?_⟩, hr.2⟩) id
    change r.2 = _
    rw [hpos, show i + 1 - pdeIndex addr = i - pdeIndex addr + 1 by omega, Nat.succ_mul]
    omega

/-- **The course of a call**: the entries it reaches are all good ones, or the harm is done. -/
theorem sysMunmap_course (h : Inv s) (hd : d ∈ s.dirs)
    (hz : Hazard s d addr (Mm.pagesRequired len) Good Bad) :
    (∀ k < Mm.pagesRequired len, Good k) ∨ Bad (s.mm.sysMunmap d addr len) := by
  have hpde := pdeIndex_lt addr
  have hpte := pteIndex_lt addr
  have hloop := Loop.forEach_rule (n := 1024 - pdeIndex addr)
    (I := fun i st => Course s d addr (Mm.pagesRequired len) Good Bad i (pteIndex addr) st)
    (fun i st h₁ h₂ hc => hc.table h hd hz h₁ (by omega)) (s := (s.mm, 0))
    (.inl ⟨⟨.start h d addr, Nat.zero_le _, .inr (by simp)⟩, fun k hk =>
      absurd hk (Nat.not_lt_zero k)⟩)
  rw [Mm.sysMunmap]
  generalize Loop.forEach (Mm.sysMunmapTable d (Mm.pagesRequired len) (pteIndex addr))
    (pdeIndex addr) (1024 - pdeIndex addr) (s.mm, 0) = st at hloop
  refine hloop.imp (fun hcourse => ?_) id
  obtain ⟨hsweep, hgood⟩ := hcourse
  -- the walk cannot have gone through the kernel's half
  have hall : st.2 = Mm.pagesRequired len := by
    by_contra hne
    have hle := hsweep.le
    have hpos := hsweep.pos.resolve_left hne
    rw [show pdeIndex addr + (1024 - pdeIndex addr) - pdeIndex addr = 1024 - pdeIndex addr by omega,
      Nat.sub_self, Nat.add_zero] at hpos
    have hcount : 0 < (1024 - pdeIndex addr) * (1024 - pteIndex addr) :=
      Nat.mul_pos (by omega) (by omega)
    have hlast := (hz.mapped (by omega) (hgood (st.2 - 1) (by omega))).1
    have hdiv : (st.2 - 1) / (1024 - pteIndex addr) = 1024 - pdeIndex addr - 1 := by
      rw [hpos, show (1024 - pdeIndex addr) * (1024 - pteIndex addr) - 1 =
        (1024 - pteIndex addr) * (1024 - pdeIndex addr - 1) + (1024 - pteIndex addr - 1) by
          rw [Nat.mul_comm, Nat.mul_sub_one]
          have : 1024 - pteIndex addr ≤ (1024 - pteIndex addr) * (1024 - pdeIndex addr) :=
            Nat.le_mul_of_pos_right _ (by omega)
          omega,
        Nat.mul_add_div (by omega), Nat.div_eq_of_lt (by omega), Nat.add_zero]
    rw [visitedTable, hdiv] at hlast
    omega
  rw [hall] at hgood
  exact hgood

/-- A range inside one table: its entries are the ones reached. -/
lemma visited_of_lt (hk : pteIndex addr + k < 1024) :
    visited d addr k = .page (.task d) (pdeIndex addr) (pteIndex addr + k) := by
  have hw : k < 1024 - pteIndex addr := by omega
  rw [visited, visitedTable, visitedIndex, Nat.div_eq_of_lt hw, Nat.mod_eq_of_lt hw, Nat.add_zero]

end Sys

end AlphaOS
