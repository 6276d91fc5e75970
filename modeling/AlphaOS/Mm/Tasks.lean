import AlphaOS.Mm.Operations

set_option relaxedAutoImplicit false
set_option autoImplicit false

/-!
# Making and destroying address spaces

`mmap_ring3` makes the directory of a new task with a page table and two pages, and copies the
kernel's half of the directory; `unmmap_ring3` gives back all the frames of a task. Both keep the
invariant and leave the other tasks alone.

## Main definitions

* `AlphaOS.Sys.Holds` — the frames taken since an earlier state are those of one task.
* `AlphaOS.Sys.Created` — what `mmap_ring3` has done.
* `AlphaOS.Sys.Destroyed` — what `unmmap_ring3` has done.

## Main results

* `AlphaOS.Sys.Inv.mmapRing3`, `AlphaOS.Sys.Inv.unmmapRing3` — the two functions.

## Design

The frames of a new task are filled before any of them is at a place. The proof puts them at their
places one after the other, from a state in which the directory and the table are still empty, and
checks that the content of memory comes out the same.
-/

namespace AlphaOS

namespace Sys

variable {s s' : Sys} {d i j f t : ℕ} {p : Place}

/-! ## A new directory -/

/-- A directory with an empty user half changes no entry. -/
lemma tableEntry_cons (hf : f * 4096 ∉ s.dirs) (hlow : ∀ i < 768, s.mm.mem f i = 0) (sp : Space)
    (i : ℕ) : Sys.tableEntry ⟨s.mm, f * 4096 :: s.dirs⟩ sp i = s.tableEntry sp i := by
  cases sp with
  | kernel => rfl
  | task d =>
    by_cases hd : d = f * 4096
    · subst hd
      have hold : s.tableEntry (.task (f * 4096)) i = 0 := if_neg fun hc => hf hc.1
      rw [hold]
      unfold tableEntry
      split_ifs with hc
      · change s.mm.mem (f * 4096 / 4096) i = 0
        rw [Nat.mul_div_cancel f (by omega)]
        exact hlow i hc.2
      · rfl
    · unfold tableEntry
      have hcov : Sys.Covers ⟨s.mm, f * 4096 :: s.dirs⟩ (.task d) i ↔ s.Covers (.task d) i := by
        simp [Covers, hd]
      simp only [hcov]
      rfl

/-- **A new directory** with an empty user half, and the kernel's half copied. -/
lemma Inv.putDir (h : Inv s) (hf : s.Avail f) (hlow : ∀ i < 768, s.mm.mem f i = 0)
    (hhigh : ∀ i, 768 ≤ i → i < 1024 → s.mm.mem f i = s.mm.kernelPageDirectory i) :
    Inv ⟨s.mm, f * 4096 :: s.dirs⟩ ∧ Sys.own ⟨s.mm, f * 4096 :: s.dirs⟩ =
      Function.update s.own (.dir (f * 4096)) (some f) := by
  have hframe : f * 4096 / 4096 = f := Nat.mul_div_cancel f (by omega)
  have hnew : f * 4096 ∉ s.dirs := fun hd => hf.loose.2 _ (by rw [own_dir hd, hframe])
  have htable := tableEntry_cons hnew hlow
  have hpage (sp : Space) (i j : ℕ) :
      Sys.pageEntry ⟨s.mm, f * 4096 :: s.dirs⟩ sp i j = s.pageEntry sp i j := by
    unfold pageEntry
    rw [htable]
  have hown : Sys.own ⟨s.mm, f * 4096 :: s.dirs⟩ =
      Function.update s.own (.dir (f * 4096)) (some f) := by
    funext q
    cases q with
    | dir d =>
      by_cases hd : d = f * 4096
      · subst hd
        rw [Function.update_self, own_dir (List.mem_cons_self ..), hframe]
      · rw [Function.update_of_ne (by simpa using hd)]
        simp [own, hd]
    | table sp i =>
      rw [Function.update_of_ne (by simp)]
      exact congrArg frameOf (htable sp i)
    | page sp i j =>
      rw [Function.update_of_ne (by simp)]
      exact congrArg frameOf (hpage sp i j)
  refine ⟨⟨h.size, h.quiet, ?_, ?_, ?_, ?_, ?_, ?_, ?_, h.low, ?_, ?_, ?_⟩, hown⟩
  · rw [hown]
    exact h.sound.put hf.loose
  · intro q g hq
    rw [hown, Function.update_apply] at hq
    split_ifs at hq
    · exact Option.some.inj hq ▸ hf.lt
    · exact h.bound hq
  · intro sp i
    rw [htable]
    exact h.tables
  · intro sp i j
    rw [hpage]
    exact h.pages
  · exact List.nodup_cons.mpr ⟨hnew, h.nodup⟩
  · intro d hd
    rcases List.mem_cons.mp hd with rfl | hd
    · exact Nat.mul_mod_left f 4096
    · exact h.aligned d hd
  · intro g hr
    refine ⟨(h.reserved hr).1, fun q hq => ?_⟩
    rw [hown, Function.update_apply] at hq
    split_ifs at hq
    · exact hf.fresh (Option.some.inj hq ▸ hr)
    · exact (h.reserved hr).2 q hq
  · intro i j
    rw [hpage]
    exact h.heap
  · intro d
    rw [hown, Function.update_of_ne (by simp)]
    exact h.null d
  · intro d hd i h₁ h₂
    rcases List.mem_cons.mp hd with rfl | hd
    · rw [hframe]
      exact .inr (hhigh i h₁ h₂)
    · exact h.halves d hd i h₁ h₂

/-- An available frame stays one when another is put at a place. -/
lemma Avail.update (hf : s.Avail f) (hft : f ≠ t) (hown : s'.own = Function.update s.own p (some t))
    (hused : s'.mm.used f) (hkernel : s'.mm.kernelPageDirectory = s.mm.kernelPageDirectory)
    (hsize : s'.mm.bitmapSize = s.mm.bitmapSize) : s'.Avail f := by
  refine ⟨⟨hused, fun q hq => ?_⟩, hsize ▸ hf.lt, fun hr => ?_⟩
  · rw [hown, Function.update_apply] at hq
    split_ifs at hq
    · exact hft (Option.some.inj hq).symm
    · exact hf.loose.2 q hq
  · exact hf.fresh ((reserved_congr fun i _ => by rw [hkernel]).mp hr)

/-- The first table of a task, entry by entry. -/
lemma firstTable_eq {f₁ f₂ : ℕ} (d : ℕ) (h₁ : f₁ < 2 ^ 20) (h₂ : f₂ < 2 ^ 20) :
    Mm.firstTable (f₁ * 4096) (f₂ * 4096) = Function.update (Function.update (fun _ => 0) 1
      (entryOf (.task d) f₁)) 2 (entryOf (.task d) f₂) := by
  funext i
  rw [Mm.firstTable, entry_userFlags d h₁, entry_userFlags d h₂, Function.update_apply,
    Function.update_apply]
  split_ifs
  · omega
  · rfl
  · rfl
  · rfl

/-- The directory of a task, entry by entry. -/
lemma newDirectory_eq {f₃ : ℕ} (d : ℕ) (kpd : ℕ → ℕ) (h₃ : f₃ < 2 ^ 20) :
    Mm.newDirectory kpd (f₃ * 4096) =
      Function.update (fun i => if 768 ≤ i then kpd i else 0) 0 (entryOf (.task d) f₃) := by
  funext i
  rw [Mm.newDirectory, entry_userFlags d h₃, Function.update_apply]

/-- Four available frames become the directory, the first table and the first pages of a task. -/
lemma Inv.putTask {f₁ f₂ f₃ f₄ : ℕ} (h : Inv s) (h₁ : s.Avail f₁) (h₂ : s.Avail f₂)
    (h₃ : s.Avail f₃) (h₄ : s.Avail f₄) (h₁₂ : f₁ ≠ f₂) (h₁₃ : f₁ ≠ f₃) (h₁₄ : f₁ ≠ f₄)
    (h₂₃ : f₂ ≠ f₃) (h₂₄ : f₂ ≠ f₄) (h₃₄ : f₃ ≠ f₄) (hzero : s.mm.mem f₃ = fun _ => 0)
    (hdir : s.mm.mem f₄ = fun i => if 768 ≤ i then s.mm.kernelPageDirectory i else 0) :
    Inv ⟨(s.mm.put f₄ (Mm.newDirectory s.mm.kernelPageDirectory (f₃ * 4096))).put f₃
        (Mm.firstTable (f₁ * 4096) (f₂ * 4096)), f₄ * 4096 :: s.dirs⟩ ∧
      Sys.own ⟨(s.mm.put f₄ (Mm.newDirectory s.mm.kernelPageDirectory (f₃ * 4096))).put f₃
        (Mm.firstTable (f₁ * 4096) (f₂ * 4096)), f₄ * 4096 :: s.dirs⟩ =
        Function.update (Function.update (Function.update (Function.update s.own
          (.dir (f₄ * 4096)) (some f₄)) (.table (.task (f₄ * 4096)) 0) (some f₃))
          (.page (.task (f₄ * 4096)) 0 1) (some f₁)) (.page (.task (f₄ * 4096)) 0 2) (some f₂) := by
  have hframe : f₄ * 4096 / 4096 = f₄ := Nat.mul_div_cancel f₄ (by omega)
  obtain ⟨ia, oa⟩ := h.putDir h₄ (fun i hi => by rw [hdir]; exact if_neg (by omega))
    (fun i hi _ => by rw [hdir]; exact if_pos hi)
  set a : Sys := ⟨s.mm, f₄ * 4096 :: s.dirs⟩ with ha
  have hfresh : s.own (.table (.task (f₄ * 4096)) 0) = none := by
    refine frameOf_eq_none.mpr (if_neg fun hc => ?_)
    exact h₄.loose.2 (.dir (f₄ * 4096)) (by rw [own_dir hc.1, hframe])
  have a₁ : a.Avail f₁ := h₁.update h₁₄ oa h₁.loose.1 rfl rfl
  have a₂ : a.Avail f₂ := h₂.update h₂₄ oa h₂.loose.1 rfl rfl
  have a₃ : a.Avail f₃ := h₃.update h₃₄ oa h₃.loose.1 rfl rfl
  obtain ⟨ib, ob⟩ := ia.putTable (d := f₄ * 4096) (List.mem_cons_self ..) (by omega : 0 < 768)
    (by rw [oa, Function.update_of_ne (by simp)]; exact hfresh) a₃
    (fun j _ => by rw [show a.mm.mem f₃ = s.mm.mem f₃ from rfl, hzero])
  rw [hframe] at ib ob
  set b := a.withMm (a.mm.put f₄ (Function.update (a.mm.mem f₄) 0
    (entryOf (.task (f₄ * 4096)) f₃))) with hb
  have b₁ : b.Avail f₁ := a₁.update h₁₃ ob a₁.loose.1 rfl rfl
  have b₂ : b.Avail f₂ := a₂.update h₂₃ ob a₂.loose.1 rfl rfl
  obtain ⟨ic, oc⟩ := ib.putPage (t := f₃) (by rw [ob, Function.update_self]) (by omega : 1 < 1024)
    (.inr Nat.one_ne_zero) b₁
  set c := b.withMm (b.mm.put f₃ (Function.update (b.mm.mem f₃) 1
    (entryOf (.task (f₄ * 4096)) f₁))) with hc
  have c₂ : c.Avail f₂ := b₂.update h₁₂.symm oc b₂.loose.1 rfl rfl
  obtain ⟨id, od⟩ := ic.putPage (t := f₃) (d := f₄ * 4096) (i := 0)
    (by rw [oc, Function.update_of_ne (by simp), ob, Function.update_self]) (by omega : 2 < 1024)
    (.inr (by omega)) c₂
  have hmm : (c.mm.put f₃ (Function.update (c.mm.mem f₃) 2 (entryOf (.task (f₄ * 4096)) f₂))) =
      (s.mm.put f₄ (Mm.newDirectory s.mm.kernelPageDirectory (f₃ * 4096))).put f₃
        (Mm.firstTable (f₁ * 4096) (f₂ * 4096)) := by
    have hb₃ : b.mm.mem f₃ = fun _ => 0 := (Function.update_of_ne h₃₄ _ _).trans hzero
    have hc₃ : c.mm.mem f₃ = Function.update (b.mm.mem f₃) 1 (entryOf (.task (f₄ * 4096)) f₁) :=
      Function.update_self ..
    rw [hc₃, hb₃, ← firstTable_eq _ (h.avail_lt h₁) (h.avail_lt h₂), hc, withMm_mm, Mm.put_put,
      hb, withMm_mm, show a.mm = s.mm from rfl, hdir, ← newDirectory_eq _ _ (h.avail_lt h₃)]
  rw [hmm] at id od
  rw [oc, ob, oa] at od
  exact ⟨id, od⟩

/-! ## `mmap_ring3` -/

/-- The frames `mmap_ring3` takes, one after the other. -/
lemma Inv.mmapRing3_eq {code : ℕ → ℕ} (h : Inv s) (hok : (s.mm.mmapRing3 code).2.overrun = false) :
    ∃ f₁ f₂ f₃ f₄, (f₁ < s.mm.bitmapSize ∧ ¬ s.mm.used f₁) ∧
      (f₂ < s.mm.bitmapSize ∧ ¬ (s.mm.take f₁).used f₂) ∧
      (f₃ < s.mm.bitmapSize ∧ ¬ ((s.mm.take f₁).take f₂).used f₃) ∧
      (f₄ < s.mm.bitmapSize ∧ ¬ (((s.mm.take f₁).take f₂).take f₃).used f₄) ∧
      s.mm.mmapRing3 code = (f₄ * 4096, (((((((s.mm.take f₁).put f₁ code).take f₂).put f₂
        fun _ => 0).take f₃).put f₃ (Mm.firstTable (f₁ * 4096) (f₂ * 4096))).take f₄).put f₄
        (Mm.newDirectory s.mm.kernelPageDirectory (f₃ * 4096))) := by
  have hback {mm : Mm} {page : ℕ → ℕ} (hm : (mm.allocFilled page).2.overrun = false) :
      mm.overrun = false := by
    by_contra hne
    rw [overrun_allocFilled_of (by simpa using hne)] at hm
    exact absurd hm (by simp)
  have hok₃ : (s.mm.ring3Table code).2.overrun = false := hback hok
  have hok₂ : ((s.mm.allocFilled code).2.allocFilled fun _ => 0).2.overrun = false := hback hok₃
  obtain ⟨f₁, e₁, l₁, u₁⟩ := h.allocFilled (hback hok₂)
  have i₁ := (h.take l₁ u₁ code).1
  rw [e₁] at hok₂
  obtain ⟨f₂, e₂, l₂, u₂⟩ := i₁.allocFilled hok₂
  have i₂ := (i₁.take l₂ u₂ fun _ => 0).1
  rw [withMm_mm] at e₂
  have htab : s.mm.ring3Table code = ((((s.mm.take f₁).put f₁ code).take f₂).put f₂
      fun _ => 0).allocFilled (Mm.firstTable (f₁ * 4096) (f₂ * 4096)) := by
    rw [Mm.ring3Table, Mm.allocZeroed, e₁, e₂]
  rw [htab] at hok₃
  obtain ⟨f₃, e₃, l₃, u₃⟩ := i₂.allocFilled hok₃
  have i₃ := (i₂.take l₃ u₃ (Mm.firstTable (f₁ * 4096) (f₂ * 4096))).1
  rw [withMm_mm, withMm_mm] at e₃
  have hdir : s.mm.mmapRing3 code = ((((((s.mm.take f₁).put f₁ code).take f₂).put f₂
      fun _ => 0).take f₃).put f₃ (Mm.firstTable (f₁ * 4096) (f₂ * 4096))).allocFilled
      (Mm.newDirectory s.mm.kernelPageDirectory (f₃ * 4096)) := by
    rw [Mm.mmapRing3, htab, e₃]
    rfl
  rw [hdir] at hok
  obtain ⟨f₄, e₄, l₄, u₄⟩ := i₃.allocFilled hok
  exact ⟨f₁, f₂, f₃, f₄, ⟨l₁, u₁⟩, ⟨l₂, u₂⟩, ⟨l₃, u₃⟩, ⟨l₄, u₄⟩, hdir.trans e₄⟩

/-- Since `b` only the task with directory `d` has taken frames: the frames in use are those that
were in use in `b`, which have kept their contents, and the frames of the task. -/
structure Holds (b : Sys) (d : ℕ) (s : Sys) : Prop where
  used : ∀ g, s.mm.used g ↔ b.mm.used g ∨ ∃ p : Place, p.OfTask d ∧ s.own p = some g
  fresh : ∀ {p : Place} {g}, p.OfTask d → s.own p = some g → ¬ b.mm.used g
  mem : ∀ {g}, b.mm.used g → s.mm.mem g = b.mm.mem g
  kernel : s.mm.kernelPageDirectory = b.mm.kernelPageDirectory

/-- A task that is not there holds nothing. -/
lemma own_of_not_mem (hd : d ∉ s.dirs) (hp : p.OfTask d) : s.own p = none := by
  have htable (i : ℕ) : s.tableEntry (.task d) i = 0 := if_neg fun hc => hd hc.1
  cases p with
  | dir d' =>
    obtain rfl : d' = d := hp
    exact if_neg hd
  | table sp i =>
    obtain rfl : sp = .task d := hp
    exact frameOf_eq_none.mpr (htable i)
  | page sp i j =>
    obtain rfl : sp = .task d := hp
    exact frameOf_eq_none.mpr (if_pos (.inl (htable i)))

/-- What `mmap_ring3` has done: a new task with two pages, and the kernel's half of the directory as
it is at that moment. -/
structure Created (s : Sys) (d : ℕ) (s' : Sys) : Prop where
  inv : Inv s'
  dirs : s'.dirs = d :: s.dirs
  fresh : d ∉ s.dirs
  kernel : s'.mm.kernelPageDirectory = s.mm.kernelPageDirectory
  tasks : ∀ {d'}, d' ∈ s.dirs → s'.mm.mem (d' / 4096) = s.mm.mem (d' / 4096)
  upper : ∀ {i}, 768 ≤ i → i < 1024 → s'.mm.mem (d / 4096) i = s.mm.kernelPageDirectory i
  others : ∀ {d' p}, d' ≠ d → Place.OfTask d' p → s'.own p = s.own p
  pages : ∀ {i j}, s'.own (.page (.task d) i j) ≠ none ↔ i = 0 ∧ (j = 1 ∨ j = 2)
  tables : ∀ {i}, s'.own (.table (.task d) i) ≠ none ↔ i = 0
  count : s'.mm.freeCount + 4 = s.mm.freeCount
  record : s'.mm.kheapPages = s.mm.kheapPages
  holds : Holds s d s'

/-- **`mmap_ring3`** makes a new task. -/
lemma Inv.mmapRing3 {code : ℕ → ℕ} (h : Inv s) (hok : (s.mm.mmapRing3 code).2.overrun = false) :
    Created s (s.mm.mmapRing3 code).1
      ⟨(s.mm.mmapRing3 code).2, (s.mm.mmapRing3 code).1 :: s.dirs⟩ := by
  obtain ⟨f₁, f₂, f₃, f₄, ⟨l₁, u₁⟩, ⟨l₂, u₂⟩, ⟨l₃, u₃⟩, ⟨l₄, u₄⟩, heq⟩ := h.mmapRing3_eq hok
  rw [heq]
  -- the frames are taken, with an empty table and an empty user half of the directory
  obtain ⟨i₁, a₁, o₁, -⟩ := h.take l₁ u₁ code
  obtain ⟨i₂, a₂, o₂, k₂⟩ := i₁.take l₂ u₂ fun _ => 0
  obtain ⟨i₃, a₃, o₃, k₃⟩ := i₂.take l₃ u₃ fun _ => 0
  obtain ⟨i₄, a₄, o₄, k₄⟩ := i₃.take l₄ u₄
    fun i => if 768 ≤ i then s.mm.kernelPageDirectory i else 0
  obtain ⟨b₁, h₁₂⟩ := k₂ f₁ a₁
  obtain ⟨c₁, h₁₃⟩ := k₃ f₁ b₁
  obtain ⟨c₂, h₂₃⟩ := k₃ f₂ a₂
  obtain ⟨e₁, h₁₄⟩ := k₄ f₁ c₁
  obtain ⟨e₂, h₂₄⟩ := k₄ f₂ c₂
  obtain ⟨e₃, h₃₄⟩ := k₄ f₃ a₃
  obtain ⟨hinv, hown⟩ := i₄.putTask e₁ e₂ e₃ a₄ h₁₂ h₁₃ h₁₄ h₂₃ h₂₄ h₃₄
    ((Function.update_of_ne h₃₄ _ _).trans (Function.update_self ..)) (Function.update_self ..)
  rw [o₄, o₃, o₂, o₁] at hown
  have hmm : (((((((((s.mm.take f₁).put f₁ code).take f₂).put f₂ fun _ => 0).take f₃).put f₃
      fun _ => 0).take f₄).put f₄ (fun i => if 768 ≤ i then s.mm.kernelPageDirectory i else 0)).put
        f₄ (Mm.newDirectory s.mm.kernelPageDirectory (f₃ * 4096))).put f₃
        (Mm.firstTable (f₁ * 4096) (f₂ * 4096)) =
      (((((((s.mm.take f₁).put f₁ code).take f₂).put f₂ fun _ => 0).take f₃).put f₃
        (Mm.firstTable (f₁ * 4096) (f₂ * 4096))).take f₄).put f₄
        (Mm.newDirectory s.mm.kernelPageDirectory (f₃ * 4096)) := by
    rw [Mm.put_put, Mm.put_comm h₃₄.symm, Mm.take_put, Mm.put_put, ← Mm.take_put]
  generalize hM : (((((((s.mm.take f₁).put f₁ code).take f₂).put f₂ fun _ => 0).take f₃).put f₃
    (Mm.firstTable (f₁ * 4096) (f₂ * 4096))).take f₄).put f₄
    (Mm.newDirectory s.mm.kernelPageDirectory (f₃ * 4096)) = M at hmm ⊢
  replace hinv : Inv ⟨M, f₄ * 4096 :: s.dirs⟩ := hmm ▸ hinv
  replace hown : Sys.own ⟨M, f₄ * 4096 :: s.dirs⟩ = _ := hmm ▸ hown
  have hne {g : ℕ} (hg : s.mm.used g) : g ≠ f₁ ∧ g ≠ f₂ ∧ g ≠ f₃ ∧ g ≠ f₄ := by
    simp only [Mm.used_take, not_or] at u₂ u₃ u₄
    refine ⟨?_, ?_, ?_, ?_⟩ <;> rintro rfl
    · exact u₁ hg
    · exact u₂.2 hg
    · exact u₃.2.2 hg
    · exact u₄.2.2.2 hg
  have hframe : f₄ * 4096 / 4096 = f₄ := Nat.mul_div_cancel f₄ (by omega)
  have hfresh : f₄ * 4096 ∉ s.dirs := by
    intro hd
    have hu := h.sound.used_of_own (own_dir hd)
    rw [hframe] at hu
    exact (hne hu).2.2.2 rfl
  have hmem {g : ℕ} (hg : s.mm.used g) : M.mem g = s.mm.mem g := by
    obtain ⟨n₁, n₂, n₃, n₄⟩ := hne hg
    rw [← hM]
    change Function.update (Function.update (Function.update (Function.update s.mm.mem f₁ _) f₂ _)
      f₃ _) f₄ _ g = _
    rw [Function.update_of_ne n₄, Function.update_of_ne n₃, Function.update_of_ne n₂,
      Function.update_of_ne n₁]
  refine ⟨hinv, rfl, hfresh, hM ▸ rfl, ?_, ?_, ?_, ?_, ?_, ?_, hM ▸ rfl, ?_⟩
  · exact fun hd => hmem (h.sound.used_of_own (own_dir hd))
  · intro i hi _
    have hmem : M.mem f₄ = Mm.newDirectory s.mm.kernelPageDirectory (f₃ * 4096) :=
      hM ▸ Function.update_self ..
    rw [hframe, hmem, Mm.newDirectory, if_neg (by omega), if_pos hi]
  · intro d' p hd hp
    refine (congrFun hown p).trans ?_
    rw [Function.update_of_ne, Function.update_of_ne, Function.update_of_ne,
      Function.update_of_ne] <;>
      (rintro rfl; simp [Place.OfTask] at hp; exact hd hp.symm)
  · intro i j
    have hnone : s.own (.page (.task (f₄ * 4096)) i j) = none :=
      frameOf_eq_none.mpr (if_pos (.inl (if_neg fun hc => hfresh hc.1)))
    refine (not_congr (Eq.congr_left (congrFun hown _))).trans ?_
    by_cases hA : i = 0 ∧ j = 2
    · obtain ⟨rfl, rfl⟩ := hA
      simp
    · by_cases hB : i = 0 ∧ j = 1
      · obtain ⟨rfl, rfl⟩ := hB
        simp
      · rw [Function.update_of_ne (by simpa using hA), Function.update_of_ne (by simpa using hB),
          Function.update_of_ne (by simp), Function.update_of_ne (by simp), hnone]
        simp only [not_true_eq_false, false_iff]
        omega
  · intro i
    have hnone : s.own (.table (.task (f₄ * 4096)) i) = none :=
      frameOf_eq_none.mpr (if_neg fun hc => hfresh hc.1)
    refine (not_congr (Eq.congr_left (congrFun hown _))).trans ?_
    by_cases hi : i = 0
    · subst hi
      simp
    · rw [Function.update_of_ne (by simp), Function.update_of_ne (by simp),
        Function.update_of_ne (by simpa using hi), Function.update_of_ne (by simp), hnone]
      simp only [not_true_eq_false, false_iff]
      exact hi
  · have k₁ := Mm.freeCount_take l₁ u₁
    have k₂ := Mm.freeCount_take (s := s.mm.take f₁) l₂ u₂
    have k₃ := Mm.freeCount_take (s := (s.mm.take f₁).take f₂) l₃ u₃
    have k₄ := Mm.freeCount_take (s := ((s.mm.take f₁).take f₂).take f₃) l₄ u₄
    rw [← hM]
    change ((((s.mm.take f₁).take f₂).take f₃).take f₄).freeCount + 4 = _
    omega
  · have hused (g : ℕ) : M.used g ↔ g = f₄ ∨ g = f₃ ∨ g = f₂ ∨ g = f₁ ∨ s.mm.used g := by
      rw [← hM]
      change ((((s.mm.take f₁).take f₂).take f₃).take f₄).used g ↔ _
      simp only [Mm.used_take]
    refine ⟨fun g => ⟨fun hg => ?_, fun hg => ?_⟩, fun {q g} hq hg hu => ?_, hmem, hM ▸ rfl⟩
    · rcases (hused g).mp hg with rfl | rfl | rfl | rfl | hg
      · exact .inr ⟨.dir (g * 4096), rfl, (congrFun hown _).trans (by simp)⟩
      · exact .inr ⟨.table (.task (f₄ * 4096)) 0, rfl, (congrFun hown _).trans (by simp)⟩
      · exact .inr ⟨.page (.task (f₄ * 4096)) 0 2, rfl, (congrFun hown _).trans (by simp)⟩
      · exact .inr ⟨.page (.task (f₄ * 4096)) 0 1, rfl, (congrFun hown _).trans (by simp)⟩
      · exact .inl hg
    · rcases hg with hg | ⟨q, -, hq⟩
      · exact (hused g).mpr (.inr (.inr (.inr (.inr hg))))
      · exact hinv.sound.used_of_own hq
    · obtain ⟨n₁, n₂, n₃, n₄⟩ := hne hu
      have hvalue := (congrFun hown q).symm.trans hg
      simp only [Function.update_apply, own_of_not_mem hfresh hq] at hvalue
      split_ifs at hvalue
      · exact n₂ (Option.some.inj hvalue).symm
      · exact n₁ (Option.some.inj hvalue).symm
      · exact n₃ (Option.some.inj hvalue).symm
      · exact n₄ (Option.some.inj hvalue).symm

/-- Four free frames are enough for a new task. -/
lemma Inv.mmapRing3_quiet (h : Inv s) (hc : 4 ≤ s.mm.freeCount) (code : ℕ → ℕ) :
    (s.mm.mmapRing3 code).2.overrun = false := by
  obtain ⟨q₁, z₁, c₁⟩ := Mm.allocFilled_quiet h.size h.quiet (by omega) code
  obtain ⟨q₂, z₂, c₂⟩ := Mm.allocFilled_quiet z₁ q₁ (by omega) fun _ => 0
  obtain ⟨q₃, z₃, c₃⟩ := Mm.allocFilled_quiet z₂ q₂ (by omega)
    (Mm.firstTable (s.mm.allocFilled code).1 ((s.mm.allocFilled code).2.allocFilled fun _ => 0).1)
  exact (Mm.allocFilled_quiet z₃ q₃ (by omega) _).1

/-! ## `unmmap_ring3` -/

/-- The present bit of an entry in a task's tables. -/
lemma and_present {e : ℕ} (h : e % 4096 = userFlags) : e &&& 0x001 ≠ 0 := by
  have hflags : userFlags = 7 := by decide
  rw [show (0x001 : ℕ) = 1 from rfl, Nat.and_one_is_mod]
  omega

/-- The frame of a masked entry. -/
lemma mask_div {e : ℕ} (h : e < 2 ^ 32) : (e &&& pageMask) / 4096 = e / 4096 := by
  rw [pageMask, Bits.and_mask h, Nat.mul_div_cancel _ (by omega)]

/-- A change that clears one place of a task. -/
structure Freed (d : ℕ) (p : Place) (s s' : Sys) : Prop where
  inv : Inv s'
  confined : Confined d s s'
  own : s'.own = Function.update s.own p none
  used : ∀ g, s'.mm.used g ↔ s.mm.used g ∧ s.own p ≠ some g

/-- Nothing has to be cleared where nothing is. -/
lemma Freed.of_none (h : Inv s) (hp : s.own p = none) :
    Freed d p s (s.withMm s.mm.unmapTmpPage) := by
  refine ⟨h.tmp 0, .tmp d s 0, ?_, fun g => ⟨fun hg => ⟨hg, by rw [hp]; simp⟩, And.left⟩⟩
  rw [← hp, Function.update_eq_self]
  exact own_congr rfl rfl rfl

/-- The bits after the frame at a place has been given back. -/
lemma used_release_own {mm : Mm} (hmm : ∀ g, mm.used g ↔ s.mm.used g) (hf : s.own p = some f)
    (g : ℕ) :
    (mm.release f).used g ↔ s.mm.used g ∧ s.own p ≠ some g := by
  rw [Mm.used_release, hmm, hf, ne_eq, ne_eq, Option.some.injEq]
  exact ⟨fun hg => ⟨hg.2, fun he => hg.1 he.symm⟩, fun hg => ⟨fun he => hg.2 he.symm, hg.1⟩⟩

/-- **The page part** of an iteration of `unmmap_ring3`. -/
lemma Inv.freeUserPage (h : Inv s) (hj : j < 1024) :
    Freed d (.page (.task d) i j) s
      (s.withMm (s.mm.freeUserPage (s.tableEntry (.task d) i) j)) := by
  rw [Mm.freeUserPage]
  split_ifs with hc
  · have ht : s.tableEntry (.task d) i ≠ 0 := fun hz => hc.1 (by rw [hz]; rfl)
    have hne := hc.2
    rw [h.readEntry_table ht hj] at hne
    obtain ⟨f, hf⟩ : ∃ f, s.own (.page (.task d) i j) = some f := ⟨_, if_neg hne⟩
    have hword : s.pageEntry (.task d) i j < 2 ^ 32 := by
      have := h.frame_lt hf
      have := (frameOf_eq_some.mp hf).2
      omega
    rw [Mm.writeEntry_eq (h.tableEntry_lt _ _), Mm.pmmFree_one, h.readEntry_table ht hj,
      mask_div hword, (frameOf_eq_some.mp hf).2]
    obtain ⟨hinv, hown, hconf⟩ := h.clear (own_table ht) hj hf rfl
    exact ⟨hinv, hconf, hown, used_release_own (fun _ => Iff.rfl) hf⟩
  · refine .of_none h (frameOf_eq_none.mpr ?_)
    by_cases ht : s.tableEntry (.task d) i = 0
    · exact if_pos (.inl ht)
    · by_contra hne
      exact hc ⟨and_present (h.tables ht), by rwa [h.readEntry_table ht hj]⟩

/-- **The table part** of the last iteration of the inner loop of `unmmap_ring3`. -/
lemma Inv.freeUserTable (h : Inv s) (hd : d ∈ s.dirs) (hi : i < 768)
    (hempty : ∀ j, s.own (.page (.task d) i j) = none) :
    Freed d (.table (.task d) i) s
      (s.withMm (s.mm.freeUserTable d i 1023 (s.tableEntry (.task d) i))) := by
  rw [Mm.freeUserTable, h.readEntry_dir hd hi]
  split_ifs with hc
  · have ht : s.tableEntry (.task d) i ≠ 0 := fun hz => hc.2 (by rw [hz]; rfl)
    have hown := own_table ht
    rw [Mm.writeEntry_eq (h.dir_lt hd), Mm.pmmFree_one, mask_div (h.tableEntry_lt _ _)]
    obtain ⟨hinv, hown'⟩ := h.clearTable hd hi hempty hown
    refine ⟨hinv, .of_update rfl rfl rfl rfl hown' (by simp) ?_ ?_ ?_, hown',
      used_release_own (fun _ => Iff.rfl) hown⟩
    · intro g hg
      exact Mm.used_release.mpr ⟨fun he => hg.2 (.table (.task d) i) rfl (he ▸ hown), hg.1⟩
    · intro g hg
      have hgd : g ≠ d / 4096 := fun he => hg.2 (.dir d) rfl (he ▸ own_dir hd)
      exact Function.update_of_ne hgd _ _
    · intro k hk
      change Function.update s.mm.mem (d / 4096) _ (d / 4096) k = _
      rw [Function.update_self, Function.update_of_ne (by omega)]
  · refine .of_none h (frameOf_eq_none.mpr ?_)
    by_contra ht
    exact hc ⟨by omega, and_present (h.tables ht)⟩

/-- What `unmmap_ring3` knows at entry `j` of table `i`: the tables before are gone, and so are the
pages before, and the table with its last page. -/
structure Dying (s₀ : Sys) (d i j : ℕ) (s : Sys) : Prop where
  inv : Inv s
  confined : Confined d s₀ s
  tables : ∀ {i'}, i' < i ∨ i' = i ∧ 1024 ≤ j → s.own (.table (.task d) i') = none
  pages : ∀ {j'}, j' < j → s.own (.page (.task d) i j') = none

/-- The two parts of an iteration: the page is freed, and after the last page of the table, when all
are free, the table. -/
lemma Dying.parts {s₀ : Sys} (h : Dying s₀ d i j s) (hd : d ∈ s.dirs) (hi : i < 768) (hj : j < 1024)
    {m : Mm} (hm : m = s.mm.freeUserPage (s.tableEntry (.task d) i) j) :
    Freed d (.page (.task d) i j) s (s.withMm m) ∧
      (∀ j' < j + 1, (s.withMm m).own (.page (.task d) i j') = none) ∧
      s.tableEntry (.task d) i = (s.withMm m).tableEntry (.task d) i ∧
      (j = 1023 → Freed d (.table (.task d) i) (s.withMm m)
        (s.withMm (m.freeUserTable d i j (s.tableEntry (.task d) i)))) := by
  have hpage : Freed d (.page (.task d) i j) s (s.withMm m) := hm ▸ h.inv.freeUserPage hj
  have hpages : ∀ j' < j + 1, (s.withMm m).own (.page (.task d) i j') = none := by
    intro j' hj'
    rw [hpage.own, Function.update_apply]
    split_ifs with hp
    · rfl
    · have hne : j' ≠ j := fun he => hp (by rw [he])
      exact h.pages (by omega)
  have hentry : s.tableEntry (.task d) i = (s.withMm m).tableEntry (.task d) i := by
    have hown : (s.withMm m).own (.table (.task d) i) = s.own (.table (.task d) i) := by
      rw [hpage.own, Function.update_of_ne (by simp)]
    cases ht : s.own (.table (.task d) i) with
    | none => rw [frameOf_eq_none.mp ht, frameOf_eq_none.mp (hown.trans ht)]
    | some t => rw [h.inv.tableEntry_eq ht, hpage.inv.tableEntry_eq (hown.trans ht)]
  refine ⟨hpage, hpages, hentry, fun hlast => ?_⟩
  subst hlast
  have hempty (j' : ℕ) : (s.withMm m).own (.page (.task d) i j') = none := by
    rcases Nat.lt_or_ge j' 1024 with hj' | hj'
    · exact hpages j' hj'
    · exact frameOf_eq_none.mpr (if_pos (.inr hj'))
  have htable := hpage.inv.freeUserTable hd hi hempty
  rw [withMm_mm, withMm_withMm] at htable
  rw [hentry]
  exact htable

/-- **An iteration** of the inner loop of `unmmap_ring3`. -/
lemma Dying.page {s₀ : Sys} (h : Dying s₀ d i j s) (hd : d ∈ s.dirs) (hi : i < 768)
    (hj : j < 1024) :
    Dying s₀ d i (j + 1) (s.withMm (Mm.unmmapRing3Page d i j s.mm)) := by
  rw [Mm.unmmapRing3Page, h.inv.readEntry_dir hd hi]
  obtain ⟨hpage, hpages, -, htab⟩ := h.parts hd hi hj rfl
  generalize s.mm.freeUserPage (s.tableEntry (.task d) i) j = m at hpage hpages htab ⊢
  have htables {i' : ℕ} (hi' : i' < i) : (s.withMm m).own (.table (.task d) i') = none := by
    rw [hpage.own, Function.update_of_ne (by simp)]
    exact h.tables (.inl hi')
  by_cases hlast : j = 1023
  · have htable := htab hlast
    refine ⟨htable.inv, (h.confined.trans hpage.confined).trans htable.confined, ?_, ?_⟩
    · rintro i' (hi' | ⟨rfl, -⟩)
      · rw [htable.own, Function.update_of_ne (by simp; omega)]
        exact htables hi'
      · rw [htable.own, Function.update_self]
    · intro j' hj'
      rw [htable.own, Function.update_of_ne (by simp)]
      exact hpages j' hj'
  · rw [Mm.freeUserTable, if_neg (by omega)]
    have hown : (s.withMm m.unmapTmpPage).own = (s.withMm m).own := own_congr rfl rfl rfl
    refine ⟨hpage.inv.tmp 0, (h.confined.trans hpage.confined).trans (.tmp d _ 0), ?_, ?_⟩
    · rintro i' (hi' | ⟨-, hj'⟩)
      · rw [hown]
        exact htables hi'
      · omega
    · intro j' hj'
      rw [hown]
      exact hpages j' hj'

/-- The loop of the first table begins at its second page. -/
lemma Dying.second {s₀ : Sys} (h : Dying s₀ d 0 0 s) : Dying s₀ d 0 1 s := by
  refine ⟨h.inv, h.confined, fun {i'} hi' => h.tables (by omega), fun {j'} hj' => ?_⟩
  obtain rfl : j' = 0 := by omega
  exact h.inv.null d

/-- After the last page of a table comes the first of the next. -/
lemma Dying.next {s₀ : Sys} (h : Dying s₀ d i 1024 s) : Dying s₀ d (i + 1) 0 s :=
  ⟨h.inv, h.confined, fun {i'} hi' => h.tables (by omega), fun hj' =>
    absurd hj' (Nat.not_lt_zero _)⟩

/-- **The inner loop** of `unmmap_ring3` frees the pages of a table, and the table. -/
lemma Dying.table {s₀ : Sys} (h : Dying s₀ d i 0 s) (hd : d ∈ s₀.dirs) (hi : i < 768) :
    Dying s₀ d (i + 1) 0 (s.withMm (Mm.unmmapRing3Table d i s.mm)) := by
  have hdirs : s.dirs = s₀.dirs := h.confined.dirs
  have hloop (lo n : ℕ) (hn : lo + n = 1024) (h : Dying s₀ d i lo s) :
      Dying s₀ d i 1024 (s.withMm (Loop.forEach (Mm.unmmapRing3Page d i) lo n s.mm)) := by
    have hend := Loop.forEach_rule (n := n) (I := fun j mm => Dying s₀ d i j (s.withMm mm))
      (fun j mm _ h₂ hdying => hdying.page (s := s.withMm mm) (hdirs ▸ hd) hi (by omega)) h
    rw [hn] at hend
    exact hend
  refine Dying.next ?_
  rw [Mm.unmmapRing3Table]
  split_ifs with hz
  · subst hz
    exact hloop 1 1023 rfl h.second
  · exact hloop 0 1024 rfl h

/-- **A directory with no tables is given back.** -/
lemma Inv.dropDir (h : Inv s) (hd : d ∈ s.dirs)
    (hempty : ∀ i < 768, s.own (.table (.task d) i) = none) :
    Inv ⟨s.mm.release (d / 4096), s.dirs.erase d⟩ ∧
      Sys.own ⟨s.mm.release (d / 4096), s.dirs.erase d⟩ =
        Function.update s.own (.dir d) none := by
  have hmem {d' : ℕ} : d' ∈ s.dirs.erase d ↔ d' ≠ d ∧ d' ∈ s.dirs := h.nodup.mem_erase_iff
  have htable (sp : Space) (i : ℕ) :
      Sys.tableEntry ⟨s.mm.release (d / 4096), s.dirs.erase d⟩ sp i = s.tableEntry sp i := by
    cases sp with
    | kernel => rfl
    | task d' =>
      by_cases hdd : d' = d
      · subst hdd
        have hold : s.tableEntry (.task d') i = 0 := by
          by_cases hi : i < 768
          · exact frameOf_eq_none.mp (hempty i hi)
          · exact if_neg fun hc => hi hc.2
        rw [hold]
        exact if_neg fun hc => (hmem.mp hc.1).1 rfl
      · have hcov : Sys.Covers ⟨s.mm.release (d / 4096), s.dirs.erase d⟩ (.task d') i ↔
            s.Covers (.task d') i := by
          simp [Covers, hmem, hdd]
        unfold tableEntry
        simp only [hcov]
        rfl
  have hpage (sp : Space) (i j : ℕ) :
      Sys.pageEntry ⟨s.mm.release (d / 4096), s.dirs.erase d⟩ sp i j = s.pageEntry sp i j := by
    unfold pageEntry
    rw [htable]
    rfl
  have hown : Sys.own ⟨s.mm.release (d / 4096), s.dirs.erase d⟩ =
      Function.update s.own (.dir d) none := by
    funext q
    cases q with
    | dir d' =>
      by_cases hdd : d' = d
      · subst hdd
        rw [Function.update_self]
        exact if_neg fun hm => (hmem.mp hm).1 rfl
      · rw [Function.update_of_ne (by simpa using hdd)]
        simp [own, hmem, hdd]
    | table sp i =>
      rw [Function.update_of_ne (by simp)]
      exact congrArg frameOf (htable sp i)
    | page sp i j =>
      rw [Function.update_of_ne (by simp)]
      exact congrArg frameOf (hpage sp i j)
  refine ⟨⟨h.size, h.quiet, ?_, ?_, ?_, ?_, h.nodup.erase d, ?_, ?_, h.low, ?_, ?_, ?_⟩, hown⟩
  · rw [hown]
    exact h.sound.drop (own_dir hd) fun g hg hu => Mm.used_release.mpr ⟨hg, hu⟩
  · intro q g hq
    rw [hown, Function.update_apply] at hq
    split_ifs at hq
    exact h.bound hq
  · intro sp i
    rw [htable]
    exact h.tables
  · intro sp i j
    rw [hpage]
    exact h.pages
  · intro d' hd'
    exact h.aligned d' (hmem.mp hd').2
  · intro g hr
    refine ⟨Mm.used_release.mpr ⟨(h.reserved hr).ne (own_dir hd), (h.reserved hr).1⟩,
      fun q hq => ?_⟩
    rw [hown, Function.update_apply] at hq
    split_ifs at hq
    exact (h.reserved hr).2 q hq
  · intro i j
    rw [hpage]
    exact h.heap
  · intro d'
    rw [hown, Function.update_of_ne (by simp)]
    exact h.null d'
  · intro d' hd'
    exact h.halves d' (hmem.mp hd').2

/-- What `unmmap_ring3` has done: the task is gone, and nothing else has changed. -/
structure Destroyed (s : Sys) (d : ℕ) (s' : Sys) : Prop where
  inv : Inv s'
  dirs : s'.dirs = s.dirs.erase d
  kernel : s'.mm.kernelPageDirectory = s.mm.kernelPageDirectory
  tasks : ∀ {d'}, d' ∈ s.dirs → d' ≠ d → s'.mm.mem (d' / 4096) = s.mm.mem (d' / 4096)
  others : ∀ {d' p}, d' ≠ d → Place.OfTask d' p → s'.own p = s.own p

/-- **The outer loop** of `unmmap_ring3` frees all tables of the task. -/
lemma Inv.unmmapRing3Tables (h : Inv s) (hd : d ∈ s.dirs) :
    Dying s d 768 0 (s.withMm (Loop.forEach (Mm.unmmapRing3Table d) 0 768 s.mm)) := by
  have hstart : Dying s d 0 0 (s.withMm s.mm) :=
    ⟨h, .refl d s, fun hi => by omega, fun hj => absurd hj (Nat.not_lt_zero _)⟩
  have hloop := Loop.forEach_rule (n := 768) (I := fun i mm => Dying s d i 0 (s.withMm mm))
    (fun i mm _ hi hdying => hdying.table (s := s.withMm mm) hd (by omega)) hstart
  rw [Nat.zero_add] at hloop
  exact hloop

/-- **`unmmap_ring3`** destroys a task. -/
lemma Inv.unmmapRing3 (h : Inv s) (hd : d ∈ s.dirs) :
    Destroyed s d ⟨s.mm.unmmapRing3 d, s.dirs.erase d⟩ := by
  have heq : s.mm.unmmapRing3 d =
      (Loop.forEach (Mm.unmmapRing3Table d) 0 768 s.mm).release (d / 4096) := by
    rw [Mm.unmmapRing3, Mm.pmmFree_one, mask_div (h.dir_lt hd)]
  obtain ⟨m, hm, hloop⟩ : ∃ m, m = Loop.forEach (Mm.unmmapRing3Table d) 0 768 s.mm ∧
      Dying s d 768 0 (s.withMm m) := ⟨_, rfl, h.unmmapRing3Tables hd⟩
  rw [← hm] at heq
  rw [heq]
  have hempty : ∀ i < 768, (s.withMm m).own (.table (.task d) i) = none :=
    fun i hi => hloop.tables (.inl (by omega))
  obtain ⟨hinv, hown⟩ := hloop.inv.dropDir hd hempty
  refine ⟨hinv, rfl, hloop.confined.kernel, ?_, ?_⟩
  · intro d' hd' hne
    exact (hloop.confined.alien (h.alien (p := .dir d') hne (own_dir hd'))).2
  · intro d' p hne hp
    have hp' : ¬ p.OfTask d := by
      cases p with
      | dir d'' => exact fun he => hne (Eq.trans (Eq.symm hp) he)
      | table sp i => exact fun he => hne (Space.task.inj (Eq.trans (Eq.symm hp) he))
      | page sp i j => exact fun he => hne (Space.task.inj (Eq.trans (Eq.symm hp) he))
    refine (congrFun hown p).trans ?_
    rw [Function.update_of_ne (by rintro rfl; exact hp' rfl)]
    exact hloop.confined.own_eq h hp'

end Sys

end AlphaOS
