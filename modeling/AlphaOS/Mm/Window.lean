import AlphaOS.Mm.Runs
import AlphaOS.Lib.Reach

set_option relaxedAutoImplicit false
set_option autoImplicit false

/-!
# The window of the kernel heap

Three structures say which pages of the kernel heap are mapped: `kheap_pages`, the page tables and
the frame bitmap. This file states how they agree, for entries with any flags, and follows the small
changes that `mmap` and `unmmap` are made of: a frame is taken, a table is put in the directory, an
entry is written or cleared.

## Main definitions

* `AlphaOS.Mm.kernelEntry`, `AlphaOS.Mm.heapEntry` — the entry of a page of the kernel's half, of a
  heap page.
* `AlphaOS.Mm.held` — the frame of each table and page of the heap.
* `AlphaOS.Mm.Window` — the invariant.

## Main results

* `AlphaOS.Mm.Window.take`, `AlphaOS.Mm.Window.putKernel`, `AlphaOS.Mm.Window.mapPage`,
  `AlphaOS.Mm.Window.unmapPage` — the changes keep the invariant.

## Design

The frames of the tables and pages of the heap are a ledger. The other entries of the kernel's
directory are fixed: they are the boot page table and the tables of the framebuffer, whose frames
were set aside.
-/

namespace AlphaOS

namespace Mm

variable {s s' s'' : Mm} {f g t i j k u v n lo flags : ℕ} {page : ℕ → ℕ}

/-! ## Entries -/

/-- The entry `j` of the page table behind entry `i` of the kernel's directory; zero without a
table. -/
def kernelEntry (s : Mm) (i j : ℕ) : ℕ :=
  if s.kernelPageDirectory i = 0 then 0 else s.mem (s.kernelPageDirectory i / 4096) j

/-- The page-table entry of heap page `v`. -/
def heapEntry (s : Mm) (v : ℕ) : ℕ := s.kernelEntry (769 + v / 1024) (v % 1024)

/-- The directory entries of the heap. -/
def InHeap (i : ℕ) : Prop := 769 ≤ i ∧ i < 896

instance (i : ℕ) : Decidable (InHeap i) := inferInstanceAs (Decidable (_ ∧ _))

/-- A heap page is behind a directory entry of the heap. -/
lemma inHeap_of_lt (hv : v < kheapPagesNum) : InHeap (769 + v / 1024) := by
  have hv' : v < 130048 := hv
  constructor <;> omega

/-- Where the heap uses a frame: as the table of directory entry `i`, or as heap page `v`. -/
inductive HeapSlot
  | table (i : ℕ)
  | page (v : ℕ)
deriving DecidableEq, Repr

/-- The frame at each slot. -/
def held (s : Mm) : HeapSlot → Option ℕ
  | .table i => if InHeap i then frameOf (s.kernelPageDirectory i) else none
  | .page v => if v < kheapPagesNum then frameOf (s.heapEntry v) else none

/-- The table of a directory entry of the heap is at the frame of the entry. -/
lemma held_table (hi : InHeap i) (hne : s.kernelPageDirectory i ≠ 0) :
    s.held (.table i) = some (s.kernelPageDirectory i / 4096) := by
  rw [held, if_pos hi]
  exact if_neg hne

/-- A mapped heap page is at the frame of its entry. -/
lemma held_page (hv : v < kheapPagesNum) (hne : s.heapEntry v ≠ 0) :
    s.held (.page v) = some (s.heapEntry v / 4096) := by
  rw [held, if_pos hv]
  exact if_neg hne

/-- The ledger depends on the entries. -/
lemma held_congr (hkpd : ∀ i, InHeap i → s'.kernelPageDirectory i = s.kernelPageDirectory i)
    (hentry : ∀ v < kheapPagesNum, s'.heapEntry v = s.heapEntry v) : s'.held = s.held := by
  funext p
  cases p with
  | table i =>
    rw [held, held]
    split_ifs with hi
    · rw [hkpd i hi]
    · rfl
  | page v =>
    rw [held, held]
    split_ifs with hv
    · rw [hentry v hv]
    · rfl

/-! ## The invariant -/

/-- **The invariant.** -/
structure Window (s : Mm) : Prop where
  quiet : s.overrun = false
  /-- The frames of the heap are recorded as used, and each is at one slot. -/
  sound : Ledger.Sound s.held s.used
  low : ∀ {p f}, s.held p = some f → f < 2 ^ 20
  /-- Frame `0` is set aside. -/
  zero : Ledger.Loose s.held s.used 0
  /-- So are the tables outside of the heap. -/
  fixed : ∀ {i}, i < 1024 → ¬InHeap i → s.kernelPageDirectory i ≠ 0 →
    Ledger.Loose s.held s.used (s.kernelPageDirectory i / 4096)
  /-- `kheap_pages` records the pages that have an entry. -/
  record : ∀ {v}, v < kheapPagesNum → (s.kheapPages v = 1 ↔ s.heapEntry v ≠ 0) ∧ s.kheapPages v ≤ 1

/-- The frame is not a table of the kernel's directory. -/
def NotTable (s : Mm) (f : ℕ) : Prop :=
  ∀ i < 1024, s.kernelPageDirectory i ≠ 0 → s.kernelPageDirectory i / 4096 ≠ f

/-- The frame is not a table outside of the heap. -/
def Apart (s : Mm) (f : ℕ) : Prop :=
  ∀ i < 1024, ¬InHeap i → s.kernelPageDirectory i ≠ 0 → s.kernelPageDirectory i / 4096 ≠ f

/-- A frame that is not used is not a table. -/
lemma Window.notTable_of_free (h : Window s) (hfree : ¬s.used f) : s.NotTable f := by
  intro i hi hne heq
  by_cases hheap : InHeap i
  · exact hfree (heq ▸ h.sound.used_of_own (held_table hheap hne))
  · exact hfree (heq ▸ (h.fixed hi hheap hne).1)

/-- A page is not a table. -/
lemma Window.notTable_of_page (h : Window s) (hp : s.held (.page v) = some f) : s.NotTable f := by
  intro i hi hne heq
  by_cases hheap : InHeap i
  · have hslot := h.sound.inj (held_table hheap hne) (heq ▸ hp)
    cases hslot
  · exact (h.fixed hi hheap hne).ne hp heq

/-- Entries are words. -/
lemma Window.directory_lt (h : Window s) (hi : InHeap i) (hne : s.kernelPageDirectory i ≠ 0) :
    s.kernelPageDirectory i < 2 ^ 32 := by
  have hlt := h.low (held_table hi hne)
  omega

/-- Writing a frame that is no table leaves the entries alone. -/
lemma kernelEntry_put (hf : s.NotTable f) (hi : i < 1024) (j : ℕ) (page : ℕ → ℕ) :
    (s.put f page).kernelEntry i j = s.kernelEntry i j := by
  have hkpd : (s.put f page).kernelPageDirectory = s.kernelPageDirectory := rfl
  rw [kernelEntry, kernelEntry, hkpd]
  by_cases hz : s.kernelPageDirectory i = 0
  · rw [if_pos hz, if_pos hz]
  · rw [if_neg hz, if_neg hz]
    exact congrFun (Function.update_of_ne (hf i hi hz) _ _) j

/-- The entries of heap pages are entries of the kernel's directory. -/
lemma heapEntry_congr (h : ∀ i, InHeap i → ∀ j < 1024, s'.kernelEntry i j = s.kernelEntry i j)
    (hv : v < kheapPagesNum) : s'.heapEntry v = s.heapEntry v :=
  h _ (inHeap_of_lt hv) _ (Nat.mod_lt v (by omega))

/-- A change of the bitmap and of frames that are no tables keeps the invariant, if no used frame
becomes free. -/
lemma Window.of_same (h : Window s) (s' : Mm) (hquiet : s'.overrun = s.overrun)
    (hused : ∀ g, s.used g → s'.used g) (hkpd : s'.kernelPageDirectory = s.kernelPageDirectory)
    (hentry : ∀ v < kheapPagesNum, s'.heapEntry v = s.heapEntry v)
    (hrec : s'.kheapPages = s.kheapPages) : Window s' ∧ s'.held = s.held := by
  have hheld : s'.held = s.held := held_congr (fun i _ => by rw [hkpd]) hentry
  refine ⟨⟨hquiet ▸ h.quiet, ?_, ?_, ?_, ?_, ?_⟩, hheld⟩
  · rw [hheld]
    exact h.sound.mono hused
  · rw [hheld]
    exact h.low
  · rw [hheld]
    exact ⟨hused 0 h.zero.1, h.zero.2⟩
  · intro i hi hheap
    rw [hheld, hkpd]
    intro hne
    exact ⟨hused _ (h.fixed hi hheap hne).1, (h.fixed hi hheap hne).2⟩
  · intro v hv
    rw [hrec, hentry v hv]
    exact h.record hv

/-- The state after the kernel has stored the word `w` at index `j` of heap page `v`. -/
def storeWord (s : Mm) (v j w : ℕ) : Mm :=
  { s with
    mem := Function.update s.mem (s.heapEntry v / 4096)
      (Function.update (s.mem (s.heapEntry v / 4096)) j w) }

/-- **Storing** into a mapped heap page leaves every entry alone. -/
lemma Window.storeWord (h : Window s) (hv : v < kheapPagesNum) (he : s.heapEntry v ≠ 0) (j w : ℕ) :
    Window (s.storeWord v j w) := by
  have hentry : ∀ i < 1024, ∀ n, (s.storeWord v j w).kernelEntry i n = s.kernelEntry i n :=
    fun i hi n =>
    kernelEntry_put (h.notTable_of_page (held_page hv he)) hi n _
  have hheap : ∀ u < kheapPagesNum, (s.storeWord v j w).heapEntry u = s.heapEntry u := fun u hu =>
    heapEntry_congr (fun i hi n _ => hentry i (by have := hi.2; omega) n) hu
  exact (h.of_same (s.storeWord v j w) rfl (fun _ hg => hg) rfl hheap rfl).1

/-! ## Taking a frame -/

/-- Every entry of the kernel's directory and of its tables is the same. -/
structure SameEntries (s s' : Mm) : Prop where
  directory : s'.kernelPageDirectory = s.kernelPageDirectory
  entries : ∀ i < 1024, ∀ j, s'.kernelEntry i j = s.kernelEntry i j

/-- **Taking a free frame** and filling it with zeros. -/
lemma Window.take (h : Window s) (hfree : ¬s.used f) :
    Window ((s.take f).put f fun _ => 0) ∧ ((s.take f).put f fun _ => 0).held = s.held ∧
      Ledger.Loose s.held ((s.take f).put f fun _ => 0).used f ∧
      SameEntries s ((s.take f).put f fun _ => 0) := by
  have hentry : ∀ i < 1024, ∀ j,
      ((s.take f).put f fun _ => 0).kernelEntry i j = s.kernelEntry i j :=
    fun i hi j => kernelEntry_put (s := s.take f) (h.notTable_of_free hfree) hi j _
  have hused : ∀ g, ((s.take f).put f fun _ => 0).used g ↔ g = f ∨ s.used g := fun _ => used_take
  have hheap : ∀ v < kheapPagesNum, ((s.take f).put f fun _ => 0).heapEntry v = s.heapEntry v :=
    fun v hv =>
    heapEntry_congr (fun i hi j _ => hentry i (by have := hi.2; omega) j) hv
  obtain ⟨hwindow, hheld⟩ :=
    h.of_same ((s.take f).put f fun _ => 0) rfl (fun g hg => (hused g).mpr (.inr hg)) rfl hheap rfl
  exact ⟨hwindow, hheld, (h.sound.take hfree hused).2, rfl, hentry⟩

/-! ## Putting a table in the directory -/

/-- An entry names its frame, which is not frame `0`. -/
lemma entry_spec (hf : f < 2 ^ 20) (hne : f ≠ 0) (hflags : flags < 256) :
    entry (f * 4096) flags = f * 4096 + flags ∧ (f * 4096 + flags) / 4096 = f ∧
      f * 4096 + flags ≠ 0 ∧ f * 4096 + flags < 2 ^ 32 :=
  ⟨entry_frame hf (by omega), by omega, by omega, by omega⟩

/-- The entries after an empty table is put in the directory. -/
lemma kernelEntry_putKernel {e : ℕ} (hz : s.kernelPageDirectory i = 0)
    (hzero : ∀ j < 1024, s.mem (e / 4096) j = 0) (k : ℕ) (hj : j < 1024) :
    (s.putKernel i e).kernelEntry k j = s.kernelEntry k j := by
  have hkpd :
      (s.putKernel i e).kernelPageDirectory k = if k = i then e else s.kernelPageDirectory k :=
    Function.update_apply ..
  have hmem : (s.putKernel i e).mem = s.mem := rfl
  rw [kernelEntry, kernelEntry, hkpd, hmem]
  by_cases hk : k = i
  · subst hk
    rw [if_pos rfl, if_pos hz, hzero j hj]
    exact ite_self 0
  · rw [if_neg hk]

/-- **An empty table is put in the directory.** -/
lemma Window.putKernel (h : Window s) (hi : InHeap i) (hz : s.kernelPageDirectory i = 0)
    (ht : Ledger.Loose s.held s.used t) (hlt : t < 2 ^ 20) (hne : t ≠ 0) (hflags : flags < 256)
    (hapart : s.Apart t) (hzero : ∀ j < 1024, s.mem t j = 0) :
    Window (s.putKernel i (t * 4096 + flags)) ∧
      (s.putKernel i (t * 4096 + flags)).held = Function.update s.held (.table i) (some t) := by
  obtain ⟨-, hdiv, hpos, -⟩ := entry_spec hlt hne hflags
  have hentry : ∀ v, (s.putKernel i (t * 4096 + flags)).heapEntry v = s.heapEntry v := fun v =>
    kernelEntry_putKernel hz (by rwa [hdiv]) _ (Nat.mod_lt v (by omega))
  have hkpd : ∀ k, (s.putKernel i (t * 4096 + flags)).kernelPageDirectory k =
      if k = i then t * 4096 + flags else s.kernelPageDirectory k :=
        fun k => Function.update_apply ..
  have hheld :
      (s.putKernel i (t * 4096 + flags)).held = Function.update s.held (.table i) (some t) := by
    funext p
    cases p with
    | table k =>
      by_cases hk : k = i
      · subst hk
        rw [Function.update_self, held, if_pos hi, hkpd, if_pos rfl]
        exact frameOf_eq_some.mpr ⟨hpos, hdiv⟩
      · rw [Function.update_of_ne (by simpa using hk), held, held, hkpd, if_neg hk]
    | page v =>
      rw [Function.update_of_ne (by simp), held, held, hentry]
  refine ⟨⟨h.quiet, ?_, ?_, ?_, ?_, ?_⟩, hheld⟩
  · rw [hheld]
    exact h.sound.put ht
  · intro p g hp
    rw [hheld, Function.update_apply] at hp
    split_ifs at hp
    · exact Option.some.inj hp ▸ hlt
    · exact h.low hp
  · rw [hheld]
    exact h.zero.put (Ne.symm hne)
  · intro k hk hheap hknz
    have hki : k ≠ i := fun heq => hheap (heq ▸ hi)
    rw [hkpd, if_neg hki] at hknz ⊢
    rw [hheld]
    exact (h.fixed hk hheap hknz).put (hapart k hk hheap hknz)
  · intro v hv
    rw [hentry]
    exact h.record hv

/-! ## Writing an entry of a table -/

/-- The entries after an entry of a table is written that no other directory entry names. -/
lemma kernelEntry_put_entry {e : ℕ} (hne : s.kernelPageDirectory i ≠ 0)
    (hframe : k ≠ i → s.kernelPageDirectory k ≠ 0 →
      s.kernelPageDirectory k / 4096 ≠ s.kernelPageDirectory i / 4096) :
    (s.put (s.kernelPageDirectory i / 4096)
      (Function.update (s.mem (s.kernelPageDirectory i / 4096)) j e)).kernelEntry k n =
      if k = i ∧ n = j then e else s.kernelEntry k n := by
  have hkpd : (s.put (s.kernelPageDirectory i / 4096) (Function.update
      (s.mem (s.kernelPageDirectory i / 4096)) j e)).kernelPageDirectory =
        s.kernelPageDirectory := rfl
  have hmem : (s.put (s.kernelPageDirectory i / 4096) (Function.update
      (s.mem (s.kernelPageDirectory i / 4096)) j e)).mem = Function.update s.mem
        (s.kernelPageDirectory i / 4096)
          (Function.update (s.mem (s.kernelPageDirectory i / 4096)) j e) := rfl
  rw [kernelEntry, kernelEntry, hkpd, hmem]
  by_cases hki : k = i
  · subst hki
    rw [if_neg hne, if_neg hne, Function.update_self, Function.update_apply]
    simp
  · rw [if_neg (show ¬(k = i ∧ n = j) from fun hc => hki hc.1)]
    by_cases hz : s.kernelPageDirectory k = 0
    · rw [if_pos hz, if_pos hz]
    · rw [if_neg hz, if_neg hz, Function.update_of_ne (hframe hki hz)]

/-- No other directory entry names a table of the heap. -/
lemma Window.table_ne (h : Window s) (hi : InHeap i) (hne : s.kernelPageDirectory i ≠ 0)
    (hk : k < 1024) (hki : k ≠ i) (hz : s.kernelPageDirectory k ≠ 0) :
    s.kernelPageDirectory k / 4096 ≠ s.kernelPageDirectory i / 4096 := by
  by_cases hheap : InHeap k
  · exact h.sound.ne (held_table hheap hz) (held_table hi hne) (by simpa using hki)
  · exact (h.fixed hk hheap hz).ne (held_table hi hne)

/-- Two heap pages with the same indices are the same page. -/
lemma heapIndex_inj : 769 + u / 1024 = 769 + v / 1024 ∧ u % 1024 = v % 1024 ↔ u = v := by
  omega

/-- The state after the entry of heap page `v` is set to `e` and `kheap_pages` to `b`. -/
def setHeapEntry (s : Mm) (v e b : ℕ) : Mm :=
  (s.put (s.kernelPageDirectory (769 + v / 1024) / 4096) (Function.update
    (s.mem (s.kernelPageDirectory (769 + v / 1024) / 4096)) (v % 1024) e)).record v b

/-- The entries after one is set. -/
lemma Window.kernelEntry_setHeapEntry (h : Window s) (hv : v < kheapPagesNum)
    (hne : s.kernelPageDirectory (769 + v / 1024) ≠ 0) (e b : ℕ) (hk : k < 1024) :
    (s.setHeapEntry v e b).kernelEntry k n =
      if k = 769 + v / 1024 ∧ n = v % 1024 then e else s.kernelEntry k n :=
  kernelEntry_put_entry hne (h.table_ne (inHeap_of_lt hv) hne hk)

/-- The entries of heap pages after one is set. -/
lemma Window.heapEntry_setHeapEntry (h : Window s) (hv : v < kheapPagesNum)
    (hne : s.kernelPageDirectory (769 + v / 1024) ≠ 0) (e b : ℕ) (hu : u < kheapPagesNum) :
    (s.setHeapEntry v e b).heapEntry u = if u = v then e else s.heapEntry u := by
  have hu' : u < 130048 := hu
  rw [heapEntry, h.kernelEntry_setHeapEntry hv hne e b (by omega)]
  simp only [heapIndex_inj]
  rfl

/-- The ledger after an entry is set. -/
lemma Window.held_setHeapEntry (h : Window s) (hv : v < kheapPagesNum)
    (hne : s.kernelPageDirectory (769 + v / 1024) ≠ 0) (e b : ℕ) :
    (s.setHeapEntry v e b).held = Function.update s.held (.page v) (frameOf e) := by
  funext p
  rw [Function.update_apply]
  cases p with
  | table i =>
    rw [if_neg (by simp)]
    rfl
  | page u =>
    by_cases huv : u = v
    · subst huv
      rw [held, if_pos hv, h.heapEntry_setHeapEntry hv hne e b hv, if_pos rfl, if_pos rfl]
    · rw [if_neg (by simpa using huv), held, held]
      by_cases hu : u < kheapPagesNum
      · rw [if_pos hu, if_pos hu, h.heapEntry_setHeapEntry hv hne e b hu, if_neg huv]
      · rw [if_neg hu, if_neg hu]

/-- `kheap_pages` after an entry is set. -/
lemma Window.record_setHeapEntry (h : Window s) (hv : v < kheapPagesNum)
    (hne : s.kernelPageDirectory (769 + v / 1024) ≠ 0) {e b : ℕ}
    (hb : b = 1 ∧ e ≠ 0 ∨ b = 0 ∧ e = 0) (hu : u < kheapPagesNum) :
    ((s.setHeapEntry v e b).kheapPages u = 1 ↔ (s.setHeapEntry v e b).heapEntry u ≠ 0) ∧
      (s.setHeapEntry v e b).kheapPages u ≤ 1 := by
  have hrec : (s.setHeapEntry v e b).kheapPages u = if u = v then b else s.kheapPages u :=
    Function.update_apply ..
  rw [hrec, h.heapEntry_setHeapEntry hv hne e b hu]
  by_cases huv : u = v
  · rw [if_pos huv, if_pos huv]
    omega
  · rw [if_neg huv, if_neg huv]
    exact h.record hu

/-- **A frame is mapped at a heap page.** -/
lemma Window.mapPage (h : Window s) (hv : v < kheapPagesNum)
    (hne : s.kernelPageDirectory (769 + v / 1024) ≠ 0) (hf : Ledger.Loose s.held s.used f)
    (hlt : f < 2 ^ 20) (hpos : f ≠ 0) (hflags : flags < 256)
    (hapart : s.Apart f) :
    Window (s.setHeapEntry v (f * 4096 + flags) 1) := by
  obtain ⟨-, hdiv, hez, -⟩ := entry_spec hlt hpos hflags
  have hframe : frameOf (f * 4096 + flags) = some f := frameOf_eq_some.mpr ⟨hez, hdiv⟩
  have hheld := h.held_setHeapEntry hv hne (f * 4096 + flags) 1
  rw [hframe] at hheld
  refine ⟨h.quiet, ?_, ?_, ?_, ?_, fun hu => h.record_setHeapEntry hv hne (.inl ⟨rfl, hez⟩) hu⟩
  · rw [hheld]
    exact h.sound.put hf
  · intro p g hp
    rw [hheld, Function.update_apply] at hp
    split_ifs at hp
    · exact Option.some.inj hp ▸ hlt
    · exact h.low hp
  · rw [hheld]
    exact h.zero.put (Ne.symm hpos)
  · intro k hk hheap hknz
    rw [hheld]
    exact (h.fixed hk hheap hknz).put (hapart k hk hheap hknz)

/-- **A heap page is unmapped** and its frame given back. -/
lemma Window.unmapPage (h : Window s) (hv : v < kheapPagesNum) (hp : s.held (.page v) = some f) :
    Window ((s.setHeapEntry v 0 0).release f) := by
  obtain ⟨hne, -⟩ := frameOf_eq_some.mp ((if_pos hv).symm.trans hp)
  have htable : s.kernelPageDirectory (769 + v / 1024) ≠ 0 := fun hz => hne (if_pos hz)
  have hheld : ((s.setHeapEntry v 0 0).release f).held = Function.update s.held (.page v) none :=
    h.held_setHeapEntry hv htable 0 0
  have hused : ∀ g, ((s.setHeapEntry v 0 0).release f).used g ↔ g ≠ f ∧ s.used g :=
    fun _ => used_release
  have hstill : ∀ g, Ledger.Loose s.held s.used g → ((s.setHeapEntry v 0 0).release f).used g :=
    fun g hg => (hused g).mpr ⟨hg.ne hp, hg.1⟩
  refine ⟨h.quiet, ?_, ?_, ?_, ?_, fun hu => h.record_setHeapEntry hv htable (.inr ⟨rfl, rfl⟩) hu⟩
  · rw [hheld]
    exact h.sound.drop hp fun g hg hu => (hused g).mpr ⟨hg, hu⟩
  · intro q g hq
    rw [hheld, Function.update_apply] at hq
    split_ifs at hq
    exact h.low hq
  · rw [hheld]
    exact h.zero.drop (hstill 0 h.zero)
  · intro k hk hheap hknz
    rw [hheld]
    exact (h.fixed hk hheap hknz).drop (hstill _ (h.fixed hk hheap hknz))

end Mm

end AlphaOS
