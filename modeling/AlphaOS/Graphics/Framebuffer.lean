import AlphaOS.Boot.Placement
import AlphaOS.Mm.HeapRuns

set_option relaxedAutoImplicit false
set_option autoImplicit false

/-!
# The mapping of the framebuffer

`init_video_memory` of `kernel/graphics/framebuffer.c` maps the framebuffer above the kernel heap.
Its loop carries a directory index, a table index and a physical address; the number of pages is the
size of the framebuffer divided by the page size. The division rounds down, and the address is cut
to a page, so the mapping is what the rest of the kernel takes it for only when the framebuffer is
made of whole pages.

## Main definitions

* `AlphaOS.Mm.translate` — the physical address behind an address of the kernel.
* `AlphaOS.Mm.ShowsFramebuffer` — every byte of the framebuffer is mapped, and the heap is as
  before.
* `AlphaOS.Mm.WholePages` — the framebuffer is made of whole pages.

## Main results

* `AlphaOS.Mm.showsFramebuffer_iff` — the mapping is right exactly for framebuffers of whole pages.
* `AlphaOS.Mm.last_bytes_unmapped` — a mode whose last bytes are not mapped.

## Design

`debug_write` is called after the last page of the window; it writes to the serial port and is left
out.
-/

namespace AlphaOS

namespace Mm

/-- `pages` of `init_video_memory`. -/
def videoPages (pitch height : ℕ) : ℕ := pitch * height % 2 ^ 32 / 4096

/-- A framebuffer below `4` GiB that fits in the window above `KHEAP_END`. -/
def FitsWindow (addr pitch height : ℕ) : Prop := addr < 2 ^ 32 ∧ pitch * height ≤ 2 ^ 32 - kheapEnd

instance (addr pitch height : ℕ) : Decidable (FitsWindow addr pitch height) :=
  inferInstanceAs (Decidable (_ ∧ _))

/-- The framebuffer is made of whole pages, and ends below `4` GiB. -/
def WholePages (addr pitch height : ℕ) : Prop :=
  pitch * height % 4096 = 0 ∧
    (0 < pitch * height → addr % 4096 = 0 ∧ addr + pitch * height ≤ 2 ^ 32)

instance (addr pitch height : ℕ) : Decidable (WholePages addr pitch height) :=
  inferInstanceAs (Decidable (_ ∧ _))

/-- The physical address behind an address of the kernel, when both entries on the way are present.
-/
def translate (s : Mm) (virt : ℕ) : Option ℕ :=
  if s.kernelPageDirectory (pdeIndex virt) % 2 = 1 ∧
      s.kernelEntry (pdeIndex virt) (pteIndex virt) % 2 = 1 then
    some (s.kernelEntry (pdeIndex virt) (pteIndex virt) / 4096 * 4096 + virt % 4096)
  else none

variable {s s' : Mm} {st : VideoState} {addr pitch height i j k : ℕ}

/-! ## Tables above the heap -/

/-- The tables of the directory are at frames in use, and those above the heap each at its own. -/
structure VideoTables (s : Mm) : Prop where
  zero : s.used 0
  used : ∀ i < 1024, s.kernelPageDirectory i ≠ 0 → s.used (s.kernelPageDirectory i / 4096)
  apart : ∀ i k, 896 ≤ i → i < 1024 → k < 1024 → k ≠ i → s.kernelPageDirectory i ≠ 0 →
    s.kernelPageDirectory k ≠ 0 → s.kernelPageDirectory k / 4096 ≠ s.kernelPageDirectory i / 4096
  /-- The entries above the heap are words, present and writable. -/
  flags : ∀ i, 896 ≤ i → i < 1024 → s.kernelPageDirectory i ≠ 0 →
    s.kernelPageDirectory i < 2 ^ 32 ∧ s.kernelPageDirectory i % 4096 = 3

/-- What has been done when there is a table behind directory entry `i`. -/
structure VideoReady (i : ℕ) (s s' : Mm) : Prop where
  tables : VideoTables s'
  table : s'.kernelPageDirectory i ≠ 0
  directory : ∀ k, k ≠ i ∨ s.kernelPageDirectory k ≠ 0 →
    s'.kernelPageDirectory k = s.kernelPageDirectory k
  entries : ∀ k j, k < 1024 → j < 1024 → s'.kernelEntry k j = s.kernelEntry k j
  count : s.lowCount = s'.lowCount + if s.kernelPageDirectory i = 0 then 1 else 0

/-- **`init_video_memory` makes sure of a table.** -/
lemma VideoTables.ensureTable (h : VideoTables s)
    (hfree : (if s.kernelPageDirectory i = 0 then 1 else 0) ≤ s.lowCount) :
    VideoReady i s (s.ensureTable i kernelFlags) := by
  by_cases hz : s.kernelPageDirectory i = 0
  · rw [if_pos hz] at hfree
    have hnot : ∀ f, ¬s.used f → s.NotTable f := fun f hf k hk hnz hk' => hf (hk' ▸ h.used k hk hnz)
    obtain ⟨t, hnew⟩ := newTable_ensureTable h.zero hnot hz (show kernelFlags < 256 by decide) hfree
    obtain ⟨⟨-, hunused⟩, hlow⟩ := mem_lowFrames.mp hnew.free
    obtain ⟨-, hdiv, hpos, hlt⟩ := entry_spec hlow hnew.pos (show kernelFlags < 256 by decide)
    have hflags : kernelFlags = 3 := by decide
    have hkpd := hnew.directory
    constructor
    case tables =>
      constructor
      case zero => exact (hnew.used 0).mpr (.inr h.zero)
      case used =>
        intro k hk hnz
        rw [hkpd] at hnz ⊢
        rw [hnew.used]
        split_ifs at hnz ⊢ with hki
        · exact .inl hdiv
        · exact .inr (h.used k hk hnz)
      case apart =>
        intro l k hl hl' hk hkl hlnz hknz
        rw [hkpd] at hlnz hknz ⊢
        rw [hkpd]
        split_ifs at hlnz hknz ⊢ with hki hli hli
        · exact absurd (hki.trans hli.symm) hkl
        · rw [hdiv]
          exact (hnot t hunused l hl' hlnz).symm
        · rw [hdiv]
          exact hnot t hunused k hk hknz
        · exact h.apart l k hl hl' hk hkl hlnz hknz
      case flags =>
        intro k hk hk' hnz
        rw [hkpd] at hnz ⊢
        split_ifs at hnz ⊢ with hki
        · omega
        · exact h.flags k hk hk' hnz
    case table =>
      rw [hkpd, if_pos rfl]
      exact hpos
    case directory =>
      intro k hk
      rw [hkpd, if_neg fun hki => hk.elim (· hki) fun hnz => hnz (hki ▸ hz)]
    case entries => exact fun k j hk hj => hnew.entries k j hj hk
    case count =>
      rw [if_pos hz]
      exact hnew.count.symm
  · have hsame : s.ensureTable i kernelFlags = s := by rw [Mm.ensureTable, if_neg hz]
    rw [hsame]
    exact ⟨h, hz, fun _ _ => rfl, fun _ _ _ _ => rfl, by rw [if_neg hz, Nat.add_zero]⟩

/-- **A page of the framebuffer is mapped.** -/
lemma VideoTables.mapVideoPage (h : VideoTables s) (hi : 896 ≤ i) (hi' : i < 1024)
    (hne : s.kernelPageDirectory i ≠ 0) (j addr : ℕ) :
    VideoTables (s.mapVideoPage i j addr) ∧
      (s.mapVideoPage i j addr).kernelPageDirectory = s.kernelPageDirectory ∧
      (s.mapVideoPage i j addr).lowCount = s.lowCount ∧
      ∀ k n, k < 1024 → (s.mapVideoPage i j addr).kernelEntry k n =
        if k = i ∧ n = j then entry addr kernelFlags else s.kernelEntry k n := by
  rw [Mm.mapVideoPage, writeEntry_eq (h.flags i hi hi' hne).1]
  refine ⟨⟨h.zero, h.used, h.apart, h.flags⟩, rfl, rfl, fun k n hk => ?_⟩
  exact kernelEntry_put_entry hne fun hki hnz => h.apart i k hi hi' hk hki hne hnz

/-! ## The loop -/

/-- What `init_video_memory` has done after `k` pages. -/
structure VideoMapped (addr k : ℕ) (s : Mm) (st : VideoState) : Prop where
  tables : VideoTables st.mm
  pde : st.basePde = 896 + k / 1024
  pte : st.basePte = k % 1024
  base : st.baseAddr = (addr + k * 4096) % 2 ^ 32
  present : ∀ i, 896 ≤ i → i < 1024 → (st.mm.kernelPageDirectory i ≠ 0 ↔ (i - 896) * 1024 < k)
  entries : ∀ i j, i < 1024 → j < 1024 → st.mm.kernelEntry i j =
    if 896 ≤ i ∧ (i - 896) * 1024 + j < k then
      entry ((addr + ((i - 896) * 1024 + j) * 4096) % 2 ^ 32) kernelFlags
    else s.kernelEntry i j
  below : ∀ i < 896, st.mm.kernelPageDirectory i = s.kernelPageDirectory i
  count : s.lowCount = st.mm.lowCount + (k + 1023) / 1024

/-- **One more page is mapped.**

**Proof sketch.** Page `k` is the first one behind its directory entry exactly when `k` is a
multiple of `1024`, and that is when the table is missing. -/
lemma VideoMapped.next (h : VideoMapped addr k s st) (hk : k < 131072)
    (hfree : (k + 1 + 1023) / 1024 ≤ s.lowCount) : VideoMapped addr (k + 1) s (videoPage st) := by
  have hi : 896 ≤ 896 + k / 1024 := Nat.le_add_right _ _
  have hi' : 896 + k / 1024 < 1024 := by omega
  have hpresent := h.present _ hi hi'
  have hmissing : st.mm.kernelPageDirectory (896 + k / 1024) = 0 ↔ k % 1024 = 0 := by omega
  have hcount := h.count
  have hneed :
      (if st.mm.kernelPageDirectory (896 + k / 1024) = 0 then 1 else 0) ≤ st.mm.lowCount := by
    split_ifs with hz
    · have := hmissing.mp hz
      omega
    · omega
  have hready := h.tables.ensureTable hneed
  have hmap :=
    hready.tables.mapVideoPage hi hi' hready.table (k % 1024) ((addr + k * 4096) % 2 ^ 32)
  have hmm : (videoPage st).mm = (st.mm.ensureTable (896 + k / 1024) kernelFlags).mapVideoPage
      (896 + k / 1024) (k % 1024) ((addr + k * 4096) % 2 ^ 32) := by
    rw [videoPage, h.pde, h.pte, h.base]
  have hpde : (videoPage st).basePde = if 1024 ≤ k % 1024 + 1 then 896 + k / 1024 + 1 else 896 +
      k / 1024 := by
    rw [videoPage, h.pde, h.pte]
  have hpte : (videoPage st).basePte = if 1024 ≤ k % 1024 + 1 then 0 else k % 1024 + 1 := by
    rw [videoPage, h.pte]
  have haddr : (videoPage st).baseAddr = ((addr + k * 4096) % 2 ^ 32 + 4096) % 2 ^ 32 := by
    rw [videoPage, h.base]
  generalize st.mm.ensureTable (896 + k / 1024) kernelFlags = s₁ at hready hmap hmm
  obtain ⟨htables, hdir, hlow, hentries⟩ := hmap
  rw [← hmm] at htables hdir hlow hentries
  constructor
  case tables => exact htables
  case pde =>
    rw [hpde]
    split_ifs <;> omega
  case pte =>
    rw [hpte]
    split_ifs <;> omega
  case base =>
    rw [haddr]
    omega
  case present =>
    intro i h₁ h₂
    rw [hdir]
    by_cases hik : i = 896 + k / 1024
    · rw [hik]
      refine ⟨fun _ => by omega, fun _ => hready.table⟩
    · rw [hready.directory i (.inl hik), h.present i h₁ h₂]
      omega
  case entries =>
    intro i j hi hj
    rw [hentries i j hi]
    by_cases hij : i = 896 + k / 1024 ∧ j = k % 1024
    · have hidx : (i - 896) * 1024 + j = k := by omega
      rw [if_pos hij, if_pos (by omega), hidx]
    · rw [if_neg hij, hready.entries i j hi hj, h.entries i j hi hj]
      exact if_congr (by omega) rfl rfl
  case below =>
    intro i hlt
    rw [hdir, hready.directory i (.inl (by omega)), h.below i hlt]
  case count =>
    have hready' := hready.count
    rw [hlow]
    split_ifs at hready' with hz
    · have := hmissing.mp hz
      omega
    · have : k % 1024 ≠ 0 := fun hz' => hz (hmissing.mpr hz')
      omega

/-- The state in which `init_video_memory` is called: there is nothing above the heap, and frame `0`
and the tables of the directory are set aside. -/
structure VideoBoot (s : Mm) : Prop where
  zero : s.used 0
  used : ∀ i < 1024, s.kernelPageDirectory i ≠ 0 → s.used (s.kernelPageDirectory i / 4096)
  above : ∀ i, 896 ≤ i → i < 1024 → s.kernelPageDirectory i = 0

/-- **`init_video_memory`** maps its pages. -/
lemma VideoBoot.initVideoMemory (h : VideoBoot s) (hpages : videoPages pitch height ≤ 131072)
    (hfree : (videoPages pitch height + 1023) / 1024 ≤ s.lowCount) (addr : ℕ) :
    ∃ st : VideoState, VideoMapped addr (videoPages pitch height) s st ∧
      st.mm = s.initVideoMemory addr pitch height := by
  have hloop : VideoMapped addr (0 + videoPages pitch height) s (Loop.forEach (fun _ => videoPage) 0
      (videoPages pitch height) ⟨s, pdeIndex kheapEnd, pteIndex kheapEnd, addr % 2 ^ 32⟩) := by
    refine Loop.forEach_rule (I := fun k st => VideoMapped addr k s st) ?_ ?_
    · intro k st _ hk hst
      exact hst.next (by omega) (by omega)
    · constructor
      case tables =>
        refine ⟨h.zero, h.used, fun i _ h₁ h₂ _ _ hne => ?_, fun i h₁ h₂ hne => ?_⟩
        · exact absurd (h.above i h₁ h₂) hne
        · exact absurd (h.above i h₁ h₂) hne
      case pde => exact show pdeIndex kheapEnd = 896 by decide
      case pte => exact show pteIndex kheapEnd = 0 by decide
      case base => rw [Nat.zero_mul, Nat.add_zero]
      case present =>
        intro i h₁ h₂
        simp [h.above i h₁ h₂]
      case entries =>
        intro i j _ _
        rw [if_neg (by omega)]
      case below => exact fun _ _ => rfl
      case count => rfl
  rw [Nat.zero_add] at hloop
  exact ⟨_, hloop, rfl⟩

/-! ## Translations -/

/-- `FRAMEBUFFER_ADDR`. -/
def framebufferAddr : ℕ := 0xE0000000

/-- Every byte of the framebuffer is behind its address above `FRAMEBUFFER_ADDR`, and every address
of the heap is translated as before. -/
def ShowsFramebuffer (addr pitch height : ℕ) (s s' : Mm) : Prop :=
  (∀ off < pitch * height, s'.translate (framebufferAddr + off) = some (addr + off)) ∧
    ∀ a, kheapStart ≤ a → a < kheapEnd → s'.translate a = s.translate a

/-- The entries that a byte of the framebuffer is behind. -/
lemma indices_framebuffer {off : ℕ} (hoff : off < 2 ^ 29) :
    pdeIndex (framebufferAddr + off) = 896 + off / 4096 / 1024 ∧
      pteIndex (framebufferAddr + off) = off / 4096 % 1024 := by
  rw [pdeIndex_eq, pteIndex_eq, framebufferAddr]
  omega

/-- An entry of the framebuffer. -/
lemma entry_video (h : addr < 2 ^ 32) : entry addr kernelFlags = addr / 4096 * 4096 + 3 := by
  rw [entry, pageMask, Bits.and_mask h, Bits.or_flags (by decide)]
  rfl

/-- **What a byte of the framebuffer is translated to.** -/
lemma VideoMapped.translate_framebuffer (h : VideoMapped addr k s st) (hs : VideoBoot s) {off : ℕ}
    (hoff : off < 2 ^ 29) : st.mm.translate (framebufferAddr + off) =
      if off / 4096 < k then some ((addr + off / 4096 * 4096) % 2 ^ 32 / 4096 * 4096 + off % 4096)
      else none := by
  obtain ⟨hpde, hpte⟩ := indices_framebuffer hoff
  have hi : 896 + off / 4096 / 1024 < 1024 := by omega
  have hj : off / 4096 % 1024 < 1024 := Nat.mod_lt _ (by omega)
  have hidx : (896 + off / 4096 / 1024 - 896) * 1024 + off / 4096 % 1024 = off / 4096 := by omega
  have hentry := h.entries _ _ hi hj
  rw [hidx] at hentry
  have hpresent := h.present _ (Nat.le_add_right 896 _) hi
  rw [translate, hpde, hpte, hentry]
  by_cases hk : off / 4096 < k
  · have hlt : (addr + off / 4096 * 4096) % 2 ^ 32 < 2 ^ 32 := Nat.mod_lt _ (by omega)
    have hflags := (h.tables.flags _ (Nat.le_add_right 896 _) hi (hpresent.mpr (by omega))).2
    rw [if_pos (show 896 ≤ _ ∧ off / 4096 < k from ⟨Nat.le_add_right 896 _, hk⟩), if_pos hk,
      entry_video hlt, if_pos (by omega)]
    generalize (addr + off / 4096 * 4096) % 2 ^ 32 / 4096 = f
    have hframe : (f * 4096 + 3) / 4096 = f := by omega
    have hbyte : (framebufferAddr + off) % 4096 = off % 4096 := by
      rw [framebufferAddr]
      omega
    rw [hframe, hbyte]
  · have hzero : s.kernelEntry (896 + off / 4096 / 1024) (off / 4096 % 1024) = 0 :=
      if_pos (hs.above _ (Nat.le_add_right 896 _) hi)
    rw [if_neg (show ¬(896 ≤ _ ∧ off / 4096 < k) from fun hc => hk hc.2), if_neg hk, hzero]
    exact if_neg fun hc => by omega

/-- The addresses of the heap are translated as before. -/
lemma VideoMapped.translate_heap (h : VideoMapped addr k s st) {a : ℕ} (ha : kheapStart ≤ a)
    (ha' : a < kheapEnd) : st.mm.translate a = s.translate a := by
  have hstart : kheapStart = 0xC0400000 := rfl
  have hend : kheapEnd = 0xE0000000 := rfl
  have hi : pdeIndex a < 896 := by
    rw [pdeIndex_eq]
    omega
  have hj : pteIndex a < 1024 := by
    rw [pteIndex_eq]
    exact Nat.mod_lt _ (by omega)
  have hentry :
      st.mm.kernelEntry (pdeIndex a) (pteIndex a) = s.kernelEntry (pdeIndex a) (pteIndex a) := by
    rw [h.entries _ _ (by omega) hj, if_neg (by omega)]
  rw [translate, translate, h.below _ hi, hentry]

/-- **The mapping of the framebuffer.** On every framebuffer below `4` GiB that fits in the window,
`init_video_memory` maps every byte to its place exactly when the framebuffer is made of whole
pages.

**Proof sketch.** Byte `off` is mapped when its page is below the number of pages, rounded down, and
then it is behind the frame of the address of its page. The first byte shows that the address has to
be that of a page, the last one that the size has to be a number of pages, and the first byte from
`4` GiB on that there must not be one. -/
theorem showsFramebuffer_iff (hs : VideoBoot s) (hfits : FitsWindow addr pitch height)
    (hfree : (videoPages pitch height + 1023) / 1024 ≤ s.lowCount) :
    ShowsFramebuffer addr pitch height s (s.initVideoMemory addr pitch height) ↔
      WholePages addr pitch height := by
  obtain ⟨haddr, hbytes⟩ := hfits
  have hend : kheapEnd = 0xE0000000 := rfl
  have hpages : videoPages pitch height = pitch * height / 4096 := by
    rw [videoPages, Nat.mod_eq_of_lt (by omega)]
  obtain ⟨st, hst, hmm⟩ := hs.initVideoMemory (by omega) hfree addr
  rw [← hmm, ShowsFramebuffer, WholePages]
  generalize pitch * height = bytes at hbytes hpages
  have htranslate : ∀ off < bytes, st.mm.translate (framebufferAddr + off) = some (addr + off) ↔
      off / 4096 < videoPages pitch height ∧
        (addr + off / 4096 * 4096) % 2 ^ 32 / 4096 * 4096 + off % 4096 = addr + off := by
    intro off hoff
    rw [hst.translate_framebuffer hs (by omega)]
    split_ifs with hk
    · simp [hk]
    · simp [hk]
  constructor
  · rintro ⟨hall, -⟩
    have hall' := fun off hoff => (htranslate off hoff).mp (hall off hoff)
    refine ⟨?_, fun hpos => ⟨?_, ?_⟩⟩
    · by_contra hne
      have hlast := (hall' (bytes - 1) (by omega)).1
      omega
    · have hfirst := (hall' 0 hpos).2
      omega
    · by_contra hlt
      have hwrap := (hall' (2 ^ 32 - addr) (by omega)).2
      omega
  · rintro ⟨hmul, hwhole⟩
    refine ⟨fun off hoff => (htranslate off hoff).mpr ⟨by omega, ?_⟩, fun a => hst.translate_heap⟩
    obtain ⟨hpage, hlimit⟩ := hwhole (by omega)
    rw [Nat.mod_eq_of_lt (by omega)]
    omega

/-- The state of the memory manager after boot. -/
lemma videoBoot_bootState : VideoBoot Sys.bootState.mm := by
  refine ⟨(Sys.bootState_used 0).mpr (by omega), fun i _ hne => ?_, fun i h₁ h₂ => ?_⟩
  · rw [Sys.bootState_directory hne, Sys.bootState_used]
    omega
  · exact if_neg (by omega)

/-- The framebuffer of the mode that the kernel asks for, 1024 by 768 pixels of 4 bytes, is mapped.
-/
theorem showsFramebuffer_iff_xga : WholePages 0xFD000000 4096 768 ∧
    ShowsFramebuffer 0xFD000000 4096 768 Sys.bootState.mm
      (Sys.bootState.mm.initVideoMemory 0xFD000000 4096 768) := by
  have hwhole : WholePages 0xFD000000 4096 768 := by decide
  refine ⟨hwhole, (showsFramebuffer_iff videoBoot_bootState (by decide) ?_).mpr hwhole⟩
  exact (show (videoPages 4096 768 + 1023) / 1024 ≤ 3584 by decide).trans lowCount_bootState

/-- **The last bytes are not mapped**: 800 by 600 pixels of 4 bytes are 468 pages and three quarters
of a page. -/
theorem last_bytes_unmapped : ¬∀ (s : Mm) (addr pitch height : ℕ), VideoBoot s →
    FitsWindow addr pitch height → (videoPages pitch height + 1023) / 1024 ≤ s.lowCount →
    ShowsFramebuffer addr pitch height s (s.initVideoMemory addr pitch height) := by
  intro hall
  have hfree : (videoPages 3200 600 + 1023) / 1024 ≤ Sys.bootState.mm.lowCount :=
    (show (videoPages 3200 600 + 1023) / 1024 ≤ 3584 by decide).trans lowCount_bootState
  have hbyte := (hall _ 0xFD000000 3200 600 videoBoot_bootState (by decide) hfree).1 (468 * 4096)
    (by decide)
  obtain ⟨st, hst, hmm⟩ := videoBoot_bootState.initVideoMemory (by decide) hfree 0xFD000000
  rw [← hmm, hst.translate_framebuffer videoBoot_bootState (by omega), if_neg (by decide)] at hbyte
  cases hbyte

end Mm

end AlphaOS
