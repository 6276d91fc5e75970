import AlphaOS.Mm.Memory
import Mathlib.Data.List.Infix

set_option relaxedAutoImplicit false
set_option autoImplicit false

/-!
# The bitmap at boot

`init_memory` of `kernel/memory.c` sizes the bitmap of frames after the multiboot memory map,
maps the pages after the kernel and calls `populate_bitmap`, which clears the bitmap and marks the
entries of the map that are not available, the gaps between its entries, the kernel's range and the
module's range.

## Main definitions

* `AlphaOS.Bitmap` — the bitmap while it is populated.
* `AlphaOS.BootInfo` — what `init_memory` is given.
* `AlphaOS.BootInfo.populateBitmap` — `populate_bitmap`.
* `AlphaOS.BootInfo.ranges` — the ranges of frames that are marked.
* `AlphaOS.BootInfo.Rounded` — no range goes past the bitmap, and where the number of pages falls
  short of a region's end another range marks the last frame.

## Main results

* `AlphaOS.BootInfo.used_populateBitmap`, `AlphaOS.BootInfo.past_populateBitmap` — the bits that
  are set, and whether one at or past `bitmap_size` is written.
* `AlphaOS.BootInfo.reserved_iff_rounded` — unavailable memory is marked, inside the bitmap, exactly
  when the roundings are `Rounded`.
* `AlphaOS.BootInfo.frame_missed` — a frame of reserved memory that is left free.

## Design

The memory map is the list of its entries, the first apart since the source reads it unasked. The
byte of the bitmap that holds bit `i` is at the 32-bit address `bitmap + i / 8`, so of `i` the low
35 bits count. The field `past` is not in the source: it records that an index of `bitmap_size` or
more has been written.
-/

namespace AlphaOS

/-! ## The model -/

/-- The bitmap with its size in bits. -/
structure Bitmap where
  bits : ℕ → BitVec 8
  /-- `bitmap_size`. -/
  size : ℕ
  /-- A bit at or past `bitmap_size` has been written. -/
  past : Bool

namespace Bitmap

/-- `BIT_SET(bitmap, i)`. -/
def bitSet (i : ℕ) (m : Bitmap) : Bitmap :=
  { m with bits := Bits.set m.bits (i % 2 ^ 35), past := m.past || decide (m.size ≤ i) }

/-- `BIT_CLEAR(bitmap, i)`. -/
def bitClear (i : ℕ) (m : Bitmap) : Bitmap :=
  { m with bits := Bits.clear m.bits (i % 2 ^ 35), past := m.past || decide (m.size ≤ i) }

/-- `BIT_GET(bitmap, f)` is `BITMAP_USED`. -/
def used (m : Bitmap) (f : ℕ) : Prop := Bits.get m.bits (f % 2 ^ 35) = true

/-- `set_used_bitmaps`. -/
def setUsedBitmaps (m : Bitmap) (startIndex totalUsedPages : ℕ) : Bitmap :=
  Loop.forEach bitSet startIndex totalUsedPages m

/-- The first loop of `populate_bitmap`. -/
def clearAll (m : Bitmap) : Bitmap := Loop.forEach bitClear 0 m.size m

end Bitmap

/-- An entry of the multiboot memory map. -/
structure MmapEntry where
  addr : ℕ
  len : ℕ
  type : ℕ
deriving DecidableEq, Repr

/-- `MULTIBOOT_MEMORY_AVAILABLE`. -/
def multibootMemoryAvailable : ℕ := 1

/-- The end of an entry, `addr + len`. -/
def MmapEntry.stop (e : MmapEntry) : ℕ := (e.addr + e.len) % 2 ^ 64

/-- `range_size / PAGE_SIZE`, and one more for a remainder. -/
def totalUsedPages (rangeSize : ℕ) : ℕ :=
  if 0 < rangeSize % 4096 then rangeSize / 4096 + 1 else rangeSize / 4096

namespace Bitmap

/-- `populate_bitmap` at an entry that is not available. -/
def markEntry (m : Bitmap) (e : MmapEntry) : Bitmap :=
  if e.type ≠ multibootMemoryAvailable then
    m.setUsedBitmaps (e.addr / 4096) (totalUsedPages (sub64 e.stop e.addr))
  else m

/-- `populate_bitmap` at a gap between an entry and the next. -/
def markGap (m : Bitmap) (e next : MmapEntry) : Bitmap :=
  if e.stop < next.addr then
    m.setUsedBitmaps (e.stop / 4096) (totalUsedPages (sub64 next.addr e.stop))
  else m

/-- The second loop of `populate_bitmap`. -/
def markMap (m : Bitmap) : MmapEntry → List MmapEntry → Bitmap
  | e, [] => m.markEntry e
  | e, next :: rest => ((m.markEntry e).markGap e next).markMap next rest

end Bitmap

/-- What `init_memory` finds: the address up to which `boot.s` has mapped memory, the multiboot
memory map, the module and the byte at `_kernel_start`. -/
structure BootInfo where
  lastPagedAddr : ℕ
  first : MmapEntry
  rest : List MmapEntry
  modStart : ℕ
  modEnd : ℕ
  /-- The character `_kernel_start`. -/
  kernelStart : BitVec 8

namespace BootInfo

/-- The memory map. -/
def entries (b : BootInfo) : List MmapEntry := b.first :: b.rest

/-- `fetch_highest_block`. -/
def fetchHighestBlock (b : BootInfo) : MmapEntry := b.entries.getLast (List.cons_ne_nil _ _)

/-- `bitmap_size`. -/
def bitmapSize (b : BootInfo) : ℕ := b.fetchHighestBlock.stop / 4096

/-- `bitmap_len`. -/
def bitmapLen (b : BootInfo) : ℕ := (b.bitmapSize + 7) / 8

/-- `total_bitmap_pages`. -/
def totalBitmapPages (b : BootInfo) : ℕ := (b.bitmapLen + 4096 - 1) / 4096

/-- `total_module_pages`. -/
def totalModulePages (b : BootInfo) : ℕ :=
  sub32 (alignUp4k b.modEnd / 4096) (alignDown4k b.modStart / 4096)

/-- The variables of the loop of `init_memory`; `index` counts the entries of the boot page table up
to `kernel_page_table_idx`. -/
structure Mapping where
  pageTable : ℕ → ℕ
  kernelEndAddr : ℕ
  index : ℕ

/-- An iteration of the loop of `init_memory`. -/
def mapPage (st : Mapping) : Mapping where
  pageTable := Function.update st.pageTable st.index (st.kernelEndAddr ||| kernelFlags)
  kernelEndAddr := (st.kernelEndAddr + 4096) % 2 ^ 32
  index := st.index + 1

/-- The boot page table as `boot.s` leaves it: the pages up to `last_paged_addr` and the text
screen. -/
def bootPageTable (b : BootInfo) (i : ℕ) : ℕ :=
  if i = 1023 then 0x000B8000 ||| 0x003
  else if i < alignUp4k b.lastPagedAddr / 4096 then i * 4096 ||| 0x003
  else 0

/-- The loop of `init_memory`. `boot.s` passes the entry after the last one it has written. -/
def mapping (b : BootInfo) : Mapping :=
  Loop.forEach (fun _ => mapPage) 0 (b.totalBitmapPages + b.totalModulePages)
    ⟨b.bootPageTable, alignUp4k b.lastPagedAddr, alignUp4k b.lastPagedAddr / 4096⟩

/-- `kernel_end_addr` after the loop. -/
def kernelEndAddr (b : BootInfo) : ℕ := b.mapping.kernelEndAddr

/-- `(uint64_t)_kernel_start`, a signed character. -/
def kernelStartValue (b : BootInfo) : ℕ := (b.kernelStart.signExtend 64).toNat

/-- `populate_bitmap` at the kernel's range. -/
def markKernel (b : BootInfo) (m : Bitmap) : Bitmap :=
  m.setUsedBitmaps (b.kernelStartValue / 4096)
    (totalUsedPages (sub64 b.kernelEndAddr b.kernelStartValue))

/-- `populate_bitmap` at the module's range. -/
def markModule (b : BootInfo) (m : Bitmap) : Bitmap :=
  m.setUsedBitmaps (alignDown4k b.modStart / 4096)
    (sub64 (alignUp4k b.modEnd / 4096) (alignDown4k b.modStart / 4096))

/-- `populate_bitmap`. -/
def populateBitmap (b : BootInfo) (bits : ℕ → BitVec 8) : Bitmap :=
  b.markModule (b.markKernel (Bitmap.markMap (Bitmap.clearAll ⟨bits, b.bitmapSize, false⟩)
    b.first b.rest))

end BootInfo

/-! ## Marking a range -/

/-- A range of frames: the index of the first and their number. -/
structure Range where
  start : ℕ
  count : ℕ
deriving DecidableEq, Repr

/-- Does marking the range set the bit of the frame? -/
def Range.Covers (r : Range) (f : ℕ) : Prop := ∃ i < r.count, (r.start + i) % 2 ^ 35 = f % 2 ^ 35

/-- A frame of the range is covered. -/
lemma Range.covers_of_mem {r : Range} {f : ℕ} (h₁ : r.start ≤ f) (h₂ : f < r.start + r.count) :
    r.Covers f :=
  ⟨f - r.start, by omega, by rw [Nat.add_sub_cancel' h₁]⟩

/-- No index of the range reaches `size`. -/
def Range.Within (r : Range) (size : ℕ) : Prop := 0 < r.count → r.start + r.count ≤ size

instance (r : Range) (size : ℕ) : Decidable (r.Within size) := inferInstanceAs (Decidable (_ → _))

namespace Bitmap

variable {m : Bitmap} {r : Range} {f i : ℕ}

/-- Marking a range. -/
def mark (m : Bitmap) (r : Range) : Bitmap := m.setUsedBitmaps r.start r.count

/-- Setting a bit. -/
lemma used_bitSet : (m.bitSet i).used f ↔ m.used f ∨ i % 2 ^ 35 = f % 2 ^ 35 := by
  simp only [used, bitSet, Bits.get_set, Bool.or_eq_true, decide_eq_true_eq]
  exact ⟨fun h => h.elim (fun he => .inr he.symm) .inl, fun h => h.elim .inr fun he => .inl he.symm⟩

/-- A bit at or past `bitmap_size` is one set too far. -/
lemma past_bitSet : (m.bitSet i).past = true ↔ m.past = true ∨ m.size ≤ i := by
  simp [bitSet]

/-- **Marking a range** sets the bits it covers, and writes past the bitmap unless it is within it.

**Proof sketch.** By induction on the number of frames, the first of which is marked before the
loop goes on with the rest. -/
lemma setUsedBitmaps_spec (n : ℕ) : ∀ (k : ℕ) (m : Bitmap),
    ((m.setUsedBitmaps k n).used f ↔ m.used f ∨ Range.Covers ⟨k, n⟩ f) ∧
      ((m.setUsedBitmaps k n).past = true ↔ m.past = true ∨ ¬ Range.Within ⟨k, n⟩ m.size) ∧
      (m.setUsedBitmaps k n).size = m.size := by
  induction n with
  | zero =>
    intro k m
    have hid : m.setUsedBitmaps k 0 = m := rfl
    rw [hid]
    refine ⟨⟨.inl, fun h => h.elim id fun ⟨i, hi, _⟩ => absurd hi (by simp)⟩,
      ⟨.inl, fun h => h.elim id fun hw => absurd (fun h0 => absurd h0 (by simp)) hw⟩, rfl⟩
  | succ n ih =>
    intro k m
    obtain ⟨hused, hpast, hsize⟩ := ih (k + 1) (m.bitSet k)
    have hstep : m.setUsedBitmaps k (n + 1) = (m.bitSet k).setUsedBitmaps (k + 1) n := rfl
    rw [hstep]
    refine ⟨?_, ?_, hsize⟩
    · rw [hused, used_bitSet, or_assoc]
      refine or_congr Iff.rfl ⟨?_, ?_⟩
      · rintro (hk | ⟨i, hi, heq⟩)
        · exact ⟨0, by simp, hk⟩
        · refine ⟨i + 1, by simpa using hi, ?_⟩
          rw [← heq]
          congr 1
          dsimp only
          omega
      · rintro ⟨i, hi, heq⟩
        cases i with
        | zero => exact .inl heq
        | succ i =>
          refine .inr ⟨i, by simpa using hi, ?_⟩
          rw [← heq]
          congr 1
          dsimp only
          omega
    · have hsame : (m.bitSet k).size = m.size := rfl
      rw [hpast, past_bitSet, hsame, or_assoc]
      refine or_congr Iff.rfl ?_
      simp only [Range.Within]
      omega

/-- Marking a range sets the bits it covers, and no others. -/
lemma used_mark : (m.mark r).used f ↔ m.used f ∨ r.Covers f :=
  (setUsedBitmaps_spec r.count r.start m).1

/-- A range that reaches `bitmap_size` is one marked too far. -/
lemma past_mark : (m.mark r).past = true ↔ m.past = true ∨ ¬ r.Within m.size :=
  (setUsedBitmaps_spec (f := 0) r.count r.start m).2.1

/-- Marking does not change `bitmap_size`. -/
lemma size_mark : (m.mark r).size = m.size := (setUsedBitmaps_spec (f := 0) r.count r.start m).2.2

/-- Marking several ranges. -/
lemma foldl_mark (l : List Range) : ∀ m : Bitmap,
    ((l.foldl mark m).used f ↔ m.used f ∨ ∃ r ∈ l, r.Covers f) ∧
      ((l.foldl mark m).past = true ↔ m.past = true ∨ ∃ r ∈ l, ¬ r.Within m.size) := by
  induction l with
  | nil => intro m; simp
  | cons r l ih =>
    intro m
    obtain ⟨hused, hpast⟩ := ih (m.mark r)
    constructor
    · rw [List.foldl_cons, hused, used_mark, or_assoc]
      simp
    · rw [List.foldl_cons, hpast, past_mark, size_mark, or_assoc]
      simp

/-- After the first loop no frame below `bitmap_size` is marked and nothing is written past it. -/
lemma clearAll_spec (m : Bitmap) :
    (∀ f < m.size, ¬ m.clearAll.used f) ∧ m.clearAll.past = m.past ∧ m.clearAll.size = m.size := by
  have hrule : (∀ f < 0 + m.size, ¬ m.clearAll.used f) ∧ m.clearAll.past = m.past ∧
      m.clearAll.size = m.size := by
    refine Loop.forEach_rule
      (I := fun k (m' : Bitmap) => (∀ f < k, ¬ m'.used f) ∧ m'.past = m.past ∧
        m'.size = m.size) ?_ ?_
    · rintro k m' - hk ⟨hclear, hpast, hsize⟩
      refine ⟨fun f hf => ?_, ?_, hsize⟩
      · simp only [used, bitClear, Bits.get_clear, Bool.and_eq_true, Bool.not_eq_true',
          decide_eq_false_iff_not, not_and]
        rcases Nat.lt_succ_iff_lt_or_eq.mp hf with hlt | rfl
        · exact fun _ => hclear f hlt
        · exact fun hne => absurd rfl hne
      · have hlt : ¬ m'.size ≤ k := by omega
        simp [bitClear, hpast, hlt]
    · exact ⟨fun f hf => absurd hf (Nat.not_lt_zero f), rfl, rfl⟩
  rwa [Nat.zero_add] at hrule

end Bitmap

/-! ## Regions and their ranges -/

/-- A region of physical memory. -/
structure Region where
  addr : ℕ
  len : ℕ
deriving DecidableEq, Repr

namespace Region

variable {g : Region} {f : ℕ}

/-- The range marked for the region: its first frame, and its length in pages. -/
def range (g : Region) : Range := ⟨g.addr / 4096, totalUsedPages g.len⟩

/-- The frame into which the end of the region falls. -/
def lastFrame (g : Region) : ℕ := (g.addr + g.len) / 4096

/-- The pages counted from the first frame on do not reach the end of the region. -/
def Short (g : Region) : Prop :=
  0 < g.len ∧ totalUsedPages g.len * 4096 < g.addr % 4096 + g.len

instance (g : Region) : Decidable g.Short := inferInstanceAs (Decidable (_ ∧ _))

/-- Some byte of the frame is in the region. -/
def Touches (g : Region) (f : ℕ) : Prop := ∃ x, x / 4096 = f ∧ g.addr ≤ x ∧ x < g.addr + g.len

/-- The range of a region covers the frames it touches, but for the last one when it is short. -/
lemma Touches.covers_or_short (h : g.Touches f) :
    g.range.Covers f ∨ g.Short ∧ f = g.lastFrame := by
  obtain ⟨x, rfl, h₁, h₂⟩ := h
  by_cases hlast : x / 4096 < g.addr / 4096 + totalUsedPages g.len
  · exact .inl (Range.covers_of_mem (Nat.div_le_div_right h₁) hlast)
  · refine .inr ?_
    unfold Short lastFrame totalUsedPages at *
    split_ifs at * <;> omega

/-- A short region touches the frame into which its end falls. -/
lemma Short.touches (h : g.Short) : g.Touches g.lastFrame := by
  have hend : 0 < g.len ∧ 0 < (g.addr + g.len) % 4096 := by
    unfold Short totalUsedPages at h
    split_ifs at h <;> omega
  exact ⟨g.addr + g.len - 1, by rw [lastFrame]; omega, by omega, by omega⟩

end Region

/-- The region of an entry that is not available. -/
def MmapEntry.regions (e : MmapEntry) : List Region :=
  if e.type ≠ multibootMemoryAvailable then [⟨e.addr, e.len⟩] else []

/-- The gap between an entry and the next. -/
def MmapEntry.gaps (e next : MmapEntry) : List Region :=
  if e.addr + e.len < next.addr then [⟨e.addr + e.len, next.addr - (e.addr + e.len)⟩] else []

/-- The regions marked for a memory map. -/
def mapRegions : MmapEntry → List MmapEntry → List Region
  | e, [] => e.regions
  | e, next :: rest => e.regions ++ (e.gaps next ++ mapRegions next rest)

/-- The end of an entry does not wrap around. -/
def MmapEntry.Fits (e : MmapEntry) : Prop := e.addr + e.len < 2 ^ 64

instance (e : MmapEntry) : Decidable e.Fits := inferInstanceAs (Decidable (_ < _))

/-- The end of an entry that does not wrap around. -/
lemma MmapEntry.Fits.stop_eq {e : MmapEntry} (h : e.Fits) : e.stop = e.addr + e.len :=
  Nat.mod_eq_of_lt h

/-- The difference of 64-bit words in order. -/
lemma sub64_of_le {a b : ℕ} (h : b ≤ a) (ha : a < 2 ^ 64) : sub64 a b = a - b := by
  rw [sub64]
  omega

namespace Bitmap

/-- Marking an entry. -/
lemma markEntry_eq {e : MmapEntry} (h : e.Fits) (m : Bitmap) :
    m.markEntry e = (e.regions.map Region.range).foldl mark m := by
  have hlen : sub64 e.stop e.addr = e.len := by
    rw [h.stop_eq, sub64_of_le (Nat.le_add_right _ _) h, Nat.add_sub_cancel_left]
  rw [markEntry, MmapEntry.regions, hlen]
  split_ifs <;> rfl

/-- Marking a gap. -/
lemma markGap_eq {e next : MmapEntry} (h : e.Fits) (hn : next.Fits) (m : Bitmap) :
    m.markGap e next = ((e.gaps next).map Region.range).foldl mark m := by
  have hnext : next.addr < 2 ^ 64 := Nat.lt_of_le_of_lt (Nat.le_add_right _ _) hn
  rw [markGap, MmapEntry.gaps, h.stop_eq]
  split_ifs with hlt
  · rw [sub64_of_le (Nat.le_of_lt hlt) hnext]
    rfl
  · rfl

/-- **The second loop of `populate_bitmap`** marks the ranges of the regions. -/
lemma markMap_eq : ∀ (rest : List MmapEntry) (e : MmapEntry) (m : Bitmap),
    (∀ e' ∈ e :: rest, e'.Fits) →
    m.markMap e rest = ((mapRegions e rest).map Region.range).foldl mark m := by
  intro rest
  induction rest with
  | nil => intro e m h; exact markEntry_eq (h e (by simp)) m
  | cons next rest ih =>
    intro e m h
    rw [markMap, ih next _ fun e' he' => h e' (List.mem_cons_of_mem e he'),
      markGap_eq (h e (by simp)) (h next (by simp)), markEntry_eq (h e (by simp))]
    simp [mapRegions, List.foldl_append]

end Bitmap

namespace BootInfo

variable {b : BootInfo} {f x : ℕ}

/-- The memory map is in ascending order, without overlaps, and no entry wraps around. -/
structure Ordered (b : BootInfo) : Prop where
  ascending : b.entries.Pairwise fun e e' => e.addr + e.len ≤ e'.addr
  fits : ∀ e ∈ b.entries, e.Fits

/-- The regions marked for the memory map. -/
def regions (b : BootInfo) : List Region := mapRegions b.first b.rest

/-- The range marked for the kernel. -/
def kernelRange (b : BootInfo) : Range :=
  ⟨b.kernelStartValue / 4096, totalUsedPages (sub64 b.kernelEndAddr b.kernelStartValue)⟩

/-- The range marked for the module. -/
def moduleRange (b : BootInfo) : Range :=
  ⟨alignDown4k b.modStart / 4096,
    sub64 (alignUp4k b.modEnd / 4096) (alignDown4k b.modStart / 4096)⟩

/-- All ranges that are marked. -/
def ranges (b : BootInfo) : List Range :=
  b.regions.map Region.range ++ [b.kernelRange, b.moduleRange]

/-- `populate_bitmap` marks the ranges, after it has cleared the bitmap. -/
lemma populateBitmap_eq (h : b.Ordered) (bits : ℕ → BitVec 8) :
    b.populateBitmap bits =
      b.ranges.foldl Bitmap.mark (Bitmap.clearAll ⟨bits, b.bitmapSize, false⟩) := by
  rw [populateBitmap, Bitmap.markMap_eq _ _ _ h.fits, ranges, List.foldl_append]
  rfl

/-- **The frames marked by `populate_bitmap`.** -/
theorem used_populateBitmap (h : b.Ordered) (bits : ℕ → BitVec 8) (hf : f < b.bitmapSize) :
    (b.populateBitmap bits).used f ↔ ∃ r ∈ b.ranges, r.Covers f := by
  have hclear := (Bitmap.clearAll_spec ⟨bits, b.bitmapSize, false⟩).1 f hf
  rw [populateBitmap_eq h, (Bitmap.foldl_mark b.ranges _).1]
  exact ⟨fun hor => hor.resolve_left hclear, .inr⟩

/-- **When `populate_bitmap` writes past the bitmap.** -/
theorem past_populateBitmap (h : b.Ordered) (bits : ℕ → BitVec 8) :
    (b.populateBitmap bits).past = false ↔ ∀ r ∈ b.ranges, r.Within b.bitmapSize := by
  obtain ⟨-, hpast, hsize⟩ := Bitmap.clearAll_spec ⟨bits, b.bitmapSize, false⟩
  have hiff := (Bitmap.foldl_mark (f := 0) b.ranges (Bitmap.clearAll ⟨bits, b.bitmapSize, false⟩)).2
  rw [← populateBitmap_eq h, hpast, hsize] at hiff
  rw [← Bool.not_eq_true, hiff]
  simp

/-! ## Unavailable memory -/

/-- The byte is in an entry that is not available, or between two consecutive entries. -/
def Unavailable (b : BootInfo) (x : ℕ) : Prop :=
  (∃ e ∈ b.entries, e.type ≠ multibootMemoryAvailable ∧ e.addr ≤ x ∧ x < e.addr + e.len) ∨
    ∃ e next, [e, next] <:+: b.entries ∧ e.addr + e.len ≤ x ∧ x < next.addr

/-- The bytes of the region of an entry. -/
lemma mem_entry_regions {e : MmapEntry} :
    (∃ g ∈ e.regions, g.addr ≤ x ∧ x < g.addr + g.len) ↔
      e.type ≠ multibootMemoryAvailable ∧ e.addr ≤ x ∧ x < e.addr + e.len := by
  rw [MmapEntry.regions]
  split_ifs with htype
  · simp [htype]
  · simp [htype]

/-- The bytes of a gap. -/
lemma mem_entry_gaps {e next : MmapEntry} :
    (∃ g ∈ e.gaps next, g.addr ≤ x ∧ x < g.addr + g.len) ↔
      e.addr + e.len ≤ x ∧ x < next.addr := by
  rw [MmapEntry.gaps]
  split_ifs with hlt
  · simp only [List.mem_singleton, exists_eq_left]
    omega
  · simp only [List.not_mem_nil, false_and, exists_false, false_iff]
    omega

/-- The bytes of the regions of a memory map. -/
lemma mem_mapRegions : ∀ (rest : List MmapEntry) (e : MmapEntry),
    (∃ g ∈ mapRegions e rest, g.addr ≤ x ∧ x < g.addr + g.len) ↔
      (∃ e' ∈ e :: rest, e'.type ≠ multibootMemoryAvailable ∧ e'.addr ≤ x ∧
        x < e'.addr + e'.len) ∨
      ∃ e₁ e₂, [e₁, e₂] <:+: e :: rest ∧ e₁.addr + e₁.len ≤ x ∧ x < e₂.addr := by
  intro rest
  induction rest with
  | nil =>
    intro e
    have hnone : ∀ e₁ e₂ : MmapEntry, ¬ [e₁, e₂] <:+: [e] := by
      intro e₁ e₂ hinfix
      simpa using hinfix.length_le
    rw [mapRegions, mem_entry_regions]
    simp [hnone]
  | cons next rest ih =>
    intro e
    have hpair : ∀ e₁ e₂ : MmapEntry, [e₁, e₂] <:+: e :: next :: rest ↔
        (e₁ = e ∧ e₂ = next) ∨ [e₁, e₂] <:+: next :: rest := by
      intro e₁ e₂
      rw [List.infix_cons_iff]
      simp
    have hhere : (∃ e₁ e₂, (e₁ = e ∧ e₂ = next) ∧ e₁.addr + e₁.len ≤ x ∧ x < e₂.addr) ↔
        e.addr + e.len ≤ x ∧ x < next.addr := by
      constructor
      · rintro ⟨e₁, e₂, ⟨rfl, rfl⟩, h⟩
        exact h
      · intro h
        exact ⟨e, next, ⟨rfl, rfl⟩, h⟩
    simp only [mapRegions, List.mem_append, or_and_right, exists_or, mem_entry_regions,
      mem_entry_gaps, ih, hpair, hhere]
    rw [List.exists_mem_cons_iff (a := e)]
    generalize (∃ e' ∈ next :: rest, e'.type ≠ multibootMemoryAvailable ∧ e'.addr ≤ x ∧
      x < e'.addr + e'.len) = later
    grind

/-- Unavailable memory is the regions. -/
lemma unavailable_iff : b.Unavailable x ↔ ∃ g ∈ b.regions, g.addr ≤ x ∧ x < g.addr + g.len :=
  (mem_mapRegions b.rest b.first).symm

/-- A frame has an unavailable byte when a region touches it. -/
lemma touches_iff : (∃ x, x / 4096 = f ∧ b.Unavailable x) ↔ ∃ g ∈ b.regions, g.Touches f := by
  simp only [unavailable_iff, Region.Touches]
  exact ⟨fun ⟨x, hx, g, hg, h₁, h₂⟩ => ⟨g, hg, x, hx, h₁, h₂⟩,
    fun ⟨g, hg, x, hx, h₁, h₂⟩ => ⟨x, hx, g, hg, h₁, h₂⟩⟩

/-- Every frame below `bitmap_size` with an unavailable byte is marked used, and no bit at or past
`bitmap_size` has been written. -/
def Reserved (b : BootInfo) (m : Bitmap) : Prop :=
  (∀ f < b.bitmapSize, (∃ x, x / 4096 = f ∧ b.Unavailable x) → m.used f) ∧ m.past = false

/-- No range goes past the bitmap; and where the pages counted for a region do not reach its end,
the frame of its end is not in the bitmap or is in another range. -/
structure Rounded (b : BootInfo) : Prop where
  within : ∀ r ∈ b.ranges, r.Within b.bitmapSize
  short : ∀ g ∈ b.regions, g.Short → g.lastFrame < b.bitmapSize →
    ∃ r ∈ b.ranges, r.Covers g.lastFrame

/-- **Unavailable memory is marked exactly when the roundings work out.** For every memory map in
ascending order and every content of the bitmap's memory, `populate_bitmap` marks every frame that
has an unavailable byte, and writes no bit at or past `bitmap_size`, if and only if every marked
range is within the bitmap and every region whose length in pages falls short of its end has the
frame of that end marked for another reason.

**Proof sketch.** The marked frames are those covered by a range (`used_populateBitmap`). A frame
that a region touches is covered by the region's own range, unless the region is short and the frame
is its last one (`Region.Touches.covers_or_short`). -/
theorem reserved_iff_rounded {b : BootInfo} (h : b.Ordered) (bits : ℕ → BitVec 8) :
    b.Reserved (b.populateBitmap bits) ↔ b.Rounded := by
  have hmem : ∀ g ∈ b.regions, g.range ∈ b.ranges := fun g hg =>
    List.mem_append_left _ (List.mem_map_of_mem hg)
  constructor
  · rintro ⟨hused, hpast⟩
    refine ⟨(past_populateBitmap h bits).mp hpast, fun g hg hshort hlt => ?_⟩
    have htouch := touches_iff.mpr ⟨g, hg, hshort.touches⟩
    exact (used_populateBitmap h bits hlt).mp (hused _ hlt htouch)
  · rintro ⟨hwithin, hshort⟩
    refine ⟨fun f hf htouch => ?_, (past_populateBitmap h bits).mpr hwithin⟩
    obtain ⟨g, hg, htouch⟩ := touches_iff.mp htouch
    rw [used_populateBitmap h bits hf]
    rcases htouch.covers_or_short with hcov | ⟨hs, rfl⟩
    · exact ⟨g.range, hmem g hg, hcov⟩
    · exact hshort g hg hs hf

/-- A machine with `128` MiB whose firmware keeps a page that starts in the middle of a frame. -/
def straddling : BootInfo where
  lastPagedAddr := 0x120000
  first := ⟨0, 0x9FC00, 1⟩
  rest := [⟨0x9FC00, 0x400, 2⟩, ⟨0xF0000, 0x10000, 2⟩, ⟨0x100000, 0x7EE0800, 1⟩,
    ⟨0x7FE0800, 0x1000, 2⟩, ⟨0x7FE1800, 0x1E800, 1⟩]
  modStart := 0x120000
  modEnd := 0x121000
  kernelStart := 0#8

/-- The memory map of `straddling` is in order. -/
lemma straddling_ordered : straddling.Ordered := by
  constructor
  · decide
  · decide

/-- The ranges marked on `straddling`. -/
lemma straddling_ranges : straddling.ranges = [⟨0x9F, 1⟩, ⟨0xA0, 0x50⟩, ⟨0xF0, 0x10⟩,
    ⟨0x7FE0, 1⟩, ⟨0, 0x122⟩, ⟨0x120, 1⟩] := by
  decide

/-- **A reserved frame is left free.** The page from `0x7FE0800` on is counted as one page from the
frame `0x7FE0` on, and its second frame is not marked. -/
theorem frame_missed :
    ¬ ∀ b : BootInfo, b.Ordered → ∀ bits : ℕ → BitVec 8, b.Reserved (b.populateBitmap bits) := by
  intro hall
  obtain ⟨hused, -⟩ := hall straddling straddling_ordered fun _ => 0#8
  have hsize : 0x7FE1 < straddling.bitmapSize := by decide
  have hbyte : straddling.Unavailable 0x7FE1000 :=
    .inl ⟨⟨0x7FE0800, 0x1000, 2⟩, by decide, by decide, by decide, by decide⟩
  have hmark := hused 0x7FE1 hsize ⟨0x7FE1000, by decide, hbyte⟩
  rw [used_populateBitmap straddling_ordered _ hsize, straddling_ranges] at hmark
  obtain ⟨r, hr, i, hi, heq⟩ := hmark
  simp only [List.mem_cons, List.not_mem_nil, or_false] at hr
  rcases hr with rfl | rfl | rfl | rfl | rfl | rfl <;> dsimp only at hi heq <;> omega

/-- The same machine with the page moved to the start of a frame. -/
def aligned : BootInfo :=
  { straddling with
    rest := [⟨0x9FC00, 0x400, 2⟩, ⟨0xF0000, 0x10000, 2⟩, ⟨0x100000, 0x7EE0000, 1⟩,
      ⟨0x7FE0000, 0x1000, 2⟩, ⟨0x7FE1000, 0x1F000, 1⟩] }

/-- On `aligned` all unavailable memory is marked, whatever was in the bitmap's memory. -/
theorem reserved_iff_rounded_aligned :
    aligned.Ordered ∧ aligned.Reserved (aligned.populateBitmap fun _ => 0xFF#8) := by
  have hordered : aligned.Ordered := ⟨by decide, by decide⟩
  have hnone : ∀ g ∈ aligned.regions, ¬ g.Short := by decide
  have hwithin : ∀ r ∈ aligned.ranges, r.Within aligned.bitmapSize := by decide
  refine ⟨hordered, (reserved_iff_rounded hordered _).mpr ⟨hwithin, ?_⟩⟩
  exact fun g hg hshort => absurd hshort (hnone g hg)

end BootInfo

end AlphaOS
