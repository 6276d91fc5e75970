import AlphaOS.Fs.Inodes

set_option relaxedAutoImplicit false
set_option autoImplicit false

/-!
# The contents of files

`write_inode_data` and `read_inode_data` of `fs.c`. A write takes the sectors of the lowest clear
bits of the data bitmap, which it sets, and lists them in the inode; a read follows the list. Files
do not share sectors, so that a file reads back what was written to it however many files are
written after it.

## Main definitions

* `AlphaOS.Disk.readInodeData` — the function of the source.
* `AlphaOS.Disk.lowestClear` — the lowest clear bits of a bitmap, in increasing order.
* `AlphaOS.Disk.DataLoop.Placed` — what the loop of `write_inode_data` has done so far.
* `AlphaOS.Disk.Written` — what a call of `write_inode_data` has done.
* `AlphaOS.Archive` — the disk with the files written to it.

## Main results

* `AlphaOS.Disk.written_writeInodeData` — what `write_inode_data` does to the disk.
* `AlphaOS.Disk.Written.keeps` — a later write leaves a file alone.
* `AlphaOS.Archive.Intact.exec` — every file of a disk reads back after one more write.

## Design

This file is about the disk. The buffers that the two functions take from the kernel heap are added
in `AlphaOS.FileSystem`, whose results rest on those here.
-/

namespace AlphaOS

namespace Disk

variable {d d' : Disk} {inode : Inode} {data : ℕ → BitVec 8} {size : ℕ}

/-- The body of the loop of `read_inode_data`, with `data_buffer`. -/
def readSector (inode : Inode) (i : ℕ) (s : (ℕ → BitVec 8) × Disk) : (ℕ → BitVec 8) × Disk :=
  (fun b =>
    if 512 * i ≤ b ∧ b < 512 * i + 512 then
      (s.2.read (dataOffset + inode.sector i) 1).1 (b - 512 * i)
    else s.1 b, (s.2.read (dataOffset + inode.sector i) 1).2)

/-- What `read_inode_data` reads from the disk: `data_buffer`, which has the contents `buffer` when
it is allocated. The allocation is added in `AlphaOS.FileSystem.readInodeData`. -/
def readInodeData (inode : Inode) (buffer : ℕ → BitVec 8) (d : Disk) : (ℕ → BitVec 8) × Disk :=
  Loop.forEach (readSector inode) 0 inode.sectors (buffer, d)

/-- The data bitmap. -/
def dataBitmap (d : Disk) : ℕ → BitVec 8 := (d.read 17 8).1

/-- The clear bits of a bitmap below `k`. -/
def clearBelow (bmap : ℕ → BitVec 8) (k : ℕ) : List ℕ :=
  (List.range k).filter fun j => Bits.get bmap j == false

/-- The `n` lowest clear bits of the data bitmap, in increasing order. -/
def lowestClear (bmap : ℕ → BitVec 8) (n : ℕ) : List ℕ := (clearBelow bmap 32768).take n

/-- The entries of a sector table that are in use. -/
def Inode.inUse (inode : Inode) : List ℕ := (List.range inode.sectors).map inode.sector

/-! ## Reading -/

/-- The sectors of the inode before the `i`th one are in the buffer. -/
def Loaded (inode : Inode) (d : Disk) (i : ℕ) (s : (ℕ → BitVec 8) × Disk) : Prop :=
  s.2.sector = d.sector ∧
    ∀ b < 512 * i, s.1 b = d.sector (dataOffset + inode.sector (b / 512)) (b % 512)

/-- The next sector is read. -/
lemma Loaded.next {i : ℕ} {s : (ℕ → BitVec 8) × Disk} (h : Loaded inode d i s) :
    Loaded inode d (i + 1) (readSector inode i s) := by
  obtain ⟨hsector, hread⟩ := h
  refine ⟨hsector, fun b hb => ?_⟩
  simp only [readSector]
  by_cases hin : 512 * i ≤ b ∧ b < 512 * i + 512
  · rw [if_pos hin]
    simp only [read]
    rw [if_pos (by omega), hsector, Nat.div_eq_of_lt (by omega), Nat.add_zero,
      show b / 512 = i by omega, show (b - 512 * i) % 512 = b % 512 by omega]
  · rw [if_neg hin]
    exact hread b (by omega)

/-- **What `read_inode_data` returns**: the sectors of the inode, one after the other. -/
lemma readInodeData_eq (inode : Inode) (buffer : ℕ → BitVec 8) (d : Disk) {b : ℕ}
    (hb : b < 512 * inode.sectors) :
    (readInodeData inode buffer d).1 b = d.sector (dataOffset + inode.sector (b / 512))
    (b % 512) := by
  have hstart : Loaded inode d 0 (buffer, d) := ⟨rfl, fun b hb => absurd hb (by omega)⟩
  have hloop := Loop.forEach_rule (n := inode.sectors) (fun i s _ _ hs => Loaded.next hs) hstart
  rw [Nat.zero_add] at hloop
  exact hloop.2 b hb

/-- Reading changes no sector. -/
lemma sector_readInodeData (inode : Inode) (buffer : ℕ → BitVec 8) (d : Disk) :
    (readInodeData inode buffer d).2.sector = d.sector := by
  have hstart : Loaded inode d 0 (buffer, d) := ⟨rfl, fun b hb => absurd hb (by omega)⟩
  exact (Loop.forEach_rule (n := inode.sectors) (fun i s _ _ hs => Loaded.next hs) hstart).1

/-! ## Lowest clear bits -/

/-- The clear bits below the next number. -/
lemma clearBelow_succ (bmap : ℕ → BitVec 8) (k : ℕ) : clearBelow bmap (k + 1) =
    clearBelow bmap k ++ if Bits.get bmap k = false then [k] else [] := by
  rw [clearBelow, List.range_succ, List.filter_append]
  by_cases hk : Bits.get bmap k = false <;> simp [clearBelow, hk]

/-- The members. -/
lemma mem_clearBelow {bmap : ℕ → BitVec 8} {j k : ℕ} :
    j ∈ clearBelow bmap k ↔ j < k ∧ Bits.get bmap j = false := by
  simp [clearBelow]

/-- The clear bits of the first part of a bitmap come first. -/
lemma clearBelow_prefix (bmap : ℕ → BitVec 8) {k n : ℕ} (h : k ≤ n) :
    clearBelow bmap k <+: clearBelow bmap n := by
  rw [← Nat.add_sub_cancel' h, clearBelow, clearBelow, List.range_add, List.filter_append]
  exact List.prefix_append _ _

/-- The lowest clear bits are found in the first part of the bitmap that has enough of them. -/
lemma lowestClear_eq {bmap : ℕ → BitVec 8} {k n : ℕ} (hk : k ≤ 32768)
    (hn : n ≤ (clearBelow bmap k).length) : lowestClear bmap n = (clearBelow bmap k).take n := by
  obtain ⟨rest, hrest⟩ := clearBelow_prefix bmap hk
  rw [lowestClear, ← hrest, List.take_append_of_le_length hn]

/-! ## The loop -/

/-- What the loop of `write_inode_data` has done before the bit `k`: it started with the bitmap
`bmap` and the disk `d`, and it writes the sectors of `buffer`. -/
structure DataLoop.Placed (sectors : ℕ) (bmap buffer : ℕ → BitVec 8) (d : Disk) (k : ℕ)
    (l : DataLoop) :
    Prop where
  table : (List.range l.sectorsCount).map l.sector = (clearBelow bmap k).take sectors
  bits :
    ∀ j, Bits.get l.dataBmap j = (Bits.get bmap j || decide (j ∈ (clearBelow bmap k).take sectors))
  contents : ∀ i < l.sectorsCount, ∀ b < 512,
    l.disk.sector (dataOffset + l.sector i) b = buffer (512 * i + b)
  frame : ∀ s, (∀ j ∈ (clearBelow bmap k).take sectors, s ≠ dataOffset + j) →
    l.disk.sector s = d.sector s

variable {sectors k : ℕ} {bmap buffer : ℕ → BitVec 8} {l : DataLoop}

/-- The number of sectors taken. -/
lemma DataLoop.Placed.count (h : DataLoop.Placed sectors bmap buffer d k l) :
    l.sectorsCount = min sectors (clearBelow bmap k).length := by
  have hlen := congrArg List.length h.table
  rwa [List.length_map, List.length_range, List.length_take] at hlen

/-- A sector that was taken before the bit `k`. -/
lemma DataLoop.Placed.lt (h : DataLoop.Placed sectors bmap buffer d k l) {i : ℕ}
    (hi : i < l.sectorsCount) : l.sector i < k := by
  have hmem : l.sector i ∈ (clearBelow bmap k).take sectors := by
    rw [← h.table]
    exact List.mem_map_of_mem (List.mem_range.mpr hi)
  exact (mem_clearBelow.mp (List.mem_of_mem_take hmem)).1

/-- The next bit is clear and a sector is needed. -/
lemma DataLoop.Placed.take (h : DataLoop.Placed sectors bmap buffer d k l)
    (hbit : Bits.get bmap k = false) (hmore : l.sectorsCount < sectors) :
    DataLoop.Placed sectors bmap buffer d (k + 1) (dataBit buffer k l) := by
  have hcount := h.count
  have htake :
      (clearBelow bmap (k + 1)).take sectors = (clearBelow bmap k).take sectors ++ [k] := by
    rw [clearBelow_succ, if_pos hbit, List.take_of_length_le (by simp; omega),
      List.take_of_length_le (by omega)]
  have hnot : decide (k ∈ (clearBelow bmap k).take sectors) = false := by
    refine decide_eq_false fun hmem => ?_
    have hlt := (mem_clearBelow.mp (List.mem_of_mem_take hmem)).1
    omega
  have hclear : Bits.get l.dataBmap k = false := by
    rw [h.bits, hbit, hnot, Bool.or_false]
  rw [dataBit, if_pos hclear]
  refine ⟨?_, fun j => ?_, fun i hi b hb => ?_, fun s hs => ?_⟩
  · dsimp only
    rw [htake, List.range_succ, List.map_append, List.map_singleton,
      Function.update_self, ← h.table]
    congr 1
    refine List.map_congr_left fun i hi => Function.update_of_ne ?_ _ _
    have hlt := List.mem_range.mp hi
    omega
  · rw [Bits.get_set, h.bits, htake]
    by_cases hj : j = k
    · simp [hj]
    · simp [hj]
  · dsimp only at hi ⊢
    rcases Nat.lt_succ_iff_lt_or_eq.mp hi with hi | rfl
    · have hlt := h.lt hi
      rw [Function.update_of_ne (by omega)]
      simp only [write]
      rw [if_neg (by omega)]
      exact h.contents i hi b hb
    · rw [Function.update_self]
      simp only [write]
      rw [if_pos (by omega), Nat.sub_self, Nat.mul_zero, Nat.zero_add]
  · rw [htake] at hs
    have hsk := hs k (by simp)
    have hrest := h.frame s fun j hj => hs j (List.mem_append_left _ hj)
    rw [← hrest]
    funext b
    simp only [write]
    rw [if_neg (by omega)]

/-- The next bit is set, or there are enough sectors. -/
lemma DataLoop.Placed.skip (h : DataLoop.Placed sectors bmap buffer d k l)
    (hskip : Bits.get bmap k = true ∨ sectors ≤ l.sectorsCount) :
    DataLoop.Placed sectors bmap buffer d (k + 1) l := by
  have hcount := h.count
  have htake : (clearBelow bmap (k + 1)).take sectors = (clearBelow bmap k).take sectors := by
    rw [clearBelow_succ]
    rcases hskip with hbit | hfull
    · rw [if_neg (by simp [hbit]), List.append_nil]
    · rw [List.take_append_of_le_length (by omega)]
  exact ⟨htake ▸ h.table, htake ▸ h.bits, h.contents, htake ▸ h.frame⟩

/-- **One round of the loop.** -/
lemma DataLoop.Placed.next (h : DataLoop.Placed sectors bmap buffer d k l) :
    DataLoop.Placed sectors bmap buffer d (k + 1)
      (if sectors ≤ l.sectorsCount then l else dataBit buffer k l) := by
  by_cases hfull : sectors ≤ l.sectorsCount
  · rw [if_pos hfull]
    exact h.skip (.inr hfull)
  · rw [if_neg hfull]
    cases hbit : Bits.get bmap k with
    | false => exact h.take hbit (by omega)
    | true =>
      have hset : ¬Bits.get l.dataBmap k = false := by
        rw [h.bits, hbit]
        simp
      rw [dataBit, if_neg hset]
      exact h.skip (.inl hbit)

/-- **The loops of `write_inode_data`.** -/
lemma placed_writeSectors (inode : Inode) (data : ℕ → BitVec 8) (size : ℕ) (d : Disk) :
    DataLoop.Placed inode.sectors d.dataBitmap (dataBuffer data size) d 32768
      (d.writeSectors inode data size) := by
  rw [writeSectors, dataLoop_eq]
  have hstart : DataLoop.Placed inode.sectors d.dataBitmap (dataBuffer data size) d 0
      ⟨(d.read 17 8).1, 0, inode.sector, [], (d.read 17 8).2⟩ :=
    ⟨by simp [clearBelow], fun j => by simp [clearBelow, dataBitmap], fun i hi =>
      absurd hi (by simp),
      fun s _ => rfl⟩
  have hloop := Loop.forEach_rule (n := 32768) (fun k l _ _ hl => hl.next) hstart
  exact hloop

/-! ## Calls of `write_inode_data` -/

/-- There is room for the file: its sectors fit the table, its data fit the sectors, and enough bits
of the data bitmap are clear. -/
structure Fits (d : Disk) (inode : Inode) (size : ℕ) : Prop where
  table : inode.sectors ≤ 14
  data : size ≤ 512 * inode.sectors
  clear : inode.sectors ≤ (clearBelow d.dataBitmap 32768).length

/-- `read_inode_data` on the inode returns the data, with zeros behind them. -/
def ReadsBack (d : Disk) (inode : Inode) (data : ℕ → BitVec 8) (size : ℕ) : Prop :=
  ∀ buffer, ∀ b < 512 * inode.sectors, (readInodeData inode buffer d).1 b = dataBuffer data size b

/-- What a call of `write_inode_data` has done: `inode'` and `d'` are the inode and the disk after
it. -/
structure Written (d : Disk) (inode : Inode) (data : ℕ → BitVec 8) (size : ℕ) (inode' : Inode)
    (d' : Disk) :
    Prop where
  /-- The size, the type and the number of sectors are not written. -/
  fields : inode'.type = inode.type ∧ inode'.size = inode.size ∧ inode'.sectors = inode.sectors
  /-- The sector table has the lowest clear bits. -/
  table : Inode.inUse inode' = lowestClear d.dataBitmap inode.sectors
  /-- These bits are set, and no other bit changes. -/
  bits : ∀ j < 32768, Bits.get d'.dataBitmap j =
    (Bits.get d.dataBitmap j || decide (j ∈ lowestClear d.dataBitmap inode.sectors))
  /-- No sectors change but those of the bitmap and of the file. -/
  frame : ∀ s, ¬(17 ≤ s ∧ s < 25) →
    (∀ j ∈ lowestClear d.dataBitmap inode.sectors, s ≠ dataOffset + j) →
    d'.sector s = d.sector s
  readBack : d'.ReadsBack inode' data size

/-- **What `write_inode_data` does.** -/
theorem written_writeInodeData (data : ℕ → BitVec 8) (h : d.Fits inode size) :
    Written d inode data size (d.writeInodeData inode data size).1
      (d.writeInodeData inode data size).2.2 := by
  have hloop := placed_writeSectors inode data size d
  rw [writeInodeData]
  generalize d.writeSectors inode data size = l at hloop
  have hcount : l.sectorsCount = inode.sectors := by
    rw [hloop.count]
    exact min_eq_left h.clear
  have htable := hloop.table
  have hbits := hloop.bits
  have hframe := hloop.frame
  have hlow : (clearBelow d.dataBitmap 32768).take inode.sectors =
      lowestClear d.dataBitmap inode.sectors := by rw [lowestClear]
  rw [hcount, hlow] at htable
  simp only [hlow] at hbits hframe
  refine ⟨⟨rfl, rfl, rfl⟩, htable, fun j hj => ?_, fun s hs hout => ?_, fun buffer b hb => ?_⟩
  · rw [← hbits j, dataBitmap]
    exact get_congr (read_write_self (by omega))
  · refine Eq.trans ?_ (hframe s hout)
    funext b
    simp only [write]
    rw [if_neg (by omega)]
  · rw [readInodeData_eq _ buffer _ hb]
    have hdiv : b / 512 < l.sectorsCount := by
      rw [hcount]
      exact Nat.div_lt_of_lt_mul hb
    have hcontents := hloop.contents (b / 512) hdiv (b % 512) (Nat.mod_lt _ (by omega))
    rw [Nat.div_add_mod] at hcontents
    rw [← hcontents]
    simp only [write, dataOffset]
    rw [if_neg (by omega)]

/-- A bit that is taken was clear. -/
lemma clear_of_mem_lowestClear {j n : ℕ} {bmap : ℕ → BitVec 8} (h : j ∈ lowestClear bmap n) :
    j < 32768 ∧ Bits.get bmap j = false := by
  rw [lowestClear] at h
  exact mem_clearBelow.mp (List.mem_of_mem_take h)

/-- The bits of a file's sectors are set. -/
def Holds (d : Disk) (inode : Inode) : Prop :=
  ∀ i < inode.sectors, inode.sector i < 32768 ∧ Bits.get d.dataBitmap (inode.sector i) = true

/-- The bits of the file that was written are set. -/
lemma Written.holds {inode' : Inode} (h : Written d inode data size inode' d') :
    d'.Holds inode' := by
  intro i hi
  have hmem : inode'.sector i ∈ lowestClear d.dataBitmap inode.sectors := by
    rw [← h.table]
    exact List.mem_map_of_mem (List.mem_range.mpr hi)
  have hlt := (clear_of_mem_lowestClear hmem).1
  refine ⟨hlt, ?_⟩
  rw [h.bits _ hlt, decide_eq_true hmem, Bool.or_true]

/-- **A later write leaves the file alone.** Its sectors are those of clear bits. -/
lemma Written.keeps {inode' file : Inode} {contents : ℕ → BitVec 8} {length : ℕ}
    (h : Written d inode data size inode' d') (hholds : d.Holds file)
    (hread : d.ReadsBack file contents length) :
      d'.Holds file ∧ d'.ReadsBack file contents length := by
  constructor
  · intro i hi
    obtain ⟨hlt, hset⟩ := hholds i hi
    refine ⟨hlt, ?_⟩
    rw [h.bits _ hlt, hset, Bool.true_or]
  · intro buffer b hb
    rw [← hread buffer b hb, readInodeData_eq _ _ _ hb, readInodeData_eq _ _ _ hb, h.frame]
    · rw [dataOffset]
      omega
    · intro j hj heq
      obtain ⟨-, hset⟩ := hholds (b / 512) (Nat.div_lt_of_lt_mul hb)
      have hclear := (clear_of_mem_lowestClear hj).2
      rw [← Nat.add_left_cancel heq, hset] at hclear
      cases hclear

/-! ## Disks with the same data -/

variable {file : Inode}

/-- The data bitmap and the data are the same on both disks. -/
def SameData (d d' : Disk) : Prop :=
  ∀ s, (17 ≤ s ∧ s < 25) ∨ dataOffset ≤ s → d'.sector s = d.sector s

/-- The bitmap is part of the data. -/
lemma SameData.dataBitmap (h : SameData d d') : d'.dataBitmap = d.dataBitmap := by
  funext i
  change (if i < 512 * 8 then d'.sector (17 + i / 512) (i % 512) else 0) =
    if i < 512 * 8 then d.sector (17 + i / 512) (i % 512) else 0
  by_cases hi : i < 512 * 8
  · rw [if_pos hi, if_pos hi, h _ (.inl (by omega))]
  · rw [if_neg hi, if_neg hi]

/-- The sectors of a file are part of the data. -/
lemma SameData.holds (h : SameData d d') (hf : d.Holds file) : d'.Holds file := by
  rw [Holds, h.dataBitmap]
  exact hf

/-- What is read back depends on the data only. -/
lemma SameData.readsBack (h : SameData d d') (hf : d.ReadsBack file data size) :
    d'.ReadsBack file data size := by
  intro buffer b hb
  rw [← hf buffer b hb, readInodeData_eq _ _ _ hb, readInodeData_eq _ _ _ hb,
    h _ (.inr (Nat.le_add_right _ _))]

end Disk

/-! ## Files -/

/-- A file: its inode after the write, and what was written. -/
structure StoredFile where
  inode : Inode
  data : ℕ → BitVec 8
  size : ℕ

/-- The disk with the files written to it. -/
structure Archive where
  disk : Disk
  files : List StoredFile

namespace Archive

variable {a : Archive}

/-- A call of `write_inode_data` for another inode. -/
structure Call where
  inode : Inode
  data : ℕ → BitVec 8
  size : ℕ

/-- What a call does. -/
def exec (a : Archive) (c : Call) : Archive where
  disk := (a.disk.writeInodeData c.inode c.data c.size).2.2
  files := ⟨(a.disk.writeInodeData c.inode c.data c.size).1, c.data, c.size⟩ :: a.files

/-- Before the first call: any disk. -/
def Init (a : Archive) : Prop := a.files = []

/-- Every file has its sectors, and reads back. -/
def Intact (a : Archive) : Prop :=
  ∀ f ∈ a.files, a.disk.Holds f.inode ∧ a.disk.ReadsBack f.inode f.data f.size

/-- **One more file.** -/
lemma Intact.exec {c : Call} (h : a.Intact) (hfits : a.disk.Fits c.inode c.size) :
    (a.exec c).Intact := by
  have hwritten := Disk.written_writeInodeData c.data hfits
  intro f hf
  rcases List.mem_cons.mp hf with rfl | hf
  · exact ⟨hwritten.holds, hwritten.readBack⟩
  · exact hwritten.keeps (h f hf).1 (h f hf).2

/-- Files stay intact when the data do not change. -/
lemma Intact.congr {d : Disk} (h : a.Intact) (hd : Disk.SameData a.disk d) : Intact ⟨d, a.files⟩ :=
  fun f hf => ⟨hd.holds (h f hf).1, hd.readsBack (h f hf).2⟩

/-- There are no files before the first call. -/
lemma Init.intact (h : a.Init) : a.Intact := by
  intro f hf
  rw [h] at hf
  exact absurd hf List.not_mem_nil

end Archive

end AlphaOS
