import Mathlib.Data.List.Range
import Mathlib.Data.Nat.Count
import AlphaOS.Lib.Bits
import AlphaOS.Lib.Reach

set_option relaxedAutoImplicit false
set_option autoImplicit false

/-!
# Inodes on disk

The on-disk half of `kernel/filesystem/fs.c`. The disk holds the inode bitmap in sectors `9` to
`16`, the data bitmap in `17` to `24`, the inode blocks from `IBLOCK_OFFSET` and the data from
`DATA_OFFSET` on. The inode bitmap has bits for `32768` inodes and the forty sectors of inode blocks
have room for `320`; a size that fits `inode.size` takes up to `128` sectors and `inode.sector` has
`14` entries. This file follows the accesses of the functions to the disk and to the sector table,
and says which calls stay within the regions.

## Main definitions

* `AlphaOS.Disk`, `AlphaOS.Disk.read`, `AlphaOS.Disk.write` — the disk with the sectors addressed.
* `AlphaOS.Disk.allocInodeNum`, `writeInode`, `writeInodeData` — the functions of the source.
* `AlphaOS.Fs` — the file system with the numbers handed out and the accesses made.
* `AlphaOS.Fs.Separate` — every access stays within its region.
* `AlphaOS.Fs.Fits` — the inode number and the number of sectors fit the regions.

## Main results

* `AlphaOS.Fs.alloc_least` — in every run `alloc_inode_num` returns the least number not handed out.
* `AlphaOS.Fs.separate_iff_fits` — every access of a run stays within its region as long as every
  call fits, and a further call keeps this if and only if it fits.
* `AlphaOS.Fs.inode_past_blocks` — a run that writes an inode into the data.

## Design

The disk is faithful: a read returns what was written last. `inode.sector` is a function of the
index, of which the indices from `14` on lie behind the inode.
-/

namespace AlphaOS

/-- `IBLOCK_OFFSET`. -/
def iblockOffset : ℕ := 25

/-- `DATA_OFFSET`. -/
def dataOffset : ℕ := 65

/-- `struct inode`. -/
structure Inode where
  type : BitVec 8
  size : ℕ
  sectors : ℕ
  sector : ℕ → ℕ

namespace Inode

/-- The byte `i` of a little-endian number. -/
def byteOf (x i : ℕ) : BitVec 8 := BitVec.ofNat 8 (x / 256 ^ i)

/-- The `64` bytes of an inode: the type, two 16-bit fields from offset `2` on, and the sector table
from offset `8` on. The bytes in between are padding. -/
def bytes (n : Inode) (i : ℕ) : BitVec 8 :=
  if i = 0 then n.type
  else if i < 2 then 0
  else if i < 4 then byteOf n.size (i - 2)
  else if i < 6 then byteOf n.sectors (i - 4)
  else if i < 8 then 0
  else byteOf (n.sector ((i - 8) / 4)) ((i - 8) % 4)

end Inode

/-- The disk: the bytes of its sectors, and the sectors addressed by the commands so far. -/
structure Disk where
  sector : ℕ → ℕ → BitVec 8
  touched : List ℕ

namespace Disk

variable {d : Disk} {lba n num : ℕ} {buf : ℕ → BitVec 8}

/-- `disk_read(lba, n, buffer)`: the `512 * n` bytes read. -/
def read (lba n : ℕ) (d : Disk) : (ℕ → BitVec 8) × Disk :=
  (fun i => if i < 512 * n then d.sector (lba + i / 512) (i % 512) else 0,
    { d with touched := d.touched ++ List.range' lba n })

/-- `disk_write(lba, n, buffer)`. -/
def write (lba n : ℕ) (buf : ℕ → BitVec 8) (d : Disk) : Disk where
  sector s i := if lba ≤ s ∧ s < lba + n then buf (512 * (s - lba) + i) else d.sector s i
  touched := d.touched ++ List.range' lba n

/-- `init_ibmap`, `init_dbmap` and `init_iblock`. -/
def format (d : Disk) : Disk :=
  ((d.write 9 8 fun _ => 0).write 17 8 fun _ => 0).write iblockOffset 40 fun _ => 0

/-- One round of the search of `alloc_inode_num`: return the number of a bit that is not set. -/
def allocBit (bmap : ℕ → BitVec 8) (k : ℕ) (_ : Unit) : ℕ ⊕ Unit :=
  if Bits.get bmap k = false then .inl k else .inr ()

/-- `alloc_inode_num`, with its value `-1` as `none`. -/
def allocInodeNum (d : Disk) : Option ℕ × Disk :=
  match Loop.forRange (fun i => Loop.forRange (fun j => allocBit (d.read 9 8).1 (8 * i + j)) 0 8)
      0 4096 () with
  | .inl k => (some k, (d.read 9 8).2.write 9 8 (Bits.set (d.read 9 8).1 k))
  | .inr _ => (none, (d.read 9 8).2)

/-- `write_inode`. -/
def writeInode (inode : Inode) (num : ℕ) (d : Disk) : Disk :=
  (d.read (iblockOffset + num / 8) 1).2.write (iblockOffset + num / 8) 1 fun i =>
    if num % 8 * 64 ≤ i ∧ i < num % 8 * 64 + 64 then inode.bytes (i - num % 8 * 64)
    else (d.read (iblockOffset + num / 8) 1).1 i

/-- The variables of the loop of `write_inode_data`. -/
structure DataLoop where
  dataBmap : ℕ → BitVec 8
  sectorsCount : ℕ
  /-- `inode->sector`. -/
  sector : ℕ → ℕ
  /-- The entries of `inode->sector` assigned so far. -/
  entries : List ℕ
  disk : Disk

/-- The body of the loop of `write_inode_data` for the bit `k`, with the data in `buffer`. -/
def dataBit (buffer : ℕ → BitVec 8) (k : ℕ) (l : DataLoop) : DataLoop :=
  if Bits.get l.dataBmap k = false then
    { dataBmap := Bits.set l.dataBmap k
      sectorsCount := l.sectorsCount + 1
      sector := Function.update l.sector l.sectorsCount k
      entries := l.entries ++ [l.sectorsCount]
      disk := l.disk.write (dataOffset + k) 1 fun i => buffer (512 * l.sectorsCount + i) }
  else l

/-- `data_buffer`: the data, and zeros behind them. -/
def dataBuffer (data : ℕ → BitVec 8) (size i : ℕ) : BitVec 8 := if i < size then data i else 0

/-- The loops of `write_inode_data`; the inner one breaks off once there are enough sectors. -/
def dataLoop (sectors : ℕ) (buffer : ℕ → BitVec 8) (l : DataLoop) : DataLoop :=
  Loop.forEach (fun i l => (Loop.forRange (fun j l => if sectors ≤ l.sectorsCount then .inl l
    else .inr (dataBit buffer (8 * i + j) l)) 0 8 l).elim id id) 0 4096 l

/-- `write_inode_data` up to the end of its loops. -/
def writeSectors (inode : Inode) (data : ℕ → BitVec 8) (size : ℕ) (d : Disk) : DataLoop :=
  dataLoop inode.sectors (dataBuffer data size)
    ⟨(d.read 17 8).1, 0, inode.sector, [], (d.read 17 8).2⟩

/-- What `write_inode_data` does to the disk: the inode, the entries of its sector table that were
assigned, and the disk. The buffer from the heap is added in `AlphaOS.FileSystem.writeInodeData`. -/
def writeInodeData (inode : Inode) (data : ℕ → BitVec 8) (size : ℕ) (d : Disk) :
    Inode × List ℕ × Disk :=
  ({ inode with sector := (d.writeSectors inode data size).sector },
    (d.writeSectors inode data size).entries,
    (d.writeSectors inode data size).disk.write 17 8 (d.writeSectors inode data size).dataBmap)

/-! ## Reads after writes -/

/-- A read of what was written last. -/
lemma read_write_self {i : ℕ} (hi : i < 512 * n) :
    ((d.write lba n buf).read lba n).1 i = buf i := by
  change (if i < 512 * n then (if lba ≤ lba + i / 512 ∧ lba + i / 512 < lba + n then
    buf (512 * (lba + i / 512 - lba) + i % 512) else _) else 0) = buf i
  rw [if_pos hi, if_pos (by omega)]
  congr 1
  omega

/-- A read of other sectors than those written last. -/
lemma read_write_of_disjoint {lba' n' : ℕ} (h : lba + n ≤ lba' ∨ lba' + n' ≤ lba) :
    ((d.write lba' n' buf).read lba n).1 = (d.read lba n).1 := by
  funext i
  change (if i < 512 * n then (if lba' ≤ lba + i / 512 ∧ lba + i / 512 < lba' + n' then _
    else d.sector (lba + i / 512) (i % 512)) else 0) = _
  by_cases hi : i < 512 * n
  · rw [if_pos hi, if_neg (by omega)]
    exact (if_pos hi).symm
  · rw [if_neg hi]
    exact (if_neg hi).symm

/-- A bit of a bitmap depends on its byte. -/
lemma get_congr {a b : ℕ → BitVec 8} {k : ℕ} (h : a (k / 8) = b (k / 8)) :
    Bits.get a k = Bits.get b k := by
  unfold Bits.get
  rw [h]

/-! ## Allocation of an inode number -/

/-- **The search of `alloc_inode_num`** ends at the first bit that is not set, or all bits are set.
-/
lemma allocInodeNum_cases (d : Disk) :
    (∃ k < 32768, Bits.get (d.read 9 8).1 k = false ∧
        (∀ j < k, Bits.get (d.read 9 8).1 j = true) ∧
        d.allocInodeNum = (some k, (d.read 9 8).2.write 9 8 (Bits.set (d.read 9 8).1 k))) ∨
      (∀ k < 32768, Bits.get (d.read 9 8).1 k = true) ∧
        d.allocInodeNum = (none, (d.read 9 8).2) := by
  unfold allocInodeNum
  rw [Loop.forRange_nest (allocBit (d.read 9 8).1) 8 4096 0 ()]
  have hloop : Loop.Ends
      (fun k => k < 32768 ∧ Bits.get (d.read 9 8).1 k = false ∧
        ∀ j < k, Bits.get (d.read 9 8).1 j = true)
      (fun _ : Unit => ∀ j < 0 + 32768, Bits.get (d.read 9 8).1 j = true)
      (Loop.forRange (allocBit (d.read 9 8).1) 0 32768 ()) := by
    refine Loop.forRange_rule (I := fun k _ => ∀ j < k, Bits.get (d.read 9 8).1 j = true)
      (fun k u _ hk ih => ?_) (fun j hj => absurd hj (Nat.not_lt_zero j))
    unfold allocBit
    split_ifs with hbit
    · exact ⟨by omega, hbit, ih⟩
    · intro j hj
      rcases Nat.lt_succ_iff_lt_or_eq.mp hj with hj | rfl
      · exact ih j hj
      · simpa using hbit
  change Loop.Ends _ _ (Loop.forRange (allocBit (d.read 9 8).1) (8 * 0) (8 * 4096) ()) at hloop
  cases hres : Loop.forRange (allocBit (d.read 9 8).1) (8 * 0) (8 * 4096) () with
  | inl k =>
    rw [hres] at hloop
    exact .inl ⟨k, hloop.1, hloop.2.1, hloop.2.2, rfl⟩
  | inr u =>
    rw [hres] at hloop
    exact .inr ⟨fun k hk => hloop k (by omega), rfl⟩

/-! ## The data loop -/

/-- The two loops of `write_inode_data` are one loop over the bits, which skips the rest once there
are enough sectors. -/
lemma dataLoop_eq (sectors : ℕ) (buffer : ℕ → BitVec 8) (l : DataLoop) :
    dataLoop sectors buffer l =
      Loop.forEach (fun k l => if sectors ≤ l.sectorsCount then l else dataBit buffer k l)
        0 32768 l := by
  unfold dataLoop
  have hinner : (fun i (l : DataLoop) => (Loop.forRange (fun j l =>
        if sectors ≤ l.sectorsCount then .inl l else .inr (dataBit buffer (8 * i + j) l)) 0 8
          l).elim
        id id) =
      fun i => Loop.forEach (fun j l =>
        if sectors ≤ l.sectorsCount then l else dataBit buffer (8 * i + j) l) 0 8 := by
    funext i l
    exact Loop.forRange_break (fun j => dataBit buffer (8 * i + j))
      (fun l => sectors ≤ l.sectorsCount) 0 8 l
  rw [hinner, Loop.forEach_nest (fun k l =>
    if sectors ≤ l.sectorsCount then l else dataBit buffer k l) 8 4096 0 l, Nat.mul_zero]

/-- The number of clear bits before the bit `k`. -/
def clearBits (bmap : ℕ → BitVec 8) (k : ℕ) : ℕ := Nat.count (fun j => Bits.get bmap j = false) k

/-- What the data loop has done before the bit `k`: `bmap` and `d` are the bitmap and the disk at
its start. -/
structure DataLoop.Upto (sectors : ℕ) (bmap : ℕ → BitVec 8) (d : Disk) (k : ℕ) (l : DataLoop) :
    Prop where
  count : l.sectorsCount = min sectors (clearBits bmap k)
  bits : ∀ j, k ≤ j → Bits.get l.dataBmap j = Bits.get bmap j
  entries : l.entries = List.range l.sectorsCount
  touched : ∀ x ∈ l.disk.touched, x ∈ d.touched ∨ dataOffset ≤ x
  ibmap : (l.disk.read 9 8).1 = (d.read 9 8).1

/-- The body of the data loop. -/
lemma DataLoop.Upto.next {sectors k : ℕ} {bmap : ℕ → BitVec 8} {l : DataLoop}
    (buffer : ℕ → BitVec 8) (h : DataLoop.Upto sectors bmap d k l) :
    DataLoop.Upto sectors bmap d (k + 1)
      (if sectors ≤ l.sectorsCount then l else dataBit buffer k l) := by
  have hcount := h.count
  by_cases hbit : Bits.get bmap k = false
  · have hsucc : clearBits bmap (k + 1) = clearBits bmap k + 1 := by
      rw [clearBits, Nat.count_succ, if_pos hbit, clearBits]
    split_ifs with hfull
    · exact ⟨by omega, fun j hj => h.bits j (by omega), h.entries, h.touched, h.ibmap⟩
    · have hbody : dataBit buffer k l = { dataBmap := Bits.set l.dataBmap k
                                          sectorsCount := l.sectorsCount + 1
                                          sector := Function.update l.sector l.sectorsCount k
                                          entries := l.entries ++ [l.sectorsCount]
                                          disk := l.disk.write (dataOffset + k) 1 fun i =>
                                            buffer (512 * l.sectorsCount + i) } :=
        if_pos ((h.bits k (Nat.le_refl k)).trans hbit)
      rw [hbody]
      refine ⟨by dsimp only; omega, fun j hj => ?_, ?_, fun x hx => ?_, ?_⟩
      · rw [Bits.get_set, decide_eq_false (by omega), Bool.false_or, h.bits j (by omega)]
      · rw [h.entries, List.range_succ]
      · rcases List.mem_append.mp hx with hx | hx
        · exact h.touched x hx
        · exact .inr (by have := List.mem_range'_1.mp hx; omega)
      · rw [← h.ibmap]
        dsimp only
        have hbefore : 9 + 8 ≤ dataOffset + k := by
          unfold dataOffset
          omega
        exact read_write_of_disjoint (.inl hbefore)
  · have hsucc : clearBits bmap (k + 1) = clearBits bmap k := by
      rw [clearBits, Nat.count_succ, if_neg hbit, Nat.add_zero, clearBits]
    have hbody : (if sectors ≤ l.sectorsCount then l else dataBit buffer k l) = l := by
      split_ifs
      · rfl
      · exact if_neg fun hl => hbit ((h.bits k (Nat.le_refl k)).symm.trans hl)
    rw [hbody]
    exact ⟨by omega, fun j hj => h.bits j (by omega), h.entries, h.touched, h.ibmap⟩

/-- **What the loops of `write_inode_data` do**: they assign an entry for each free sector they
take, as many as are needed or as there are. -/
lemma writeSectors_spec (inode : Inode) (data : ℕ → BitVec 8) (size : ℕ) (d : Disk) :
    DataLoop.Upto inode.sectors (d.read 17 8).1 (d.read 17 8).2 32768
      (d.writeSectors inode data size) := by
  rw [writeSectors, dataLoop_eq]
  have hstart : DataLoop.Upto inode.sectors (d.read 17 8).1 (d.read 17 8).2 0
      ⟨(d.read 17 8).1, 0, inode.sector, [], (d.read 17 8).2⟩ :=
    ⟨by simp [clearBits], fun _ _ => rfl, rfl, fun x hx => .inl hx, rfl⟩
  have hloop := Loop.forEach_rule (n := 32768)
    (fun k l _ _ hl => hl.next (dataBuffer data size)) hstart
  exact hloop

end Disk

/-- An access of a call: `write_inode` or `write_inode_data` addresses a sector, or an entry of the
sector table is assigned. -/
inductive Access
  | inode (lba : ℕ)
  | data (lba : ℕ)
  | entry (k : ℕ)
deriving DecidableEq, Repr

/-- The file system: the disk, the inode numbers handed out and the accesses made since the disk was
formatted. -/
structure Fs where
  disk : Disk
  allocated : List ℕ
  history : List Access

namespace Fs

open Disk

/-- A call of one of the three functions. -/
inductive Call
  | alloc
  | writeInode (inode : Inode) (num : ℕ)
  | writeInodeData (inode : Inode) (data : ℕ → BitVec 8) (size : ℕ)

/-- An inode is written under a number that was handed out; data are written with a size that fits
`inode.size` and the number of sectors this size takes. -/
def Enabled (fs : Fs) : Call → Prop
  | .alloc => True
  | .writeInode _ num => num ∈ fs.allocated
  | .writeInodeData inode _ size => size < 2 ^ 16 ∧ inode.sectors = (size + 511) / 512

/-- The disk at the start of a call, with no sector addressed yet. -/
def fresh (fs : Fs) : Disk := { fs.disk with touched := [] }

/-- What a call does. -/
def exec (fs : Fs) : Call → Fs
  | .alloc =>
    { fs with
      disk := fs.fresh.allocInodeNum.2
      allocated := fs.fresh.allocInodeNum.1.toList ++ fs.allocated }
  | .writeInode inode num =>
    { fs with
      disk := fs.fresh.writeInode inode num
      history := fs.history ++ (fs.fresh.writeInode inode num).touched.map .inode }
  | .writeInodeData inode data size =>
    { fs with
      disk := (fs.fresh.writeInodeData inode data size).2.2
      history := fs.history ++ (fs.fresh.writeInodeData inode data size).2.2.touched.map .data ++
        (fs.fresh.writeInodeData inode data size).2.1.map .entry }

/-- An enabled call. -/
def Step (fs : Fs) (c : Call) (fs' : Fs) : Prop := fs.Enabled c ∧ fs' = fs.exec c

/-- The state after formatting. -/
def Init (fs : Fs) : Prop := (∃ d, fs.disk = Disk.format d) ∧ fs.allocated = [] ∧ fs.history = []

/-- The access stays within its region: the inode blocks, the data bitmap and the data, the `14`
entries of the sector table. -/
def Within : Access → Prop
  | .inode lba => iblockOffset ≤ lba ∧ lba < dataOffset
  | .data lba => (17 ≤ lba ∧ lba < 25) ∨ dataOffset ≤ lba
  | .entry k => k < 14

/-- Every access since the disk was formatted stays within its region. -/
def Separate (fs : Fs) : Prop := ∀ a ∈ fs.history, Within a

/-- The number of clear bits in the data bitmap. -/
def freeSectors (fs : Fs) : ℕ := clearBits (fs.disk.read 17 8).1 32768

/-- The number is one of the `320` that the inode blocks have room for; the data take no more
sectors than the sector table has entries, or there are no more free ones. -/
def Fits (fs : Fs) : Call → Prop
  | .alloc => True
  | .writeInode _ num => num < 320
  | .writeInodeData inode _ _ => inode.sectors ≤ 14 ∨ fs.freeSectors ≤ 14

variable {fs fs' : Fs} {c : Call}

/-! ## The numbers handed out -/

/-- The inode bitmap has the bits of the numbers handed out. -/
structure Counted (fs : Fs) : Prop where
  lt : ∀ k ∈ fs.allocated, k < 32768
  bits : ∀ k < 32768, Bits.get (fs.disk.read 9 8).1 k = true ↔ k ∈ fs.allocated

/-- A call that leaves the inode bitmap alone leaves the numbers counted. -/
lemma Counted.congr (h : Counted fs) (hbmap : (fs'.disk.read 9 8).1 = (fs.disk.read 9 8).1)
    (halloc : fs'.allocated = fs.allocated) : Counted fs' := by
  refine ⟨?_, ?_⟩
  · rw [halloc]
    exact h.lt
  · rw [hbmap, halloc]
    exact h.bits

/-- **`alloc_inode_num`** returns the least number not handed out, or `-1` when there is none. -/
lemma Counted.alloc (h : Counted fs) :
    (∃ k < 32768, k ∉ fs.allocated ∧ (∀ j < k, j ∈ fs.allocated) ∧
        (fs.exec .alloc).allocated = k :: fs.allocated ∧ Counted (fs.exec .alloc)) ∨
      (∀ k < 32768, k ∈ fs.allocated) ∧ fs.exec .alloc = { fs with
        disk := (fs.fresh.read 9 8).2 } := by
  have hread : (fs.fresh.read 9 8).1 = (fs.disk.read 9 8).1 := rfl
  rcases fs.fresh.allocInodeNum_cases with ⟨k, hk, hclear, hset, heq⟩ | ⟨hall, heq⟩
  · rw [hread] at hclear
    have hnew : (fs.exec .alloc).allocated = k :: fs.allocated := by
      change fs.fresh.allocInodeNum.1.toList ++ fs.allocated = _
      rw [heq]
      rfl
    have hmem : k ∉ fs.allocated := fun hm => by
      rw [(h.bits k hk).mpr hm] at hclear
      exact absurd hclear (by simp)
    refine .inl ⟨k, hk, hmem, fun j hj => ?_, hnew, ⟨fun j hj => ?_, fun j hj => ?_⟩⟩
    · exact (h.bits j (by omega)).mp (hset j hj)
    · rw [hnew] at hj
      rcases List.mem_cons.mp hj with rfl | hj
      · exact hk
      · exact h.lt j hj
    · have hdisk : (fs.exec .alloc).disk =
          (fs.fresh.read 9 8).2.write 9 8 (Bits.set (fs.fresh.read 9 8).1 k) := by
        change fs.fresh.allocInodeNum.2 = _
        rw [heq]
      rw [hdisk, get_congr (read_write_self (by omega)), Bits.get_set, hread, hnew, List.mem_cons,
        Bool.or_eq_true, decide_eq_true_iff, h.bits j hj]
  · refine .inr ⟨fun k hk => (h.bits k hk).mp (hall k hk), ?_⟩
    change ({ fs with
      disk := fs.fresh.allocInodeNum.2
      allocated := fs.fresh.allocInodeNum.1.toList ++ fs.allocated } : Fs) = _
    rw [heq]
    rfl

/-- Every call keeps the numbers counted. -/
lemma Counted.exec (h : Counted fs) (c : Call) : Counted (fs.exec c) := by
  cases c with
  | alloc =>
    rcases h.alloc with ⟨k, -, -, -, -, hcount⟩ | ⟨-, heq⟩
    · exact hcount
    · rw [heq]
      exact h.congr rfl rfl
  | writeInode inode num =>
    refine h.congr ?_ rfl
    have hafter : 9 + 8 ≤ iblockOffset + num / 8 := by
      unfold iblockOffset
      omega
    have hwrite : ((fs.fresh.writeInode inode num).read 9 8).1 =
        ((fs.fresh.read (iblockOffset + num / 8) 1).2.read 9 8).1 :=
      read_write_of_disjoint (.inl hafter)
    exact hwrite
  | writeInodeData inode data size =>
    refine h.congr ?_ rfl
    have hwrite : ((fs.fresh.writeInodeData inode data size).2.2.read 9 8).1 =
        ((fs.fresh.writeSectors inode data size).disk.read 9 8).1 :=
      read_write_of_disjoint (.inl (by omega))
    exact hwrite.trans (writeSectors_spec inode data size fs.fresh).ibmap

/-- The bitmaps are clear after formatting. -/
lemma counted_of_init (h : fs.Init) : Counted fs := by
  obtain ⟨⟨d, hd⟩, halloc, -⟩ := h
  refine ⟨by simp [halloc], fun k hk => ?_⟩
  have hzero : (fs.disk.read 9 8).1 = ((d.write 9 8 fun _ => 0).read 9 8).1 := by
    rw [hd, format, read_write_of_disjoint (.inl (by decide)),
      read_write_of_disjoint (.inl (by decide))]
  rw [hzero, get_congr (read_write_self (by omega)), halloc]
  simp [Bits.get]

/-- **The numbers of every run**: each number handed out is below `32768`, and `alloc_inode_num`
returns the least number that is not handed out, or `-1` when there is none. -/
theorem alloc_least {ok : Fs → Call → Prop} (h : Transition.Reach Init Step ok fs) :
    (∀ k ∈ fs.allocated, k < 32768) ∧
      ((∃ k < 32768, k ∉ fs.allocated ∧ (∀ j < k, j ∈ fs.allocated) ∧
          (fs.exec .alloc).allocated = k :: fs.allocated) ∨
        (∀ k < 32768, k ∈ fs.allocated) ∧ (fs.exec .alloc).allocated = fs.allocated) := by
  have hcount : Counted fs := by
    refine h.invariant (fun _ => counted_of_init) fun fs c fs' hc _ hs => ?_
    rw [hs.2]
    exact hc.exec c
  refine ⟨hcount.lt, ?_⟩
  rcases hcount.alloc with ⟨k, hk, hmem, hleast, heq, -⟩ | ⟨hall, heq⟩
  · exact .inl ⟨k, hk, hmem, hleast, heq⟩
  · rw [heq]
    exact .inr ⟨hall, rfl⟩

/-! ## The accesses -/

/-- The accesses of `write_inode` stay within the inode blocks if and only if its number fits. -/
lemma within_writeInode_iff {d : Disk} (hd : d.touched = []) (inode : Inode) (num : ℕ) :
    (∀ x ∈ (d.writeInode inode num).touched, Within (.inode x)) ↔ num < 320 := by
  have htouched : (d.writeInode inode num).touched =
      [iblockOffset + num / 8, iblockOffset + num / 8] := by
    change d.touched ++ List.range' (iblockOffset + num / 8) 1 ++
      List.range' (iblockOffset + num / 8) 1 = _
    rw [hd]
    rfl
  rw [htouched]
  simp only [List.mem_cons, List.not_mem_nil, or_false, or_self, forall_eq, Within, iblockOffset,
    dataOffset]
  omega

/-- The disk accesses of `write_inode_data` stay within the data bitmap and the data. -/
lemma within_writeInodeData {d : Disk} (hd : d.touched = []) (inode : Inode) (data : ℕ → BitVec 8)
    (size : ℕ) : ∀ x ∈ (d.writeInodeData inode data size).2.2.touched, Within (.data x) := by
  have hloop := writeSectors_spec inode data size d
  have hbmap : ∀ x ∈ List.range' 17 8, Within (.data x) := fun x hx =>
    .inl (by have := List.mem_range'_1.mp hx; omega)
  intro x hx
  rcases List.mem_append.mp hx with hx | hx
  · rcases hloop.touched x hx with hx | hx
    · have hx' : x ∈ d.touched ++ List.range' 17 8 := hx
      rw [hd, List.nil_append] at hx'
      exact hbmap x hx'
    · exact .inr hx
  · exact hbmap x hx

/-- The entries assigned by `write_inode_data` are those of the table if and only if it needs or
finds no more sectors than there are entries. -/
lemma within_entries_iff (d : Disk) (inode : Inode) (data : ℕ → BitVec 8) (size : ℕ) :
    (∀ k ∈ (d.writeInodeData inode data size).2.1, Within (.entry k)) ↔
      inode.sectors ≤ 14 ∨ clearBits (d.read 17 8).1 32768 ≤ 14 := by
  have hloop := writeSectors_spec inode data size d
  have hentries : (d.writeInodeData inode data size).2.1 =
      List.range (min inode.sectors (clearBits (d.read 17 8).1 32768)) := by
    rewrite [writeInodeData, hloop.entries, hloop.count]
    rfl
  rw [hentries]
  simp only [List.mem_range, Within]
  generalize clearBits (d.read 17 8).1 32768 = free
  constructor
  · intro h
    by_contra hmore
    have := h 14 (by omega)
    omega
  · intro h k hk
    omega

/-- **A call keeps the accesses within their regions if and only if it fits.** -/
lemma Separate.exec_iff (h : fs.Separate) (c : Call) : (fs.exec c).Separate ↔ fs.Fits c := by
  have happend : ∀ l, (∀ a ∈ fs.history ++ l, Within a) ↔ ∀ a ∈ l, Within a := fun l => by
    rw [List.forall_mem_append]
    exact and_iff_right h
  cases c with
  | alloc => exact iff_of_true h trivial
  | writeInode inode num =>
    change (∀ a ∈ fs.history ++ _, Within a) ↔ _
    rw [happend, List.forall_mem_map]
    exact within_writeInode_iff rfl inode num
  | writeInodeData inode data size =>
    change (∀ a ∈ fs.history ++ _ ++ _, Within a) ↔ _
    rw [List.append_assoc, happend, List.forall_mem_append, List.forall_mem_map,
      List.forall_mem_map]
    rw [and_iff_right (within_writeInodeData rfl inode data size), within_entries_iff]
    exact Iff.rfl

/-- **The regions stay separate exactly as long as every call fits.** In every run from the
formatted disk, of allocations, inodes written under numbers handed out and data written for sizes
that fit `inode.size`, in which every call fits, `write_inode` touches the inode blocks only,
`write_inode_data` the data bitmap and the data only, and no entry behind the sector table is
assigned; and a further call keeps this if and only if it fits.

**Proof sketch.** What one call accesses is determined by the number of the inode or by the bits
that the search finds, so that it keeps the regions separate if and only if it fits. For a run this
is an induction. -/
theorem separate_iff_fits {fs : Fs} (h : Transition.Reach Init Step Fits fs) :
    fs.Separate ∧ ∀ c, fs.Enabled c → ((fs.exec c).Separate ↔ fs.Fits c) := by
  have hsep : fs.Separate := by
    refine h.invariant (I := Separate) ?_ fun fs c fs' hsep hfits hs => ?_
    · intro fs hinit a ha
      rw [hinit.2.2] at ha
      simp at ha
    · rw [hs.2]
      exact (hsep.exec_iff c).mpr hfits
  exact ⟨hsep, fun c _ => hsep.exec_iff c⟩

/-! ## A run out of the inode blocks -/

/-- A freshly formatted disk. -/
def formatted : Fs := ⟨Disk.format ⟨fun _ _ => 0, []⟩, [], []⟩

/-- The disk after formatting is one to start from. -/
lemma init_formatted : formatted.Init := ⟨⟨_, rfl⟩, rfl, rfl⟩

/-- An inode of one sector. -/
def oneSector : Inode := ⟨1, 512, 1, fun _ => 0⟩

/-- A file of one sector is written to a freshly formatted disk. -/
theorem separate_iff_fits_formatted :
    (formatted.exec (.writeInodeData oneSector (fun _ => 0) 512)).Separate := by
  have hen : formatted.Enabled (.writeInodeData oneSector (fun _ => 0) 512) :=
    ⟨by decide, by decide⟩
  exact ((separate_iff_fits (.start init_formatted)).2 _ hen).mpr (.inl (by decide))

/-- After `n` allocations the numbers below `n` are handed out. -/
lemma exists_allocated {n : ℕ} (hn : n ≤ 32768) :
    ∃ fs, Transition.Reach Init Step (fun _ _ => True) fs ∧ Counted fs ∧ fs.Separate ∧
      ∀ k, k ∈ fs.allocated ↔ k < n := by
  induction n with
  | zero =>
    refine ⟨formatted, .start init_formatted, counted_of_init init_formatted, ?_, ?_⟩
    · simp [Separate, formatted]
    · simp [formatted]
  | succ n ih =>
    obtain ⟨fs, hreach, hcount, hsep, hmem⟩ := ih (by omega)
    refine ⟨fs.exec .alloc, hreach.next (a := .alloc) trivial ⟨trivial, rfl⟩, hcount.exec .alloc,
      (hsep.exec_iff .alloc).mpr trivial, ?_⟩
    rcases hcount.alloc with ⟨k, -, hnot, hleast, heq, -⟩ | ⟨hall, -⟩
    · -- the least number not handed out is `n`
      obtain rfl : k = n := by
        have hle : n ≤ k := by
          by_contra hlt
          exact hnot ((hmem k).mpr (by omega))
        have hge : ¬ n < k := fun hlt => by
          have := (hmem n).mp (hleast n hlt)
          omega
        omega
      intro j
      rw [heq, List.mem_cons, hmem]
      omega
    · have := (hmem n).mp (hall n (by omega))
      omega

/-- **An inode is written into the data.** The `321`st number handed out is `320`, whose inode
stands in sector `DATA_OFFSET`. -/
theorem inode_past_blocks :
    ¬ ∀ fs, Transition.Reach Init Step (fun _ _ => True) fs → fs.Separate := by
  intro hall
  obtain ⟨fs, hreach, -, hsep, hmem⟩ := exists_allocated (show 321 ≤ 32768 by omega)
  have hen : fs.Enabled (.writeInode oneSector 320) := (hmem 320).mpr (by omega)
  have hnext := hall _ (hreach.next (a := .writeInode oneSector 320) trivial ⟨hen, rfl⟩)
  exact absurd ((hsep.exec_iff _).mp hnext) (by decide : ¬ 320 < 320)

end Fs

end AlphaOS
