import AlphaOS.Fs.Contents
import AlphaOS.Fs.Slots
import AlphaOS.Fs.Transfers

set_option relaxedAutoImplicit false
set_option autoImplicit false

/-!
# The file system on the driver

The functions of `fs.c` reach the disk through `disk_read` and `disk_write` only. Here they are
written as the accesses they make, with what they compute in between, so that they can be run on the
disk that returns what was written last and on the driver of `disk.c` with a device behind it. The
two runs agree for every timing of the device as long as every access is one the device serves.

## Main definitions

* `AlphaOS.Io` — a function as the accesses it makes.
* `AlphaOS.Io.onDisk`, `AlphaOS.Io.onDriver` — its runs on the disk and on the driver.
* `AlphaOS.Io.Fits` — every access of the run on the disk is within the capacity.
* `AlphaOS.Ata.Stores` — a device holds the sectors of a disk.

## Main results

* `AlphaOS.Io.ends_onDriver` — **the driver refines the disk**.
* `AlphaOS.Io.onDisk_allocInodeNum` and its companions — the functions written as accesses are those
  of `AlphaOS.Fs.Inodes`, `AlphaOS.Fs.Slots` and `AlphaOS.Fs.Contents`.
-/

namespace AlphaOS

open Bounded Ata Ata.Device

/-- A function that reaches the disk through `disk_read` and `disk_write`. -/
inductive Io (α : Type) : Type
  | ret (a : α)
  | read (lba n : ℕ) (next : (ℕ → BitVec 8) → Io α)
  | write (lba n : ℕ) (buf : ℕ → BitVec 8) (next : Io α)

namespace Io

variable {α β : Type}

/-- One function after another. -/
def bind : Io α → (α → Io β) → Io β
  | ret a, q => q a
  | read lba n next, q => read lba n fun buf => (next buf).bind q
  | write lba n buf next, q => write lba n buf (next.bind q)

/-- `for (k = lo; k < lo + n; k++)`. -/
def forRange (body : ℕ → β → Io β) : ℕ → ℕ → β → Io β
  | _, 0, b => ret b
  | lo, n + 1, b => (body lo b).bind (forRange body (lo + 1) n)

/-- The run on the disk. -/
def onDisk : Io α → Disk → α × Disk
  | ret a, d => (a, d)
  | read lba n next, d => (next (d.read lba n).1).onDisk (d.read lba n).2
  | write lba n buf next, d => next.onDisk (d.write lba n buf)

/-- The bytes of an array of words. -/
def bytes (words : ℕ → BitVec 16) (i : ℕ) : BitVec 8 :=
  if i % 2 = 0 then (words (i / 2)).setWidth 8 else (words (i / 2) >>> 8).setWidth 8

/-- The run on the driver; the buffers are clear before a read. -/
def onDriver : Io α → Prog Device α
  | ret a => .ret a
  | read lba n next => .bind (diskRead (.ofNat 32 lba) (.ofNat 32 n) fun _ => 0) fun words =>
      (next (bytes words)).onDriver
  | write lba n buf next => .bind (diskWrite (.ofNat 32 lba) (.ofNat 32 n) buf) fun _ =>
      next.onDriver

/-- An access to `n` sectors that a device of the given capacity serves. -/
def Within (capacity lba n : ℕ) : Prop := 1 ≤ n ∧ n ≤ 256 ∧ lba + n ≤ capacity ∧ lba < 2 ^ 28

instance (capacity lba n : ℕ) : Decidable (Within capacity lba n) :=
  inferInstanceAs (Decidable (_ ∧ _ ∧ _ ∧ _))

/-- Every access of the run on the disk is within the capacity. -/
def Fits (capacity : ℕ) : Io α → Disk → Prop
  | ret _, _ => True
  | read lba n next, d =>
    Within capacity lba n ∧ (next (d.read lba n).1).Fits capacity (d.read lba n).2
  | write lba n buf next, d => Within capacity lba n ∧ next.Fits capacity (d.write lba n buf)

/-! ## Composition -/

/-- Two programs on the disk, one after the other. -/
lemma onDisk_bind (p : Io α) (q : α → Io β) (d : Disk) :
    (p.bind q).onDisk d = (q (p.onDisk d).1).onDisk (p.onDisk d).2 := by
  induction p generalizing d with
  | ret a => rfl
  | read lba n next ih => exact ih (d.read lba n).1 (d.read lba n).2
  | write lba n buf next ih => exact ih (d.write lba n buf)

/-- Two programs, one after the other, stay on the device if both do. -/
lemma fits_bind {capacity : ℕ} {p : Io α} {q : α → Io β} {d : Disk} (hp : p.Fits capacity d)
    (hq : (q (p.onDisk d).1).Fits capacity (p.onDisk d).2) : (p.bind q).Fits capacity d := by
  induction p generalizing d with
  | ret a => exact hq
  | read lba n next ih => exact ⟨hp.1, ih (d.read lba n).1 hp.2 hq⟩
  | write lba n buf next ih => exact ⟨hp.1, ih hp.2 hq⟩

/-- A loop on the disk is a loop over its variables and the disk. -/
lemma onDisk_forRange (body : ℕ → β → Io β) (lo n : ℕ) (b : β) (d : Disk) :
    (forRange body lo n b).onDisk d =
      Loop.forEach (fun k (s : β × Disk) => (body k s.1).onDisk s.2) lo n (b, d) := by
  induction n generalizing lo b d with
  | zero => rfl
  | succ n ih => rw [forRange, onDisk_bind, ih, Loop.forEach]

/-- A loop stays on the device if every iteration does. -/
lemma fits_forRange {capacity : ℕ} {body : ℕ → β → Io β} {lo n : ℕ}
    (h : ∀ k b d, lo ≤ k → k < lo + n → (body k b).Fits capacity d) (b : β) (d : Disk) :
    (forRange body lo n b).Fits capacity d := by
  induction n generalizing lo b d with
  | zero => exact trivial
  | succ n ih =>
    refine fits_bind (h lo b d (Nat.le_refl lo) (by omega)) ?_
    exact ih (fun k b d h₁ h₂ => h k b d (by omega) (by omega)) _ _

end Io

/-! ## The driver refines the disk -/

namespace Ata

/-- The device holds the sectors of the disk. -/
def Stores (d : Device) (disk : Disk) : Prop :=
  ∀ s < d.capacity, ∀ i < 512, d.sector s i = disk.sector s i

variable {d s : Device} {disk : Disk} {lba n : ℕ}

/-- The numbers of an access fit the parameters of the driver. -/
lemma toNat_of_within (h : Io.Within d.capacity lba n) :
    (BitVec.ofNat 32 lba).toNat % 2 ^ 28 = lba ∧ (BitVec.ofNat 32 n).toNat = n := by
  obtain ⟨-, h₂, -, h₄⟩ := h
  rw [BitVec.toNat_ofNat, BitVec.toNat_ofNat]
  omega

/-- A request within the capacity is served. -/
lemma serves_of_within (h : Io.Within d.capacity lba n) :
    Serves d (.ofNat 32 lba) (.ofNat 32 n) := by
  obtain ⟨hlba, hn⟩ := toNat_of_within h
  rw [Serves, hlba, hn]
  exact ⟨h.1, h.2.1, h.2.2.1⟩

/-- The bytes of the words of a sector. -/
lemma byte_word (f : ℕ → BitVec 8) (i : ℕ) :
    (if i % 2 = 0 then (word f (i / 2)).setWidth 8 else (word f (i / 2) >>> 8).setWidth 8) =
      f i := by
  by_cases hi : i % 2 = 0
  · rw [if_pos hi, word, BitVec.setWidth_append_eq_right]
    congr 1
    omega
  · have hodd : i = 2 * (i / 2) + 1 := by omega
    rw [if_neg hi, word_ushiftRight, ← hodd]

/-- **A read on the driver** gives what the disk has. -/
lemma ends_read (hd : d.Ready) (hs : Stores d disk) (h : Io.Within d.capacity lba n) :
    Ends (diskRead (.ofNat 32 lba) (.ofNat 32 n) fun _ => 0) (fun words s => s.Ready ∧
      s.capacity = d.capacity ∧ Stores s (disk.read lba n).2 ∧
      Io.bytes words = (disk.read lba n).1) d := by
  obtain ⟨hlba, hn⟩ := toNat_of_within h
  refine (ends_diskRead hd.waits (serves_of_within h) _).mono fun words s hr => ?_
  rw [hlba, hn] at hr
  refine ⟨⟨hr.transfer.present, hr.transfer.phase.trans (if_pos (Nat.le_refl n))⟩,
    hr.transfer.capacity,
    ?_, ?_⟩
  · intro k hk i hi
    rw [hr.transfer.capacity] at hk
    rw [hr.sector]
    exact hs k hk i hi
  · funext i
    have hread :
        (disk.read lba n).1 i = if i < 512 * n then disk.sector (lba + i / 512) (i % 512) else 0 :=
      rfl
    rw [hread, Io.bytes, hr.words]
    by_cases hi : i < 512 * n
    · have hsector := hs (lba + i / 512) (by have := h.2.2.1; omega) (i % 512) (by omega)
      have hword := byte_word (d.sector (lba + i / 512)) (i % 512)
      rw [show i % 512 % 2 = i % 2 by omega, show i % 512 / 2 = i / 2 % 256 by omega] at hword
      rw [if_pos hi, if_pos (show i / 2 < 256 * n by omega),
        show i / 2 / 256 = i / 512 by omega, hword,
        hsector]
    · rw [if_neg hi, if_neg (show ¬i / 2 < 256 * n by omega)]
      simp

/-- **A write on the driver** does what a write to the disk does. -/
lemma ends_write (hd : d.Ready) (hs : Stores d disk) (h : Io.Within d.capacity lba n)
    (buf : ℕ → BitVec 8) :
    Ends (diskWrite (.ofNat 32 lba) (.ofNat 32 n) buf) (fun _ s => s.Ready ∧
      s.capacity = d.capacity ∧ Stores s (disk.write lba n buf)) d := by
  obtain ⟨hlba, hn⟩ := toNat_of_within h
  refine (ends_diskWrite hd.waits (serves_of_within h) buf).mono fun _ s hw => ?_
  refine ⟨hw.ready, hw.capacity, fun k hk i hi => ?_⟩
  rw [hw.capacity] at hk
  rw [hw.sector k i hi, hlba, hn]
  change _ = if lba ≤ k ∧ k < lba + n then buf (512 * (k - lba) + i) else disk.sector k i
  split_ifs
  · rfl
  · exact hs k hk i hi

end Ata

/-- **The driver refines the disk.** A function all of whose accesses are within the capacity of the
device returns on the driver, for every timing of the device, with the value and the sectors of its
run on the disk.

**Proof sketch.** Induction on the accesses, with the lemmas for one read and one write. -/
theorem Io.ends_onDriver {α : Type} {d : Device} {disk : Disk} (p : Io α) (hd : d.Ready)
    (hs : Stores d disk) (h : p.Fits d.capacity disk) :
    Ends p.onDriver (fun a s => s.Ready ∧ s.capacity = d.capacity ∧ a = (p.onDisk disk).1 ∧
      Stores s (p.onDisk disk).2) d := by
  induction p generalizing d disk with
  | ret a => exact ends_ret ⟨hd, rfl, rfl, hs⟩
  | read lba n next ih =>
    refine ends_bind ((ends_read hd hs h.1).mono fun words s hr => ?_)
    obtain ⟨hready, hcap, hstores, hbytes⟩ := hr
    rw [hbytes, ← hcap]
    exact ih _ hready hstores (hcap ▸ h.2)
  | write lba n buf next ih =>
    refine ends_bind ((ends_write hd hs h.1 buf).mono fun _ s hw => ?_)
    obtain ⟨hready, hcap, hstores⟩ := hw
    rw [← hcap]
    exact ih hready hstores (hcap ▸ h.2)

/-! ## The functions of `fs.c` as accesses -/

namespace Io

/-- `init_ibmap`, `init_dbmap` and `init_iblock`. -/
def format : Io Unit :=
  write 9 8 (fun _ => 0) (write 17 8 (fun _ => 0) (write iblockOffset 40 (fun _ => 0) (ret ())))

/-- The disk part of `init_fs`, which does not look at the value of `init_disk`. -/
def initFs : Prog Device Unit := .bind initDisk fun _ => format.onDriver

/-- `alloc_inode_num`. -/
def allocInodeNum : Io (Option ℕ) :=
  read 9 8 fun bmap =>
    match Loop.forRange (fun i =>
      Loop.forRange (fun j => Disk.allocBit bmap (8 * i + j)) 0 8) 0 4096 ()
      with
    | .inl k => write 9 8 (Bits.set bmap k) (ret (some k))
    | .inr _ => ret none

/-- `write_inode`. -/
def writeImage (image : Image) (num : ℕ) : Io Unit :=
  read (Disk.inodeSector num) 1 fun buf =>
    write (Disk.inodeSector num) 1 (Disk.putImage num image buf) (ret ())

/-- `read_inode`. -/
def readInode (num : ℕ) : Io Image :=
  read (Disk.inodeSector num) 1 fun buf => ret fun i => buf (num % 8 * 64 + i)

/-- The variables of the loops of `write_inode_data`. -/
structure DataVars where
  dataBmap : ℕ → BitVec 8
  sectorsCount : ℕ
  sector : ℕ → ℕ

/-- The body of the loops of `write_inode_data`. Once there are enough sectors it does nothing,
which is what the loops do after the `break`. -/
def dataBit (sectors : ℕ) (buffer : ℕ → BitVec 8) (k : ℕ) (l : DataVars) : Io DataVars :=
  if sectors ≤ l.sectorsCount then ret l
  else if Bits.get l.dataBmap k = false then
    write (dataOffset + k) 1 (fun i => buffer (512 * l.sectorsCount + i))
      (ret ⟨Bits.set l.dataBmap k, l.sectorsCount + 1, Function.update l.sector l.sectorsCount k⟩)
  else ret l

/-- The accesses of `write_inode_data`. -/
def writeInodeData (inode : Inode) (data : ℕ → BitVec 8) (size : ℕ) : Io Inode :=
  read 17 8 fun bmap =>
    (forRange (dataBit inode.sectors (Disk.dataBuffer data size)) 0 32768
      ⟨bmap, 0, inode.sector⟩).bind
      fun l => write 17 8 l.dataBmap (ret { inode with sector := l.sector })

/-- The accesses of `read_inode_data`. -/
def readInodeData (inode : Inode) (buffer : ℕ → BitVec 8) : Io (ℕ → BitVec 8) :=
  forRange (fun i buffer => read (dataOffset + inode.sector i) 1 fun s =>
    ret fun b => if 512 * i ≤ b ∧ b < 512 * i + 512 then s (b - 512 * i) else buffer b)
    0 inode.sectors buffer

/-- The three formatting functions on the disk. -/
lemma onDisk_format (d : Disk) : format.onDisk d = ((), d.format) := rfl

/-- `alloc_inode_num` on the disk. -/
lemma onDisk_allocInodeNum (d : Disk) : allocInodeNum.onDisk d = d.allocInodeNum := by
  rw [allocInodeNum, onDisk, Disk.allocInodeNum]
  generalize Loop.forRange _ 0 4096 () = found
  cases found with
  | inl k => rfl
  | inr u => rfl

/-- `write_inode` on the disk. -/
lemma onDisk_writeImage (image : Image) (num : ℕ) (d : Disk) :
    (writeImage image num).onDisk d = ((), d.writeImage image num) := rfl

/-- `read_inode` on the disk. -/
lemma onDisk_readInode (num : ℕ) (d : Disk) : (readInode num).onDisk d = d.readInode num := rfl

/-- `read_inode_data` on the disk. -/
lemma onDisk_readInodeData (inode : Inode) (buffer : ℕ → BitVec 8) (d : Disk) :
    (readInodeData inode buffer).onDisk d = Disk.readInodeData inode buffer d :=
  onDisk_forRange _ 0 inode.sectors buffer d

/-- The body of the loops on the disk. -/
lemma onDisk_dataBit (sectors : ℕ) (buffer : ℕ → BitVec 8) (k : ℕ) (l : Disk.DataLoop) :
    ((⟨(if sectors ≤ l.sectorsCount then l else Disk.dataBit buffer k l).dataBmap,
        (if sectors ≤ l.sectorsCount then l else Disk.dataBit buffer k l).sectorsCount,
        (if sectors ≤ l.sectorsCount then l else Disk.dataBit buffer k l).sector⟩ : DataVars),
      (if sectors ≤ l.sectorsCount then l else Disk.dataBit buffer k l).disk) =
    (dataBit sectors buffer k ⟨l.dataBmap, l.sectorsCount, l.sector⟩).onDisk l.disk := by
  unfold dataBit
  by_cases hfull : sectors ≤ l.sectorsCount
  · rw [if_pos hfull, if_pos hfull]
    rfl
  · rw [if_neg hfull, if_neg hfull, Disk.dataBit]
    split_ifs <;> rfl

/-- `write_inode_data` written as accesses. -/
lemma onDisk_writeInodeData (inode : Inode) (data : ℕ → BitVec 8) (size : ℕ) (d : Disk) :
    (writeInodeData inode data size).onDisk d =
      ((d.writeInodeData inode data size).1, (d.writeInodeData inode data size).2.2) := by
  have hloop : ∀ l : Disk.DataLoop,
      ((⟨(Disk.dataLoop inode.sectors (Disk.dataBuffer data size) l).dataBmap,
          (Disk.dataLoop inode.sectors (Disk.dataBuffer data size) l).sectorsCount,
          (Disk.dataLoop inode.sectors (Disk.dataBuffer data size) l).sector⟩ : DataVars),
        (Disk.dataLoop inode.sectors (Disk.dataBuffer data size) l).disk) =
      Loop.forEach (fun k s => (dataBit inode.sectors (Disk.dataBuffer data size) k s.1).onDisk s.2)
        0 32768 (⟨l.dataBmap, l.sectorsCount, l.sector⟩, l.disk) := by
    intro l
    rw [Disk.dataLoop_eq]
    exact Loop.forEach_proj
      (fun l : Disk.DataLoop => ((⟨l.dataBmap, l.sectorsCount, l.sector⟩ : DataVars), l.disk))
      (onDisk_dataBit inode.sectors (Disk.dataBuffer data size)) 0 32768 l
  rw [writeInodeData, onDisk, onDisk_bind, onDisk_forRange,
    ← hloop ⟨(d.read 17 8).1, 0, inode.sector, [], (d.read 17 8).2⟩, Disk.writeInodeData,
    Disk.writeSectors]
  generalize Disk.dataLoop _ _ _ = l
  rfl

/-! ## The accesses are within the capacity -/

section Fitting

variable {capacity : ℕ} (hcap : dataOffset + 32768 ≤ capacity) (d : Disk)

include hcap

/-- An access to one of the first sectors. -/
lemma within_of_le {lba n : ℕ} (h₁ : 1 ≤ n) (h₂ : n ≤ 256) (h : lba + n ≤ dataOffset + 32768) :
    Within capacity lba n := by
  unfold dataOffset at h hcap
  exact ⟨h₁, h₂, by omega, by omega⟩

/-- Formatting stays on the device. -/
lemma fits_format : format.Fits capacity d :=
  ⟨within_of_le hcap (by omega) (by omega) (by decide),
    within_of_le hcap (by omega) (by omega) (by decide),
    within_of_le hcap (by omega) (by omega) (by decide), trivial⟩

/-- `alloc_inode_num` stays on the device. -/
lemma fits_allocInodeNum : allocInodeNum.Fits capacity d := by
  refine ⟨within_of_le hcap (by omega) (by omega) (by decide), ?_⟩
  dsimp only
  split
  · exact ⟨within_of_le hcap (by omega) (by omega) (by decide), trivial⟩
  · trivial

/-- The sector of one of the inodes. -/
lemma within_inodeSector {num : ℕ} (h : num < 320) : Within capacity (Disk.inodeSector num) 1 := by
  refine within_of_le hcap (by omega) (by omega) ?_
  unfold Disk.inodeSector iblockOffset dataOffset
  omega

/-- `write_inode` stays on the device. -/
lemma fits_writeImage {num : ℕ} (h : num < 320) (image : Image) :
    (writeImage image num).Fits capacity d :=
  ⟨within_inodeSector hcap h, within_inodeSector hcap h, trivial⟩

/-- `read_inode` stays on the device. -/
lemma fits_readInode {num : ℕ} (h : num < 320) : (readInode num).Fits capacity d :=
  ⟨within_inodeSector hcap h, trivial⟩

/-- `write_inode_data` stays on the device. -/
lemma fits_writeInodeData (inode : Inode) (data : ℕ → BitVec 8) (size : ℕ) :
    (writeInodeData inode data size).Fits capacity d := by
  refine ⟨within_of_le hcap (by omega) (by omega) (by decide), fits_bind ?_ ?_⟩
  · refine fits_forRange (fun k l d _ hk => ?_) _ _
    unfold dataBit
    split_ifs
    · trivial
    · exact ⟨within_of_le hcap (by omega) (by omega) (by omega), trivial⟩
    · trivial
  · exact ⟨within_of_le hcap (by omega) (by omega) (by decide), trivial⟩

/-- `read_inode_data` stays on the device, if the sectors of the file do. -/
lemma fits_readInodeData {inode : Inode} (h : ∀ i < inode.sectors, inode.sector i < 32768)
    (buffer : ℕ → BitVec 8) : (readInodeData inode buffer).Fits capacity d := by
  unfold readInodeData
  refine fits_forRange (fun i buffer d _ hi => ?_) _ _
  have hlt := h i (by omega)
  exact ⟨within_of_le hcap (by omega) (by omega) (by omega), trivial⟩

end Fitting

end Io

end AlphaOS
