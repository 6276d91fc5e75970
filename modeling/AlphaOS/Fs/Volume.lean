import AlphaOS.Fs.Driver
import AlphaOS.Fs.Buffers

set_option relaxedAutoImplicit false
set_option autoImplicit false

/-!
# Files by their numbers

How the functions of `fs.c` work together, as the end of `init_fs` shows it: a number is taken with
`alloc_inode_num`, the data are written with `write_inode_data`, which fills in the sector table of
an inode in memory, and the inode is written under the number with `write_inode`. A file is found
again with `read_inode` and `read_inode_data`. The three kinds of calls may come in any order and
for any number of files at a time.

## Main definitions

* `AlphaOS.Inode.ofImage` — an inode as the program reads it from its bytes.
* `AlphaOS.Volume` — the disk, the inodes in memory and the files linked to numbers.
* `AlphaOS.Volume.Sound` — every number has the bytes of its file's inode, and every file its
  sectors.
* `AlphaOS.DeviceVolume` — the same with the driver and a device in the place of the disk, and the
  kernel heap for the buffers.
* `AlphaOS.DeviceVolume.Proper` — the guard: no file of three or four sectors, and no other call of
  the heap that spoils it.

## Main results

* `AlphaOS.Inode.ofImage_image` — an inode comes back from its bytes.
* `AlphaOS.Volume.sound_of_reach` — the invariant of every run.
* `AlphaOS.DeviceVolume.files_read_back` — **every file is found again through the driver**, for
  every order of the calls and every timing of the device.
-/

namespace AlphaOS

namespace Inode

/-- The byte `i` of an inode in memory. -/
def byteAt (image : Image) (i : ℕ) : ℕ := if h : i < 64 then (image ⟨i, h⟩).toNat else 0

/-- A `uint16_t` in memory. -/
def half (image : Image) (i : ℕ) : ℕ := byteAt image i + 256 * byteAt image (i + 1)

/-- The inode with the given bytes. -/
def ofImage (image : Image) : Inode where
  type := BitVec.ofNat 8 (byteAt image 0)
  size := half image 2
  sectors := half image 4
  sector k := half image (8 + 4 * k) + 65536 * half image (10 + 4 * k)

variable {n : Inode}

/-- A byte of the inode. -/
lemma byteAt_image {i : ℕ} (hi : i < 64) : byteAt n.image i = (n.bytes i).toNat := dif_pos hi

/-- A byte of a number. -/
lemma toNat_byteOf (x i : ℕ) : (byteOf x i).toNat = x / 256 ^ i % 256 := BitVec.toNat_ofNat _ _

/-- The size is found in the image. -/
lemma half_size (h : n.size < 2 ^ 16) : half n.image 2 = n.size := by
  have h₂ : n.bytes 2 = byteOf n.size 0 := rfl
  have h₃ : n.bytes 3 = byteOf n.size 1 := rfl
  rw [half, byteAt_image (by omega), byteAt_image (by omega), h₂, h₃, toNat_byteOf, toNat_byteOf]
  omega

/-- The number of sectors is found in the image. -/
lemma half_sectors (h : n.sectors < 2 ^ 16) : half n.image 4 = n.sectors := by
  have h₄ : n.bytes 4 = byteOf n.sectors 0 := rfl
  have h₅ : n.bytes 5 = byteOf n.sectors 1 := rfl
  rw [half, byteAt_image (by omega), byteAt_image (by omega), h₄, h₅, toNat_byteOf, toNat_byteOf]
  omega

/-- A byte of the sector table. -/
lemma bytes_sector {k j : ℕ} (hj : j < 4) : n.bytes (8 + 4 * k + j) = byteOf (n.sector k) j := by
  unfold bytes
  rw [if_neg (by omega), if_neg (by omega), if_neg (by omega), if_neg (by omega), if_neg (by omega)]
  rw [show (8 + 4 * k + j - 8) / 4 = k by omega, show (8 + 4 * k + j - 8) % 4 = j by omega]

/-- **An inode comes back from its bytes**, as far as its fields have values of their types. -/
theorem ofImage_image (hsize : n.size < 2 ^ 16) (hsectors : n.sectors < 2 ^ 16) :
    (ofImage n.image).type = n.type ∧ (ofImage n.image).size = n.size ∧
      (ofImage n.image).sectors = n.sectors ∧
      ∀ k < 14, n.sector k < 2 ^ 32 → (ofImage n.image).sector k = n.sector k := by
  refine ⟨?_, half_size hsize, half_sectors hsectors, fun k hk hlt => ?_⟩
  · change BitVec.ofNat 8 (byteAt n.image 0) = n.type
    rw [byteAt_image (by omega)]
    exact (BitVec.ofNat_toNat 8 n.type).trans (BitVec.setWidth_eq n.type)
  · change half n.image (8 + 4 * k) + 65536 * half n.image (10 + 4 * k) = n.sector k
    rw [half, half, byteAt_image (by omega), byteAt_image (by omega), byteAt_image (by omega),
      byteAt_image (by omega)]
    rw [← Nat.add_zero (8 + 4 * k), Nat.add_zero (8 + 4 * k + 0), bytes_sector (by omega),
      show 8 + 4 * k + 0 + 1 = 8 + 4 * k + 1 by omega, bytes_sector (by omega),
      show 10 + 4 * k = 8 + 4 * k + 2 by omega, bytes_sector (by omega),
      show 8 + 4 * k + 2 + 1 = 8 + 4 * k + 3 by omega, bytes_sector (by omega)]
    simp only [toNat_byteOf]
    omega

end Inode

/-! ## The regions of the disk -/

namespace Disk

variable {d d' : Disk} {file : Inode} {data : ℕ → BitVec 8} {size : ℕ}

/-- `alloc_inode_num` writes the inode bitmap only. -/
lemma sector_allocInodeNum {s : ℕ} (hs : 17 ≤ s) : d.allocInodeNum.2.sector s = d.sector s := by
  rcases d.allocInodeNum_cases with ⟨k, -, -, -, heq⟩ | ⟨-, heq⟩
  · rw [heq]
    funext i
    exact if_neg (by omega)
  · rw [heq]
    rfl

/-- An inode with the same table in use reads the same. -/
lemma ReadsBack.congr {file' : Inode} (h : d.ReadsBack file data size)
    (hsectors : file'.sectors = file.sectors)
    (htable : ∀ i < file.sectors, file'.sector i = file.sector i) :
    d.ReadsBack file' data size := by
  intro buffer b hb
  have hb' : b < 512 * file.sectors := hsectors ▸ hb
  rw [← h buffer b hb', readInodeData_eq _ _ _ hb, readInodeData_eq _ _ _ hb',
    htable _ (Nat.div_lt_of_lt_mul hb')]

end Disk

/-! ## Volumes -/

/-- The disk with the inodes that `write_inode_data` has filled in, the numbers handed out, and the
file linked to each number. -/
structure Volume where
  archive : Archive
  allocated : List ℕ
  files : ℕ → Option StoredFile

namespace Volume

open Disk

/-- A call: take a number, write the data of an inode, or write one of the inodes under a number. -/
inductive Call
  | alloc
  | writeData (c : Archive.Call)
  | link (file : StoredFile) (num : ℕ)

/-- There is room for the data, and the fields of the inode have values of their types; an inode is
written that has its data, under a number that was handed out and that the inode blocks have room
for. -/
def Enabled (v : Volume) : Call → Prop
  | .alloc => True
  | .writeData c => v.archive.disk.Fits c.inode c.size ∧ c.inode.size < 2 ^ 16
  | .link file num => file ∈ v.archive.files ∧ num ∈ v.allocated ∧ num < 320

/-- What a call does. -/
def exec (v : Volume) : Call → Volume
  | .alloc =>
    { v with
      archive := { v.archive with disk := v.archive.disk.allocInodeNum.2 }
      allocated := v.archive.disk.allocInodeNum.1.toList ++ v.allocated }
  | .writeData c => { v with archive := v.archive.exec c }
  | .link file num =>
    { v with
      archive := { v.archive with disk := v.archive.disk.writeImage file.inode.image num }
      files := Function.update v.files num (some file) }

/-- An enabled call. -/
def Step (v : Volume) (c : Call) (v' : Volume) : Prop := v.Enabled c ∧ v' = v.exec c

/-- After formatting. -/
def Init (v : Volume) : Prop :=
  (∃ d, v.archive.disk = Disk.format d) ∧ v.archive.files = [] ∧ v.allocated = [] ∧
    v.files = fun _ => none

/-- **The invariant.** The inodes in memory have their data; a number linked to a file has the bytes
of its inode. -/
structure Sound (v : Volume) : Prop where
  intact : v.archive.Intact
  sized : ∀ f ∈ v.archive.files, f.inode.size < 2 ^ 16 ∧ f.inode.sectors ≤ 14
  linked : ∀ num f, v.files num = some f →
    num < 320 ∧ f ∈ v.archive.files ∧ v.archive.disk.slot num = f.inode.image

variable {v : Volume}

/-- The invariant after a change of the disk that leaves the data and the slots of the files alone.
-/
lemma Sound.congr {d : Disk} (h : v.Sound) (hdata : SameData v.archive.disk d)
    (hslot : ∀ num < 320, d.slot num = v.archive.disk.slot num) (allocated : List ℕ) :
    Sound ⟨⟨d, v.archive.files⟩, allocated, v.files⟩ := by
  refine ⟨fun f hf => ?_, h.sized, fun num f hf => ?_⟩
  · exact ⟨hdata.holds (h.intact f hf).1, hdata.readsBack (h.intact f hf).2⟩
  · obtain ⟨hnum, hmem, hslot'⟩ := h.linked num f hf
    exact ⟨hnum, hmem, (hslot num hnum).trans hslot'⟩

/-- The sector of an inode lies between the bitmaps and the data. -/
lemma inodeSector_lt {num : ℕ} (h : num < 320) :
    25 ≤ inodeSector num ∧ inodeSector num < dataOffset := by
  unfold inodeSector iblockOffset dataOffset
  omega

/-- **Every call keeps the invariant.** -/
lemma Sound.exec (h : v.Sound) {c : Call} (hen : v.Enabled c) : (v.exec c).Sound := by
  cases c with
  | alloc =>
    refine h.congr (d := v.archive.disk.allocInodeNum.2) (fun s hs => ?_) (fun num hnum => ?_) _
    · have hs' : 17 ≤ s := by
        unfold dataOffset at hs
        omega
      exact sector_allocInodeNum hs'
    · have hsec := inodeSector_lt hnum
      funext i
      exact congrFun (sector_allocInodeNum (by omega)) _
  | writeData c =>
    have hw : Written v.archive.disk c.inode c.data c.size _ _ := written_writeInodeData _ hen.1
    refine ⟨h.intact.exec hen.1, fun f hf => ?_, fun num f hf => ?_⟩
    · rcases List.mem_cons.mp hf with rfl | hf
      · obtain ⟨-, hsize, hsectors⟩ := hw.fields
        exact ⟨hsize.trans_lt hen.2, hsectors.trans_le hen.1.table⟩
      · exact h.sized f hf
    · obtain ⟨hnum, hmem, hslot⟩ := h.linked num f hf
      refine ⟨hnum, List.mem_cons_of_mem _ hmem, ?_⟩
      have hsec := inodeSector_lt hnum
      rw [← hslot]
      funext i
      refine congrFun (hw.frame _ (by omega) fun j _ => ?_) _
      omega
  | link file num =>
    obtain ⟨hfile, -, hnum⟩ := hen
    have hsec := inodeSector_lt hnum
    have hdata : SameData v.archive.disk (v.archive.disk.writeImage file.inode.image num) := by
      intro s hs
      rw [sector_writeImage, if_neg (by omega)]
    refine ⟨fun f hf => ?_, h.sized, fun m f hf => ?_⟩
    · exact ⟨hdata.holds (h.intact f hf).1, hdata.readsBack (h.intact f hf).2⟩
    · change Function.update v.files num (some file) m = some f at hf
      change m < 320 ∧ f ∈ v.archive.files ∧
        (v.archive.disk.writeImage file.inode.image num).slot m = f.inode.image
      rw [slot_writeImage]
      by_cases hm : m = num
      · subst hm
        rw [Function.update_self] at hf ⊢
        cases hf
        exact ⟨hnum, hfile, rfl⟩
      · rw [Function.update_of_ne hm] at hf ⊢
        exact h.linked m f hf

/-- **The invariant of every run.** -/
lemma sound_of_reach (h : Transition.Reach Init Step (fun _ _ => True) v) : v.Sound := by
  refine h.invariant (I := Sound) (fun v hi => ?_) fun v c v' hv _ hs => ?_
  · obtain ⟨-, hfiles, -, hlinks⟩ := hi
    refine ⟨fun f hf => ?_, fun f hf => ?_, fun num f hf => ?_⟩
    · rw [hfiles] at hf
      exact absurd hf List.not_mem_nil
    · rw [hfiles] at hf
      exact absurd hf List.not_mem_nil
    · rw [hlinks] at hf
      exact absurd hf nofun
  · rw [hs.2]
    exact hv.exec hs.1

/-- **A file is found under its number**: the inode read back has the type and the size of the file,
its sectors lie in the data, and the data read with it are those of the file. -/
lemma Sound.found (h : v.Sound) {num : ℕ} {f : StoredFile} (hf : v.files num = some f) :
    (Inode.ofImage (v.archive.disk.readInode num).1).type = f.inode.type ∧
      (Inode.ofImage (v.archive.disk.readInode num).1).size = f.inode.size ∧
      (Inode.ofImage (v.archive.disk.readInode num).1).sectors = f.inode.sectors ∧
      (∀ i < f.inode.sectors, (Inode.ofImage (v.archive.disk.readInode num).1).sector i < 32768) ∧
      v.archive.disk.ReadsBack (Inode.ofImage (v.archive.disk.readInode num).1) f.data f.size := by
  obtain ⟨-, hmem, hslot⟩ := h.linked num f hf
  obtain ⟨hsize, h14⟩ := h.sized f hmem
  obtain ⟨hholds, hread⟩ := h.intact f hmem
  rw [readInode_eq_slot, hslot]
  obtain ⟨htype, hsz, hsec, htable⟩ :=
    Inode.ofImage_image hsize (show f.inode.sectors < 2 ^ 16 by omega)
  have hentry : ∀ i < f.inode.sectors, (Inode.ofImage f.inode.image).sector i = f.inode.sector i :=
    fun i hi => htable i (by omega) ((hholds i hi).1.trans (by decide))
  refine ⟨htype, hsz, hsec, fun i hi => ?_, hread.congr hsec hentry⟩
  rw [hentry i hi]
  exact (hholds i hi).1

end Volume

/-! ## Volumes on the driver -/

open Bounded Ata

/-- What the kernel knows about the files: the inodes that have their data, the numbers handed out,
and the file linked to each number. -/
structure Catalog where
  memory : List StoredFile
  allocated : List ℕ
  files : ℕ → Option StoredFile

/-- The catalog of a volume. -/
def Volume.catalog (v : Volume) : Catalog := ⟨v.archive.files, v.allocated, v.files⟩

/-- A call as the accesses it makes, with the change of the catalog it comes to. -/
def Volume.Call.io : Volume.Call → Io (Catalog → Catalog)
  | .alloc => Io.allocInodeNum.bind fun r =>
      .ret fun c => { c with allocated := r.toList ++ c.allocated }
  | .writeData a => (Io.writeInodeData a.inode a.data a.size).bind fun inode =>
      .ret fun c => { c with memory := ⟨inode, a.data, a.size⟩ :: c.memory }
  | .link file num => (Io.writeImage file.inode.image num).bind fun _ =>
      .ret fun c => { c with files := Function.update c.files num (some file) }

/-- What a call does to the heap: `write_inode_data` takes a buffer and gives it back. -/
def Volume.Call.onHeap (k : KernelHeap) : Volume.Call → Option KernelHeap
  | .writeData a => k.lend (512 * a.inode.sectors)
  | _ => some k

/-- The device with the catalog and the heap. -/
structure DeviceVolume where
  device : Device
  catalog : Catalog
  heap : KernelHeap

namespace DeviceVolume

variable {v v' : DeviceVolume} {w : Volume}

/-- The sectors of the device as a disk. -/
def disk (v : DeviceVolume) : Disk := ⟨v.device.sector, []⟩

/-- A call for a file, or a call of the heap from another part of the kernel. -/
inductive Call
  | file (c : Volume.Call)
  | heap (c : KernelHeap.Call)

/-- The conditions of `Volume.Enabled`, for the sectors of the device. -/
def FileEnabled (v : DeviceVolume) : Volume.Call → Prop :=
  Volume.Enabled ⟨⟨v.disk, v.catalog.memory⟩, v.catalog.allocated, v.catalog.files⟩

/-- For a call that writes data there are also heap pages and frames for the buffer. -/
def Enabled (v : DeviceVolume) : Call → Prop
  | .file c => v.FileEnabled c ∧
      ∀ a, c = .writeData a → v.heap.Enabled (.kmalloc (512 * a.inode.sectors))
  | .heap c => v.heap.Enabled c

/-- A file that is written has neither three nor four sectors, and another call of the heap asks for
no object of the last class and writes no entry into a live object. -/
def Proper (v : DeviceVolume) : Call → Prop
  | .file c => ∀ a, c = .writeData a → a.inode.sectors ≠ 3 ∧ a.inode.sectors ≠ 4
  | .heap c => v.heap.Tame c

/-- A call on the driver. -/
def Step (v : DeviceVolume) (call : Call) (v' : DeviceVolume) : Prop :=
  v.Enabled call ∧ match call with
    | .file c => ∃ g s k, Returns c.io.onDriver v.device g s ∧ c.onHeap v.heap = some k ∧
        v' = ⟨s, g v.catalog, k⟩
    | .heap c => ∃ k, v.heap.exec c = some k ∧ v' = { v with heap := k }

/-- After the disk part of `init_fs`, on a device that waited for a command and has room for the
data. The kernel has used its heap before, also for the buffer of `init_iblock`. -/
def Init (v : DeviceVolume) : Prop :=
  (∃ d : Device, d.Ready ∧ d.busy = 0 ∧ dataOffset + 32768 ≤ d.capacity ∧
    Returns Io.initFs d () v.device) ∧
  v.catalog = ⟨[], [], fun _ => none⟩ ∧ KernelHeap.TameReach v.heap

/-- The device holds the sectors of the volume's disk, and waits for a command. -/
structure Refines (v : DeviceVolume) (w : Volume) : Prop where
  ready : v.device.Ready
  capacity : dataOffset + 32768 ≤ v.device.capacity
  stores : Stores v.device w.archive.disk
  catalog : v.catalog = w.catalog

/-- The data bitmap of the device. -/
lemma Refines.dataBitmap (h : Refines v w) : v.disk.dataBitmap = w.archive.disk.dataBitmap := by
  have hcap := h.capacity
  unfold dataOffset at hcap
  funext i
  change (if i < 512 * 8 then v.device.sector (17 + i / 512) (i % 512) else 0) =
    if i < 512 * 8 then w.archive.disk.sector (17 + i / 512) (i % 512) else 0
  by_cases hi : i < 512 * 8
  · rw [if_pos hi, if_pos hi, h.stores _ (by omega) _ (by omega)]
  · rw [if_neg hi, if_neg hi]

/-- The same calls are enabled. -/
lemma Refines.enabled (h : Refines v w) {c : Volume.Call} (hen : v.FileEnabled c) :
    w.Enabled c := by
  have hcat := h.catalog
  rw [Volume.catalog] at hcat
  cases c with
  | alloc => trivial
  | writeData a =>
    obtain ⟨hfits, hsize⟩ := hen
    refine ⟨⟨hfits.table, hfits.data, ?_⟩, hsize⟩
    rw [← h.dataBitmap]
    exact hfits.clear
  | link file num =>
    obtain ⟨hfile, hnum, hlt⟩ := hen
    refine ⟨?_, ?_, hlt⟩
    · rw [hcat] at hfile
      exact hfile
    · rw [hcat] at hnum
      exact hnum

/-- A call on the disk of a volume. -/
lemma onDisk_io (w : Volume) (c : Volume.Call) :
    ((c.io.onDisk w.archive.disk).1 w.catalog) = (w.exec c).catalog ∧
      (c.io.onDisk w.archive.disk).2 = (w.exec c).archive.disk := by
  cases c with
  | alloc =>
    rw [Volume.Call.io, Io.onDisk_bind, Io.onDisk_allocInodeNum]
    exact ⟨rfl, rfl⟩
  | writeData a =>
    rw [Volume.Call.io, Io.onDisk_bind, Io.onDisk_writeInodeData]
    exact ⟨rfl, rfl⟩
  | link file num =>
    rw [Volume.Call.io, Io.onDisk_bind, Io.onDisk_writeImage]
    exact ⟨rfl, rfl⟩

/-- The accesses of an enabled call are within the capacity. -/
lemma fits_io {capacity : ℕ} (hcap : dataOffset + 32768 ≤ capacity) {c : Volume.Call}
    (hen : w.Enabled c) (d : Disk) : c.io.Fits capacity d := by
  cases c with
  | alloc => exact Io.fits_bind (Io.fits_allocInodeNum hcap d) trivial
  | writeData a => exact Io.fits_bind (Io.fits_writeInodeData hcap d a.inode a.data a.size) trivial
  | link file num => exact Io.fits_bind (Io.fits_writeImage hcap d hen.2.2 file.inode.image) trivial

/-- **A call on the driver** does what the call on the disk does. -/
lemma Refines.ends (h : Refines v w) {c : Volume.Call} (hen : w.Enabled c) :
    Ends c.io.onDriver (fun g s => ∀ k, Refines ⟨s, g v.catalog, k⟩ (w.exec c)) v.device := by
  have hends := Io.ends_onDriver c.io h.ready h.stores (fits_io h.capacity hen w.archive.disk)
  refine hends.mono fun g s hs => ?_
  obtain ⟨hready, hcap, rfl, hstores⟩ := hs
  obtain ⟨hcatalog, hdisk⟩ := onDisk_io w c
  rw [hdisk] at hstores
  exact fun k => ⟨hready, h.capacity.trans_eq hcap.symm, hstores, (h.catalog ▸ hcatalog :)⟩

/-- The disk part of `init_fs` on a device that waits for a command. -/
lemma ends_initFs {d : Device} (hready : d.Ready) (hbusy : d.busy = 0)
    (hcap : dataOffset + 32768 ≤ d.capacity) :
    Ends Io.initFs (fun _ s => s.Ready ∧
      dataOffset + 32768 ≤ s.capacity ∧ Stores s (Disk.format ⟨d.sector, []⟩)) d := by
  refine ends_bind ((ends_initDisk hready hbusy).mono fun _ s hs => ?_)
  obtain ⟨-, hsready, hscap, -, hssec⟩ := hs
  have hcap' : dataOffset + 32768 ≤ s.capacity := hcap.trans_eq hscap.symm
  have hstores : Stores s ⟨d.sector, []⟩ := fun k _ i _ => congrFun (congrFun hssec k) i
  refine (Io.ends_onDriver Io.format hsready hstores (Io.fits_format hcap' _)).mono fun _ t ht => ?_
  obtain ⟨htready, htcap, -, htstores⟩ := ht
  rw [Io.onDisk_format] at htstores
  exact ⟨htready, hcap'.trans_eq htcap.symm, htstores⟩

/-- After `init_fs` the device holds a formatted disk. -/
lemma refines_of_init (h : v.Init) : ∃ w, w.Init ∧ Refines v w := by
  obtain ⟨⟨d, hready, hbusy, hcap, hret⟩, hcatalog, -⟩ := h
  obtain ⟨hvready, hvcap, hvstores⟩ := hret.post (ends_initFs hready hbusy hcap)
  exact ⟨⟨⟨Disk.format ⟨d.sector, []⟩, []⟩, [], fun _ => none⟩, ⟨⟨_, rfl⟩, rfl, rfl, rfl⟩,
    ⟨hvready, hvcap, hvstores, hcatalog⟩⟩

/-- **The invariant of every run**: the device holds the sectors of a volume, the heap is in order,
and no file has three or four sectors. -/
structure Refined (v : DeviceVolume) (w : Volume) : Prop where
  reach : Transition.Reach Volume.Init Volume.Step (fun _ _ => True) w
  refines : Refines v w
  heap : KernelHeap.TameReach v.heap
  files : ∀ f ∈ w.archive.files, FileSystem.Manageable f.inode

/-- The files after a call. -/
lemma Refined.files_exec (h : Refined v w) {c : Volume.Call} (hen : w.Enabled c)
    (hproper : v.Proper (.file c)) :
      ∀ f ∈ (w.exec c).archive.files, FileSystem.Manageable f.inode := by
  cases c with
  | alloc => exact h.files
  | link file num => exact h.files
  | writeData a =>
    intro f hf
    rcases List.mem_cons.mp hf with rfl | hf
    · obtain ⟨h₃, h₄⟩ := hproper a rfl
      have hwritten := Disk.written_writeInodeData a.data hen.1
      exact FileSystem.Manageable.of_written ⟨hen.1.table, h₃, h₄⟩ hwritten
    · exact h.files f hf

/-- The heap after a call. -/
lemma Refined.onHeap (h : Refined v w) {c : Volume.Call} (hen : v.Enabled (.file c))
    (hproper : v.Proper (.file c)) : ∃ k, c.onHeap v.heap = some k ∧ KernelHeap.TameReach k := by
  cases c with
  | alloc => exact ⟨_, rfl, h.heap⟩
  | link file num => exact ⟨_, rfl, h.heap⟩
  | writeData a =>
    obtain ⟨h₃, h₄⟩ := hproper a rfl
    have hman : FileSystem.Manageable a.inode := ⟨hen.1.1.table, h₃, h₄⟩
    obtain ⟨p, k₁, k₂, -, hs, hlent⟩ := KernelHeap.lent h.heap (hen.2 a rfl) hman.notLast hman.lt
    exact ⟨k₂, hs, hlent.returned⟩

/-- **A call on the driver returns**, when the heap has its buffer. -/
lemma Refines.step (h : Refines v w) {c : Volume.Call} (hen : v.Enabled (.file c)) {k : KernelHeap}
    (hk : c.onHeap v.heap = some k) :
    ∃ v', Step v (.file c) v' ∧ v'.heap = k ∧ Refines v' (w.exec c) := by
  obtain ⟨g, s, hret, hrefines⟩ := (h.ends (h.enabled hen.1)).returns
  exact ⟨⟨s, g v.catalog, k⟩, ⟨hen, g, s, k, hret, hk, rfl⟩, rfl, hrefines k⟩

/-- **An enabled call that meets the guard returns**, and keeps the invariant. -/
lemma Refined.step (h : Refined v w) {call : Call} (hen : v.Enabled call)
    (hproper : v.Proper call) :
    ∃ v', Step v call v' := by
  cases call with
  | file c =>
    obtain ⟨k, hk, -⟩ := h.onHeap hen hproper
    obtain ⟨v', hs, -⟩ := h.refines.step hen hk
    exact ⟨v', hs⟩
  | heap c =>
    obtain ⟨k, hk, -⟩ := KernelHeap.tame_returns h.heap hen hproper
    exact ⟨_, hen, k, hk, rfl⟩

/-- A step keeps the invariant. -/
lemma Refined.next (h : Refined v w) {call : Call} (hproper : v.Proper call) (hs : Step v call v') :
    ∃ w', Refined v' w' := by
  obtain ⟨hen, hs⟩ := hs
  cases call with
  | file c =>
    obtain ⟨g, s, k, hret, hk, rfl⟩ := hs
    have hwen := h.refines.enabled hen.1
    obtain ⟨k', hk', hreach⟩ := h.onHeap hen hproper
    obtain rfl := Option.some.inj (hk.symm.trans hk')
    exact ⟨w.exec c, h.reach.next trivial ⟨hwen, rfl⟩, hret.post (h.refines.ends hwen) k, hreach,
      h.files_exec hwen hproper⟩
  | heap c =>
    obtain ⟨k, hk, rfl⟩ := hs
    obtain ⟨k', hk', hreach⟩ := KernelHeap.tame_returns h.heap hen hproper
    obtain rfl := Option.some.inj (hk.symm.trans hk')
    exact ⟨w, h.reach, ⟨h.refines.ready, h.refines.capacity, h.refines.stores, h.refines.catalog⟩,
      hreach,
      h.files⟩

/-- Every run on the driver is a run on the disk. -/
lemma refined_of_reach (h : Transition.Reach Init Step Proper v) : ∃ w, Refined v w := by
  induction h with
  | start h =>
    obtain ⟨w, hw, href⟩ := refines_of_init h
    refine ⟨w, .start hw, href, h.2.2, fun f hf => ?_⟩
    rw [hw.2.1] at hf
    exact absurd hf List.not_mem_nil
  | next _ hproper hs ih =>
    obtain ⟨w, hw⟩ := ih
    exact hw.next hproper hs

/-- Look up a file: `read_inode`, then `read_inode_data` into a buffer. -/
def lookup (num : ℕ) (buffer : ℕ → BitVec 8) : Io (Inode × (ℕ → BitVec 8)) :=
  (Io.readInode num).bind fun image =>
    (Io.readInodeData (Inode.ofImage image) buffer).bind fun data =>
      .ret (Inode.ofImage image, data)

/-- **A look-up** on the driver. -/
lemma Refines.ends_lookup (h : Refines v w) (hsound : w.Sound) {num : ℕ} {f : StoredFile}
    (hfile : w.files num = some f) (buffer : ℕ → BitVec 8) :
    Ends (lookup num buffer).onDriver (fun r _ => r.1.type = f.inode.type ∧
      r.1.size = f.inode.size ∧ r.1.sectors = f.inode.sectors ∧
      ∀ b < 512 * f.inode.sectors, r.2 b = Disk.dataBuffer f.data f.size b) v.device := by
  obtain ⟨htype, hsize, hsectors, hlt, hread⟩ := hsound.found hfile
  have hfits : (lookup num buffer).Fits v.device.capacity w.archive.disk := by
    refine Io.fits_bind (Io.fits_readInode h.capacity _ (hsound.linked num f hfile).1) ?_
    rw [Io.onDisk_readInode]
    refine Io.fits_bind (Io.fits_readInodeData h.capacity _ (fun i hi => ?_) buffer) trivial
    exact hlt i (hi.trans_eq hsectors)
  refine (Io.ends_onDriver _ h.ready h.stores hfits).mono fun r s hr => ?_
  obtain ⟨-, -, rfl, -⟩ := hr
  rw [lookup, Io.onDisk_bind, Io.onDisk_readInode, Io.onDisk_bind, Io.onDisk_readInodeData]
  have hsame : Disk.SameData w.archive.disk (w.archive.disk.readInode num).2 := fun _ _ => rfl
  refine ⟨htype, hsize, hsectors, fun b hb => ?_⟩
  exact hsame.readsBack hread buffer b (hb.trans_eq (congrArg _ hsectors.symm))

/-- **Every file is found again through the driver.** In every run of `alloc_inode_num`,
`write_inode_data` and `write_inode` after `init_fs` on a device with room for the data, for every
timing of the device, in which no file has three or four sectors and other calls of the heap ask for
no object of the last class and write no entry into a live object: every call of this kind that is
enabled returns; and for every number `read_inode` and `read_inode_data` return the type, the size
and the data of the file linked to it last, with zeros behind the data, if there are heap pages and
frames for the buffer.

**Proof sketch.** A run on the driver is a run on the disk (`refined_of_reach`), where the number
has the bytes of the inode and the inode has its data (`Volume.Sound.found`); the accesses of the
look-up are within the capacity, so it gives on the driver what it gives on the disk. The buffers
are lent by the heap (`KernelHeap.lent`). -/
theorem files_read_back (h : Transition.Reach Init Step Proper v) :
    (∀ call, v.Enabled call → v.Proper call → ∃ v', Step v call v') ∧
      ∀ num f, v.catalog.files num = some f → v.heap.Enabled (.kmalloc (512 * f.inode.sectors)) →
        (∃ p k, v.heap.allot (512 * f.inode.sectors) = some (p, k)) ∧
        ∀ buffer, Ends (lookup num buffer).onDriver (fun r _ => r.1.type = f.inode.type ∧
          r.1.size = f.inode.size ∧ r.1.sectors = f.inode.sectors ∧
          ∀ b < 512 * f.inode.sectors, r.2 b = Disk.dataBuffer f.data f.size b) v.device := by
  obtain ⟨w, hw⟩ := refined_of_reach h
  refine ⟨fun call hen hproper => hw.step hen hproper, fun num f hf hroom => ?_⟩
  have hsound := Volume.sound_of_reach hw.reach
  have hfile : w.files num = some f := by
    rw [hw.refines.catalog] at hf
    exact hf
  have hman := hw.files f (hsound.linked num f hfile).2.1
  obtain ⟨p, k₁, k₂, hs, -, -⟩ := KernelHeap.lent hw.heap hroom hman.notLast hman.lt
  exact ⟨⟨p, k₁, hs⟩, fun buffer => hw.refines.ends_lookup hsound hfile buffer⟩

/-! ## A file on a device -/

/-- A device of `40000` clear sectors, which is busy for a while after every command and every
sector. -/
def blank : Device where
  present := true
  capacity := 40000
  late := true
  sector _ _ := 0
  flushed _ _ := 0
  ident _ := 0
  drive := 0
  count := 0
  lbaLo := 0
  lbaMid := 0
  lbaHi := 0
  phase := .idle
  buffer _ := 0
  busy := 0
  delay k := k % 3 + 1
  periods := 0
  noise _ := 0xFF
  polls := 0
  ignored := []

/-- The bit of a clear bitmap. -/
lemma get_format (d : Disk) {k : ℕ} (hk : k < 32768) :
    Bits.get (d.format.read 9 8).1 k = false ∧ Bits.get d.format.dataBitmap k = false := by
  have hinodes : (d.format.read 9 8).1 = ((d.write 9 8 fun _ => 0).read 9 8).1 := by
    rw [Disk.format, Disk.read_write_of_disjoint (.inl (by decide)),
      Disk.read_write_of_disjoint (.inl (by decide))]
  have hdata :
      d.format.dataBitmap = (((d.write 9 8 fun _ => 0).write 17 8 fun _ => 0).read 17 8).1 := by
    rw [Disk.dataBitmap, Disk.format, Disk.read_write_of_disjoint (.inl (by decide))]
  rw [hinodes, hdata, Disk.get_congr (Disk.read_write_self (by omega)),
    Disk.get_congr (Disk.read_write_self (by omega))]
  simp [Bits.get]

/-- All sectors of a formatted disk are free. -/
lemma fits_format (d : Disk) {bmap : ℕ → BitVec 8} (h : bmap = d.format.dataBitmap) :
    (Disk.clearBelow bmap 32768).length = 32768 := by
  have hall : Disk.clearBelow bmap 32768 = List.range 32768 := by
    refine List.filter_eq_self.mpr fun k hk => ?_
    rw [h, (get_format d (List.mem_range.mp hk)).2]
    rfl
  rw [hall, List.length_range]

/-- The first number that is handed out is `0`. -/
lemma allocInodeNum_format (d : Disk) : d.format.allocInodeNum.1 = some 0 := by
  rcases d.format.allocInodeNum_cases with ⟨k, hk, -, hbelow, heq⟩ | ⟨hall, -⟩
  · obtain rfl : k = 0 := by
      by_contra hne
      have hset := hbelow 0 (Nat.pos_of_ne_zero hne)
      rw [(get_format d (by omega)).1] at hset
      cases hset
    rw [heq]
  · have hset := hall 0 (by omega)
    rw [(get_format d (by omega)).1] at hset
    cases hset

/-- A run that stores a file of two sectors under the number `0`, on a machine with 16 MiB. -/
lemma exists_stored : ∃ v f, Transition.Reach Init Step Proper v ∧ v.catalog.files 0 = some f ∧
    f.inode.sectors = 2 ∧ v.heap.Room 2 3455 := by
  obtain ⟨_, d₀, hret, -⟩ := (ends_initFs (d := blank) ⟨rfl, rfl⟩ rfl (by decide)).returns
  obtain ⟨v₀, hv₀⟩ : ∃ v₀ :
      DeviceVolume, v₀ = ⟨d₀, ⟨[], [], fun _ => none⟩, KernelHeap.boot 4096⟩ :=
    ⟨_, rfl⟩
  have hheap₀ : KernelHeap.TameReach (KernelHeap.boot 4096) := .start (KernelHeap.init_boot 4096)
  have hinit : v₀.Init := by
    rw [hv₀]
    exact ⟨⟨blank, ⟨rfl, rfl⟩, rfl, by decide, hret⟩, rfl, hheap₀⟩
  obtain ⟨w₀, ⟨⟨disk, hdisk⟩, hfiles, hnums, -⟩, href₀⟩ := refines_of_init hinit
  obtain ⟨v₁, hs₁, hk₁, href₁⟩ := href₀.step (c := .alloc) ⟨trivial, fun a ha => by cases ha⟩ rfl
  have hbitmap : v₁.disk.dataBitmap = disk.format.dataBitmap := by
    rw [href₁.dataBitmap, ← hdisk]
    refine Disk.SameData.dataBitmap fun s hs => Disk.sector_allocInodeNum ?_
    unfold dataOffset at hs
    omega
  have hroom₁ : v₁.heap.Room 0 3584 := by
    rw [hk₁, hv₀]
    exact KernelHeap.room_boot (by decide)
  have hreach₁ : KernelHeap.TameReach v₁.heap := by
    rw [hk₁, hv₀]
    exact hheap₀
  have hen₂ : v₁.Enabled (.file (.writeData FileSystem.letter)) := by
    have hclear := fits_format disk hbitmap
    refine ⟨⟨⟨by decide, by decide, ?_⟩, by decide⟩, fun a ha => ?_⟩
    · change 2 ≤ (Disk.clearBelow v₁.disk.dataBitmap 32768).length
      omega
    · cases ha
      exact hroom₁.enabled_small (by decide) (by decide) (by omega)
  obtain ⟨p, k₁, k₂, -, hlend, -⟩ := KernelHeap.lent hreach₁ (hen₂.2 _ rfl) (by decide) (by decide)
  obtain ⟨v₂, hs₂, hk₂, href₂⟩ := href₁.step (c := .writeData FileSystem.letter) hen₂ hlend
  have hroom₂ : v₂.heap.Room 2 3455 := by
    have hroom := hroom₁.lend hreach₁ (.inl (by decide)) (by decide) (by omega) hlend
    rwa [hk₂]
  obtain ⟨f, hf, hsectors⟩ : ∃ f ∈ v₂.catalog.memory, f.inode.sectors = 2 := by
    rw [href₂.catalog]
    exact ⟨_, List.mem_cons_self, rfl⟩
  have halloc : 0 ∈ v₂.catalog.allocated := by
    rw [href₂.catalog]
    change 0 ∈ w₀.archive.disk.allocInodeNum.1.toList ++ w₀.allocated
    rw [hdisk, allocInodeNum_format]
    exact List.mem_append_left _ (List.mem_singleton_self 0)
  obtain ⟨v₃, hs₃, hk₃, href₃⟩ :=
    href₂.step (c := .link f 0) ⟨⟨hf, halloc, by omega⟩, fun a ha => by cases ha⟩ rfl
  have hproper₂ : v₁.Proper (.file (.writeData FileSystem.letter)) := by
    intro a ha
    cases ha
    exact ⟨by decide, by decide⟩
  refine ⟨v₃, f, ?_, ?_, hsectors, hk₃ ▸ hroom₂⟩
  · exact (((Transition.Reach.start hinit).next (a := .file .alloc)
      (fun a ha => by cases ha) hs₁).next hproper₂ hs₂).next
      (a := .file (.link f 0)) (fun a ha => by cases ha) hs₃
  · rw [href₃.catalog]
    exact Function.update_self (β := fun _ => Option StoredFile) 0 (some f) w₀.files

/-- The file is found again. -/
theorem files_read_back_stored : ∃ (v : DeviceVolume) (f : StoredFile), v.catalog.files 0 = some f ∧
    f.inode.sectors = 2 ∧ (∃ p k, v.heap.allot 1024 = some (p, k)) ∧
    Ends (lookup 0 fun _ => 0).onDriver (fun r _ => r.1.size = f.inode.size ∧
      ∀ b < 512 * f.inode.sectors, r.2 b = Disk.dataBuffer f.data f.size b) v.device := by
  obtain ⟨v, f, hreach, hf, hsectors, hroom⟩ := exists_stored
  have hen : v.heap.Enabled (.kmalloc (512 * f.inode.sectors)) :=
    hroom.enabled_small (by omega) (by decide) (by omega)
  obtain ⟨hallot, hends⟩ := (files_read_back hreach).2 0 f hf hen
  refine ⟨v, f, hf, hsectors, ?_, (hends fun _ => 0).mono fun r s hr => ⟨hr.2.1, hr.2.2.2⟩⟩
  rwa [hsectors] at hallot

end DeviceVolume

end AlphaOS
