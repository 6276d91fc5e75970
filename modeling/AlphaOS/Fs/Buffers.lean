import AlphaOS.Fs.Contents
import AlphaOS.Slab.Buffers

set_option relaxedAutoImplicit false
set_option autoImplicit false

/-!
# File data and the buffers of the kernel heap

`write_inode_data` and `read_inode_data` with the buffer they take from the kernel heap: `512` bytes
for each sector, which `write_inode_data` gives back and `read_inode_data` returns. The buffer of a
file of three or four sectors is an object of the last class of the slab allocator, whose slab stays
at the head of the partial list after it has been released; the next such buffer is looked for
there.

## Main definitions

* `AlphaOS.FileSystem` — the disk with the files written to it, and the kernel heap.
* `AlphaOS.FileSystem.writeInodeData`, `AlphaOS.FileSystem.readInodeData` — the functions of the
  source.
* `AlphaOS.FileSystem.Proper` — the guard: no file of three or four sectors, and no other call of
  the heap that spoils it.
* `AlphaOS.FileSystem.Restores` — a file is read back.
* `AlphaOS.FileSystem.RoundTrip` — a file is written and read back.

## Main results

* `AlphaOS.FileSystem.sound_of_reach` — the invariant of every run.
* `AlphaOS.FileSystem.contents_read_back_iff` — the files that are read back.
* `AlphaOS.FileSystem.contents_lost` — a file of three sectors.

## Design

The heap is shared with the rest of the kernel: between the calls for files a run may have any calls
of `kmalloc` and `kfree` that meet the guard. A call for a file is made while `mmap` has heap pages
and frames for its buffer. It has no result when the heap leaves its own data, or when a byte of the
buffer is not mapped.
-/

namespace AlphaOS

/-! ## Model -/

/-- The disk with the files written to it, and the kernel heap. -/
structure FileSystem where
  archive : Archive
  heap : KernelHeap

namespace FileSystem

variable {fs fs' : FileSystem} {inode : Inode} {data : ℕ → BitVec 8} {size : ℕ}

/-- `write_inode_data`: the inode with its sector table, and the state. -/
def writeInodeData (fs : FileSystem) (inode : Inode) (data : ℕ → BitVec 8) (size : ℕ) :
    Option (Inode × FileSystem) :=
  (fs.heap.lend (512 * inode.sectors)).map fun heap =>
    ((fs.archive.disk.writeInodeData inode data size).1,
      ⟨fs.archive.exec ⟨inode, data, size⟩, heap⟩)

/-- `read_inode_data`: the pointer to the buffer, its contents, which are `buffer` when it is
allocated, and the state. -/
def readInodeData (fs : FileSystem) (inode : Inode) (buffer : ℕ → BitVec 8) :
    Option (ℕ × (ℕ → BitVec 8) × FileSystem) :=
  (fs.heap.allot (512 * inode.sectors)).map fun r =>
    (r.1, (Disk.readInodeData inode buffer fs.archive.disk).1,
      ⟨{ fs.archive with disk := (Disk.readInodeData inode buffer fs.archive.disk).2 }, r.2⟩)

/-- A call: the data of an inode are written, a file is read, or another part of the kernel calls
one of the functions of the heap. -/
inductive Call
  | write (c : Archive.Call)
  | read (file : StoredFile) (buffer : ℕ → BitVec 8)
  | heap (c : KernelHeap.Call)

/-- There is room for the data on the disk, and heap pages and frames for the buffer; a file that is
read has been written. -/
def Enabled (fs : FileSystem) : Call → Prop
  | .write c => fs.archive.disk.Fits c.inode c.size ∧
      fs.heap.Enabled (.kmalloc (512 * c.inode.sectors))
  | .read file _ => file ∈ fs.archive.files ∧ fs.heap.Enabled (.kmalloc (512 * file.inode.sectors))
  | .heap c => fs.heap.Enabled c

/-- What a call does. -/
def exec (fs : FileSystem) : Call → Option FileSystem
  | .write c => (fs.writeInodeData c.inode c.data c.size).map Prod.snd
  | .read file buffer => (fs.readInodeData file.inode buffer).map fun r => r.2.2
  | .heap c => (fs.heap.exec c).map fun heap => { fs with heap := heap }

/-- An enabled call that returns. -/
def Step (fs : FileSystem) (c : Call) (fs' : FileSystem) : Prop :=
  fs.Enabled c ∧ fs.exec c = some fs'

/-- After boot, with any disk. -/
def Init (fs : FileSystem) : Prop := fs.archive.Init ∧ fs.heap.Init

/-- The file has neither three nor four sectors, and another call of the heap asks for no object of
the last class and writes no entry into a live object. -/
def Proper (fs : FileSystem) : Call → Prop
  | .write c => c.inode.sectors ≠ 3 ∧ c.inode.sectors ≠ 4
  | .read _ _ => True
  | .heap c => fs.heap.Tame c

/-- `read_inode_data` on the file's inode returns what was written, with zeros behind it, if there
are heap pages and frames for the buffer. -/
def Restores (fs : FileSystem) (file : StoredFile) : Prop :=
  fs.heap.Enabled (.kmalloc (512 * file.inode.sectors)) → ∀ buffer,
    ∃ p contents fs', fs.readInodeData file.inode buffer = some (p, contents, fs') ∧
      ∀ b < 512 * file.inode.sectors, contents b = Disk.dataBuffer file.data file.size b

/-- `write_inode_data` returns, has written the data, and they are read back. -/
def RoundTrip (fs : FileSystem) (c : Archive.Call) : Prop :=
  ∃ inode' fs', fs.writeInodeData c.inode c.data c.size = some (inode', fs') ∧
    Disk.Written fs.archive.disk c.inode c.data c.size inode' fs'.archive.disk ∧
    fs'.Restores ⟨inode', c.data, c.size⟩

/-! ## The invariant -/

/-- A file whose buffer is not an object of the last class. -/
structure Manageable (inode : Inode) : Prop where
  table : inode.sectors ≤ 14
  three : inode.sectors ≠ 3
  four : inode.sectors ≠ 4

/-- Its buffer is a small object, or has pages of its own. -/
lemma Manageable.notLast (h : Manageable inode) :
    512 * inode.sectors ≤ 1024 ∨ 2048 < 512 * inode.sectors := by
  obtain ⟨-, h₃, h₄⟩ := h
  omega

/-- Its buffer takes few pages. -/
lemma Manageable.lt (h : Manageable inode) : 512 * inode.sectors + sizeofSlab < 65535 * 4096 := by
  have hle := h.table
  rw [sizeofSlab]
  omega

/-- The inode after the write has as many sectors. -/
lemma Manageable.of_written {d d' : Disk} {inode' : Inode} (h : Manageable inode)
    (hw : Disk.Written d inode data size inode' d') : Manageable inode' := by
  have hsectors := hw.fields.2.2
  exact ⟨hsectors.trans_le h.table, hsectors.trans_ne h.three, hsectors.trans_ne h.four⟩

/-- **The invariant.** -/
structure Sound (fs : FileSystem) : Prop where
  intact : fs.archive.Intact
  heap : KernelHeap.TameReach fs.heap
  files : ∀ f ∈ fs.archive.files, Manageable f.inode

/-- **`write_inode_data` returns**, and the file is there. -/
lemma Sound.write {c : Archive.Call} (h : fs.Sound) (hen : fs.Enabled (.write c))
    (hproper : fs.Proper (.write c)) :
    ∃ fs', fs.writeInodeData c.inode c.data c.size =
        some ((fs.archive.disk.writeInodeData c.inode c.data c.size).1, fs') ∧
      fs'.archive = fs.archive.exec c ∧ fs'.Sound := by
  obtain ⟨hfits, hroom⟩ := hen
  have hman : Manageable c.inode := ⟨hfits.table, hproper.1, hproper.2⟩
  obtain ⟨p, k₁, k₂, -, hs, hlent⟩ := KernelHeap.lent h.heap hroom hman.notLast hman.lt
  refine ⟨⟨fs.archive.exec c, k₂⟩, ?_, rfl, h.intact.exec hfits, hlent.returned, fun f hf => ?_⟩
  · rw [writeInodeData, hs, Option.map_some]
  · rcases List.mem_cons.mp hf with rfl | hf
    · exact hman.of_written (Disk.written_writeInodeData c.data hfits)
    · exact h.files f hf

/-- **`read_inode_data` returns** what is on the disk, and changes no file. -/
lemma Sound.read (buffer : ℕ → BitVec 8) (h : fs.Sound) (hman : Manageable inode)
    (hroom : fs.heap.Enabled (.kmalloc (512 * inode.sectors))) :
    ∃ p fs', fs.readInodeData inode buffer =
      some (p, (Disk.readInodeData inode buffer fs.archive.disk).1, fs') ∧ fs'.Sound := by
  obtain ⟨p, k₁, k₂, hs, -, hlent⟩ := KernelHeap.lent h.heap hroom hman.notLast hman.lt
  refine ⟨p, ⟨⟨(Disk.readInodeData inode buffer fs.archive.disk).2, fs.archive.files⟩, k₁⟩, ?_, ?_⟩
  · rw [readInodeData, hs, Option.map_some]
  · have hsector := Disk.sector_readInodeData inode buffer fs.archive.disk
    exact ⟨h.intact.congr fun s _ => congrFun hsector s, hlent.taken, h.files⟩

/-- A read of a file that was written. -/
lemma Sound.restores {f : StoredFile} (h : fs.Sound) (hf : f ∈ fs.archive.files) :
    fs.Restores f := by
  intro hroom buffer
  obtain ⟨p, fs', hs, -⟩ := h.read buffer (h.files f hf) hroom
  exact ⟨p, _, fs', hs, (h.intact f hf).2 buffer⟩

/-- **Every call that meets the guard returns**, and keeps the invariant. -/
lemma Sound.exec (h : fs.Sound) {c : Call} (hen : fs.Enabled c) (hproper : fs.Proper c) :
    ∃ fs', fs.exec c = some fs' ∧ fs'.Sound := by
  cases c with
  | write c =>
    obtain ⟨fs', hs, -, hsound⟩ := h.write hen hproper
    exact ⟨fs', by rw [FileSystem.exec, hs, Option.map_some], hsound⟩
  | read f buffer =>
    obtain ⟨p, fs', hs, hsound⟩ := h.read buffer (h.files f hen.1) hen.2
    exact ⟨fs', by rw [FileSystem.exec, hs, Option.map_some], hsound⟩
  | heap c =>
    obtain ⟨k, hs, hreach⟩ := KernelHeap.tame_returns h.heap hen hproper
    exact ⟨⟨fs.archive, k⟩, by rw [FileSystem.exec, hs, Option.map_some], h.intact, hreach, h.files⟩

/-- **The invariant of every run.** -/
lemma sound_of_reach (hr : Transition.Reach Init Step Proper fs) : fs.Sound := by
  refine hr.invariant (I := Sound) (fun fs hi => ?_) fun fs c fs' h hproper hs => ?_
  · refine ⟨hi.1.intact, .start hi.2, fun f hf => ?_⟩
    rw [hi.1] at hf
    exact absurd hf List.not_mem_nil
  · obtain ⟨fs₁, hs₁, hsound⟩ := h.exec hs.1 hproper
    rw [hs.2] at hs₁
    exact Option.some.inj hs₁ ▸ hsound

/-! ## Round trips -/

variable {c : Archive.Call}

/-- **A file whose buffer is not an object of the last class** is written and read back. -/
lemma Sound.roundTrip (h : fs.Sound) (hen : fs.Enabled (.write c))
    (hproper : fs.Proper (.write c)) :
    fs.RoundTrip c := by
  obtain ⟨fs', hs, harchive, hsound⟩ := h.write hen hproper
  refine ⟨_, fs', hs, ?_, hsound.restores ?_⟩
  · rw [harchive]
    exact Disk.written_writeInodeData _ hen.1
  · rw [harchive]
    exact List.mem_cons_self

/-- **A file of three or four sectors** is not: the buffer that `read_inode_data` asks for is looked
for in the slab that `write_inode_data` has released. -/
lemma Sound.not_roundTrip (h : fs.Sound) (hen : fs.Enabled (.write c))
    (hlast : c.inode.sectors = 3 ∨ c.inode.sectors = 4) : ¬fs.RoundTrip c := by
  rintro ⟨inode', fs', hs, hwritten, hrestores⟩
  have hsectors := hwritten.fields.2.2
  obtain ⟨k, hk, hroom, hnone⟩ := KernelHeap.lost (n := 512 * inode'.sectors) h.heap hen.2
    (by omega) (by omega) (by omega) (by omega)
  rw [writeInodeData, hk, Option.map_some] at hs
  obtain ⟨-, rfl⟩ := Prod.mk.inj (Option.some.inj hs)
  obtain ⟨q, contents, fs₂, hread, -⟩ := hrestores hroom fun _ => 0
  rw [readInodeData, hnone, Option.map_none] at hread
  exact absurd hread (by simp)

/-- **The files that are read back.** In every run after boot, on any disk, of writes of files of up
to `14` sectors but not of three or four, of reads, and of other calls of the heap that ask for no
object of the last class and write no entry of a `free_list` into a live object:

* every call that is enabled and of this kind returns;
* every file written so far is read back, with zeros behind it;
* a further write for which there is room returns with the lowest clear bits of the data bitmap in
  the sector table in increasing order, these bits set, no other sector changed than those of the
  bitmap and of the file, and the file is read back, if and only if the file has neither three nor
  four sectors.

**Proof sketch.** The buffer of such a file is not of the last class, so `kfree` keeps the caches in
order and `kmalloc` finds a buffer whenever there is room (`KernelHeap.lent`); the disk part of a
write leaves the sectors of other files alone, whose bits are set (`Disk.Written.keeps`). A buffer
of the last class is released with its slab still at the head of the partial list
(`KernelHeap.lost`). -/
theorem contents_read_back_iff (hr : Transition.Reach Init Step Proper fs) :
    (∀ call, fs.Enabled call → fs.Proper call → ∃ fs', fs.Step call fs') ∧
    (∀ f ∈ fs.archive.files, fs.Restores f) ∧
    ∀ c, fs.Enabled (.write c) →
      (fs.RoundTrip c ↔ c.inode.sectors ≠ 3 ∧ c.inode.sectors ≠ 4) := by
  have h := sound_of_reach hr
  refine ⟨fun call hen hproper => ?_, fun f hf => h.restores hf, fun c hen =>
    ⟨fun htrip => ?_, fun hproper => ?_⟩⟩
  · obtain ⟨fs', hs, -⟩ := h.exec hen hproper
    exact ⟨fs', hen, hs⟩
  · by_contra hnot
    exact h.not_roundTrip hen (by omega) htrip
  · exact h.roundTrip hen hproper

/-! ## Two files on a used disk -/

/-- A machine with 16 MiB after boot, and a disk on which the sectors `0` and `2` are in use. -/
def usedStart : FileSystem :=
  ⟨⟨⟨fun s b => if s = 17 ∧ b = 0 then 5 else 0, []⟩, []⟩, KernelHeap.boot 4096⟩

/-- A file of `1000` bytes in two sectors. -/
def letter : Archive.Call := ⟨⟨1, 1000, 2, fun _ => 0⟩, fun i => BitVec.ofNat 8 i, 1000⟩

/-- A file of `2100` bytes in five sectors. -/
def report : Archive.Call := ⟨⟨1, 2100, 5, fun _ => 0⟩, fun i => BitVec.ofNat 8 (i / 3), 2100⟩

/-- The bitmap of this disk. -/
lemma clearBelow_usedStart :
    Disk.clearBelow usedStart.archive.disk.dataBitmap 16 =
      [1, 3, 4, 5, 6, 7, 8, 9, 10, 11, 12, 13, 14, 15] := by
  decide

/-- There is room for a file if enough of the first bits are clear. -/
lemma fits_of_clearBelow {d : Disk} {clear : List ℕ}
    (hclear : Disk.clearBelow d.dataBitmap 16 = clear) (htable : inode.sectors ≤ 14)
    (hsize : size ≤ 512 * inode.sectors) (hroom : inode.sectors ≤ clear.length) :
    d.Fits inode size := by
  have hprefix := (Disk.clearBelow_prefix d.dataBitmap (show 16 ≤ 32768 by omega)).length_le
  rw [hclear] at hprefix
  exact ⟨htable, hsize, hroom.trans hprefix⟩

/-- There is room for the first file. -/
lemma fits_letter : usedStart.archive.disk.Fits letter.inode letter.size :=
  fits_of_clearBelow clearBelow_usedStart (by decide) (by decide) (by decide)

/-- The bitmap after the first file. -/
lemma clearBelow_letter : Disk.clearBelow (usedStart.archive.exec letter).disk.dataBitmap 16 =
    [4, 5, 6, 7, 8, 9, 10, 11, 12, 13, 14, 15] := by
  have hwritten := Disk.written_writeInodeData letter.data fits_letter
  have htable : Disk.lowestClear usedStart.archive.disk.dataBitmap letter.inode.sectors =
      [1, 3] := by
    rw [Disk.lowestClear_eq (k := 16) (by omega) (by rw [clearBelow_usedStart]; decide),
      clearBelow_usedStart]
    rfl
  have hbits : ∀ j ∈ List.range 16,
      (Bits.get (usedStart.archive.exec letter).disk.dataBitmap j == false) =
      ((Bits.get usedStart.archive.disk.dataBitmap j || decide (j ∈ [1, 3])) == false) := by
    intro j hj
    rw [← htable, ← hwritten.bits j ((List.mem_range.mp hj).trans (by omega))]
    rfl
  rw [Disk.clearBelow, List.filter_congr hbits]
  decide

/-- There is room for the second file. -/
lemma fits_report : (usedStart.archive.exec letter).disk.Fits report.inode report.size :=
  fits_of_clearBelow clearBelow_letter (by decide) (by decide) (by decide)

/-- There is room for the buffers. -/
lemma room_usedStart : usedStart.heap.Room 0 3584 := KernelHeap.room_boot (by decide)

/-- The run starts after boot. -/
lemma init_usedStart : usedStart.Init := ⟨rfl, KernelHeap.init_boot 4096⟩

/-- The room that a write leaves. -/
lemma Sound.room_write {w m : ℕ} (h : fs.Sound) (hen : fs.Enabled (.write c))
    (hproper : fs.Proper (.write c)) {inode' : Inode}
    (hs : fs.writeInodeData c.inode c.data c.size = some (inode', fs')) (hroom : fs.heap.Room w m)
    (hw : w + 2 ≤ kheapPagesNum) (hm : 129 ≤ m) :
    fs'.heap.Room (w + 2) (m - 129) := by
  have hman : Manageable c.inode := ⟨hen.1.table, hproper.1, hproper.2⟩
  have htable := hman.table
  have hlast := hman.notLast
  obtain ⟨k, hk, heq⟩ := Option.map_eq_some_iff.mp hs
  obtain ⟨-, rfl⟩ := Prod.mk.inj heq
  exact hroom.lend h.heap (by omega) hw hm hk

/-- Both files are written, and there is room to read them. -/
lemma exists_written : ∃ fs, Transition.Reach Init Step Proper fs ∧
    fs.archive = (usedStart.archive.exec letter).exec report ∧ fs.heap.Room 4 3326 := by
  have hstart : Transition.Reach Init Step Proper usedStart := .start init_usedStart
  have hproper₁ : usedStart.Proper (.write letter) := ⟨by decide, by decide⟩
  have hen₁ : usedStart.Enabled (.write letter) :=
    ⟨fits_letter, room_usedStart.enabled_small (by decide) (by decide) (by omega)⟩
  have h₀ := sound_of_reach hstart
  obtain ⟨fs₁, hs₁, harchive₁, h₁⟩ := h₀.write hen₁ hproper₁
  have hroom₁ := h₀.room_write hen₁ hproper₁ hs₁ room_usedStart (by decide) (by omega)
  have hproper₂ : fs₁.Proper (.write report) := ⟨by decide, by decide⟩
  have hen₂ : fs₁.Enabled (.write report) :=
    ⟨harchive₁ ▸ fits_report, hroom₁.enabled_small (by decide) (by decide) (by omega)⟩
  obtain ⟨fs₂, hs₂, harchive₂, h₂⟩ := h₁.write hen₂ hproper₂
  have hroom₂ := h₁.room_write hen₂ hproper₂ hs₂ hroom₁ (by decide) (by omega)
  refine ⟨fs₂, (hstart.next (a := .write letter) hproper₁ ⟨hen₁, ?_⟩).next
    (a := .write report) hproper₂
    ⟨hen₂, ?_⟩, ?_, hroom₂⟩
  · rw [exec, hs₁, Option.map_some]
  · rw [exec, hs₂, Option.map_some]
  · rw [harchive₂, harchive₁]

/-- Both files are read back, into buffers that are not clear. -/
theorem contents_read_back_iff_used : ∃ (fs : FileSystem) (i j : Inode), fs.archive.files =
    [⟨j, report.data, 2100⟩, ⟨i, letter.data, 1000⟩] ∧ i.sectors = 2 ∧ j.sectors = 5 ∧
    ∀ f ∈ fs.archive.files, ∃ p contents fs',
      fs.readInodeData f.inode (fun _ => 0xFF) = some (p, contents, fs') ∧
      ∀ b < 512 * f.inode.sectors, contents b = Disk.dataBuffer f.data f.size b := by
  obtain ⟨fs, hr, harchive, hroom⟩ := exists_written
  refine ⟨fs, _, _, by rw [harchive]; rfl, rfl, rfl, fun f hf => ?_⟩
  have hsmall := ((sound_of_reach hr).files f hf).table
  exact (contents_read_back_iff hr).2.1 f hf
    (hroom.enabled_small (by omega) (by decide) (by omega)) _

/-- A file of `1500` bytes in three sectors. -/
def poster : Archive.Call := ⟨⟨1, 1500, 3, fun _ => 0⟩, fun i => BitVec.ofNat 8 i, 1500⟩

/-- **A file of three sectors.** There is room for it on the disk and for its buffer, but it is not
read back. -/
theorem contents_lost : usedStart.Init ∧ usedStart.Enabled (.write poster) ∧
    ¬usedStart.RoundTrip poster := by
  have hfits : usedStart.archive.disk.Fits poster.inode poster.size :=
    fits_of_clearBelow clearBelow_usedStart (by decide) (by decide) (by decide)
  have hen : usedStart.Enabled (.write poster) :=
    ⟨hfits, room_usedStart.enabled_small (by decide) (by decide) (by omega)⟩
  exact ⟨init_usedStart, hen,
    (sound_of_reach (.start init_usedStart)).not_roundTrip hen (by decide)⟩

end FileSystem

end AlphaOS
