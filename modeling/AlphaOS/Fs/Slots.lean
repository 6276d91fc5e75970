import AlphaOS.Fs.Inodes

set_option relaxedAutoImplicit false
set_option autoImplicit false

/-!
# The array of inodes

`write_inode` and `read_inode` of `fs.c`. Eight inodes share a sector, so that a write of one inode
reads the sector, replaces `sizeof(inode_t)` bytes of it and writes it back. Together the two
functions are an array of inodes, which this file states as a refinement: the slots of the disk are
an array of images, and `write_inode` is an assignment to it.

## Main definitions

* `AlphaOS.Image` — the bytes of an `inode_t`, the padding included.
* `AlphaOS.Disk.slot` — the bytes of the disk in which an inode is kept.
* `AlphaOS.Disk.writeImage`, `AlphaOS.Disk.readInode` — the functions of the source.

## Main results

* `AlphaOS.Disk.slot_writeImage` — `write_inode` is an assignment to one slot.
* `AlphaOS.Disk.inode_array` — after any writes, `read_inode` returns what was written last.
-/

namespace AlphaOS

/-- The `sizeof(inode_t)` bytes of an inode in memory. -/
abbrev Image := Fin 64 → BitVec 8

/-- The bytes of an inode as they are laid out in memory. -/
def Inode.image (inode : Inode) : Image := fun i => inode.bytes i

namespace Disk

variable {d : Disk} {num m s : ℕ} {image : Image}

/-- The sector of the inode with the number `num`. -/
def inodeSector (num : ℕ) : ℕ := iblockOffset + num / 8

/-- `kmemcpy(&sector_buffer[inode_offset * sizeof(inode_t)], &inode, sizeof(inode_t))`. -/
def putImage (num : ℕ) (image : Image) (buf : ℕ → BitVec 8) (i : ℕ) : BitVec 8 :=
  if h : num % 8 * 64 ≤ i ∧ i < num % 8 * 64 + 64 then image ⟨i - num % 8 * 64, by omega⟩ else buf i

/-- `write_inode`, for an inode with the bytes `image`. -/
def writeImage (image : Image) (num : ℕ) (d : Disk) : Disk :=
  (d.read (inodeSector num) 1).2.write (inodeSector num) 1
    (putImage num image (d.read (inodeSector num) 1).1)

/-- `read_inode`: what is put into `inode_buffer`. -/
def readInode (num : ℕ) (d : Disk) : Image × Disk :=
  (fun i => (d.read (inodeSector num) 1).1 (num % 8 * 64 + i), (d.read (inodeSector num) 1).2)

/-- `write_inode` writes the bytes of its inode. -/
lemma writeInode_eq_writeImage (inode : Inode) (num : ℕ) (d : Disk) :
    d.writeInode inode num = d.writeImage inode.image num := by
  rw [writeInode, writeImage]
  congr 1

/-! ## Slots -/

/-- The bytes of the disk in which the inode with the number `num` is kept. -/
def slot (d : Disk) (num : ℕ) : Image := fun i => d.sector (inodeSector num) (num % 8 * 64 + i)

/-- `read_inode` returns the bytes of the slot. -/
lemma readInode_eq_slot : (d.readInode num).1 = d.slot num := by
  funext i
  have hi := i.isLt
  simp only [readInode, read, slot]
  rw [if_pos (by omega), Nat.div_eq_of_lt (by omega), Nat.mod_eq_of_lt (by omega), Nat.add_zero]

/-- A sector after `write_inode`. -/
lemma sector_writeImage : (d.writeImage image num).sector s =
    if s = inodeSector num then putImage num image
      (d.read (inodeSector num) 1).1 else d.sector s := by
  funext i
  simp only [writeImage, write, read]
  by_cases hs : s = inodeSector num
  · subst hs
    rw [if_pos (by omega), if_pos rfl, Nat.sub_self, Nat.mul_zero, Nat.zero_add]
  · rw [if_neg (by omega), if_neg hs]

/-- **`write_inode` is an assignment**: it changes the slot of its number, and no other one.

**Proof sketch.** Slots in other sectors are not written. A slot in the same sector has another
offset, a multiple of `64` as well, so the two do not overlap, and its bytes are those that were
read. -/
theorem slot_writeImage : (d.writeImage image num).slot = Function.update d.slot num image := by
  funext m i
  have hi := i.isLt
  rw [slot, sector_writeImage, Function.update_apply]
  by_cases hm : m = num
  · subst hm
    rw [if_pos rfl, if_pos rfl, putImage, dif_pos (by omega)]
    congr 1
    exact Fin.ext (Nat.add_sub_cancel_left ..)
  · rw [if_neg hm]
    by_cases hs : inodeSector m = inodeSector num
    · have hoff : m % 8 ≠ num % 8 := by
        intro heq
        simp only [inodeSector] at hs
        omega
      have hsame : (d.readInode m).1 i = d.slot m i := congrFun readInode_eq_slot i
      rw [if_pos hs, putImage, dif_neg (by omega), ← hs]
      exact hsame
    · rw [if_neg hs]
      rfl

/-! ## Sequences of writes -/

/-- A sequence of calls of `write_inode`. -/
def writeImages (writes : List (ℕ × Image)) (d : Disk) : Disk :=
  writes.foldl (fun d w => d.writeImage w.2 w.1) d

/-- The image written last under the number `m`. -/
def lastWritten (writes : List (ℕ × Image)) (m : ℕ) : Option Image :=
  (writes.reverse.find? fun w => w.1 == m).map Prod.snd

/-- One more write. -/
lemma lastWritten_concat (writes : List (ℕ × Image)) (m : ℕ) :
    lastWritten (writes ++ [(num, image)]) m =
      if num = m then some image else lastWritten writes m := by
  simp only [lastWritten, List.reverse_append, List.reverse_singleton, List.singleton_append,
    List.find?_cons]
  by_cases hm : num = m
  · simp [hm]
  · rw [if_neg hm, beq_eq_false_iff_ne.mpr hm]

/-- The slots after a sequence of writes. -/
lemma slot_writeImages (writes : List (ℕ × Image)) (d : Disk) (m : ℕ) :
    (d.writeImages writes).slot m = (lastWritten writes m).getD (d.slot m) := by
  induction writes using List.reverseRecOn with
  | nil => rfl
  | append_singleton writes w ih =>
    obtain ⟨num, image⟩ := w
    rw [writeImages, List.foldl_append, List.foldl_cons, List.foldl_nil, slot_writeImage,
      Function.update_apply, lastWritten_concat]
    by_cases hm : num = m
    · rw [if_pos hm, if_pos hm.symm, Option.getD_some]
    · rw [if_neg hm, if_neg (Ne.symm hm)]
      exact ih

/-- The sectors that hold none of the slots written. -/
lemma sector_writeImages (writes : List (ℕ × Image)) (d : Disk)
    (hs : ∀ w ∈ writes, s ≠ inodeSector w.1) : (d.writeImages writes).sector s = d.sector s := by
  induction writes generalizing d with
  | nil => rfl
  | cons w writes ih =>
    have hrest := ih (d.writeImage w.2 w.1) fun w hw => hs w (List.mem_cons_of_mem _ hw)
    exact hrest.trans (by rw [sector_writeImage, if_neg (hs w List.mem_cons_self)])

/-- **`write_inode` and `read_inode` are an array.** After any sequence of writes, `read_inode`
returns, byte for byte, the inode written last under its number, or what was in the slot before the
first write when none was; and the sectors that hold none of the slots written have not changed. -/
theorem inode_array (d : Disk) (writes : List (ℕ × Image)) :
    (∀ m, ((d.writeImages writes).readInode m).1 = (lastWritten writes m).getD (d.slot m)) ∧
      ∀ s, (∀ w ∈ writes, s ≠ inodeSector w.1) → (d.writeImages writes).sector s = d.sector s :=
  ⟨fun m => readInode_eq_slot.trans (slot_writeImages writes d m), fun _ =>
    sector_writeImages writes d⟩

end Disk

end AlphaOS
