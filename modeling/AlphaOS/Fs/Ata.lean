import Mathlib.Algebra.Group.Nat.Defs
import Mathlib.Data.List.Range
import AlphaOS.Fs.Inodes
import AlphaOS.Lib.Bounded

set_option relaxedAutoImplicit false
set_option autoImplicit false

/-!
# The disk driver

`kernel/filesystem/disk.c` and the device it talks to. The driver writes the address and the number
of sectors into the registers of the device, then a command, and moves the data through the data
register one word at a time; in between it polls the status register. How long the device is busy,
and what the status register shows in the meantime besides the busy bit, is up to the device.

## Main definitions

* `AlphaOS.Ata.Device` — the registers, the sectors and the timing of a device, with what it does at
  each access: `status`, `outb`, `inw`, `outw`.
* `AlphaOS.Ata.initDisk`, `diskRead`, `diskWrite` — the functions of the source.
* `AlphaOS.Ata.Device.Ready` — no transfer is under way.
* `AlphaOS.Ata.Device.Waits` — the device waits for a command, possibly after an error.
* `AlphaOS.Ata.Device.addressed` — the device with its registers loaded for a request.

## Main results

* `AlphaOS.Ata.ends_waitBsy`, `ends_waitDrq` — the two waiting loops, whatever the status register
  shows while the device is busy.
* `AlphaOS.Ata.lba_addressed`, `sectors_addressed` — the address and the number of sectors that
  reach the device.
* `AlphaOS.Ata.ends_request` — the device takes up a request.

## Design

The device follows the protocol for transfers in programmed I/O with 28-bit addresses. A write to a
register while the device is busy or waits for data is not taken in; the standard leaves open what
happens, and the devices the kernel runs on drop it. `delay k` is the number of status reads for
which the `k`-th busy period lasts, and `noise` the other bits of the status register during these
reads. Completed writes are in the device's cache until a `FLUSH CACHE` command: `flushed` is what
the sectors held when the last one was taken in. A device may find a sector out of range before or
after it has taken the words to be written to it: the standard leaves this open, and `late` says
which.
-/

namespace AlphaOS

open Bounded Bounded.Prog

namespace Ata

/-- The direction of a transfer. -/
inductive Dir
  | read
  | write
deriving DecidableEq, Repr

/-- What a device that is not busy waits for: a command, or a word of the sector `lba` with `left`
sectors to go, this one included. -/
inductive Phase
  | idle
  | data (dir : Dir) (lba left word : ℕ)
  | identify (word : ℕ)
  | aborted
deriving DecidableEq, Repr

namespace Phase

/-- `DRQ_STATUS`. -/
def drq : Phase → Bool
  | idle => false
  | data _ _ _ _ => true
  | identify _ => true
  | aborted => false

/-- The status register of a device that is not busy. -/
def status : Phase → BitVec 8
  | idle => 0x50
  | data _ _ _ _ => 0x58
  | identify _ => 0x58
  | aborted => 0x51

end Phase

/-- The registers the driver writes bytes to. -/
inductive Reg
  | sectorCount
  | lbaLo
  | lbaMid
  | lbaHi
  | drive
  | command
deriving DecidableEq, Repr

/-- A device. -/
structure Device where
  present : Bool
  capacity : ℕ
  /-- Whether it takes the words of a sector to be written before it looks whether it has the
  sector. -/
  late : Bool
  sector : ℕ → ℕ → BitVec 8
  /-- The sectors when the last `FLUSH CACHE` was taken in. -/
  flushed : ℕ → ℕ → BitVec 8
  ident : ℕ → BitVec 16
  drive : BitVec 8
  count : BitVec 8
  lbaLo : BitVec 8
  lbaMid : BitVec 8
  lbaHi : BitVec 8
  phase : Phase
  /-- The words of the sector being written. -/
  buffer : ℕ → BitVec 8
  /-- The number of status reads for which the device is still busy. -/
  busy : ℕ
  delay : ℕ → ℕ
  periods : ℕ
  noise : ℕ → BitVec 8
  polls : ℕ
  /-- The writes to registers that were not taken in. -/
  ignored : List (Reg × BitVec 8)

namespace Device

/-- Be busy for a while, then wait in the phase `p`. -/
def enter (p : Phase) (d : Device) : Device :=
  { d with phase := p, busy := d.delay d.periods, periods := d.periods + 1 }

/-- The device asks for the words of the sector. -/
def offers (dir : Dir) (lba : ℕ) (d : Device) : Bool :=
  lba < d.capacity || (dir == .write && d.late)

/-- The next sector of a transfer. -/
def block (dir : Dir) (lba left : ℕ) (d : Device) : Device :=
  if left = 0 then d.enter .idle
  else if d.offers dir lba then d.enter (.data dir lba left 0) else d.enter .aborted

/-- The last word of a sector to be written is there. -/
def accept (lba left : ℕ) (d : Device) : Device :=
  if lba < d.capacity then
    ({ d with sector := Function.update d.sector lba d.buffer } : Device).block .write
      (lba + 1) (left - 1)
  else d.enter .aborted

/-- Whether there is a device does not change. -/
@[simp] lemma block_present (dir : Dir) (lba left : ℕ) (d : Device) :
    (d.block dir lba left).present = d.present := by
  unfold block
  split_ifs <;> rfl

/-- A transfer that begins has not changed a sector. -/
@[simp] lemma block_sector (dir : Dir) (lba left : ℕ) (d : Device) :
    (d.block dir lba left).sector = d.sector := by
  unfold block
  split_ifs <;> rfl

/-- A transfer begins with a busy period. -/
@[simp] lemma block_busy (dir : Dir) (lba left : ℕ) (d : Device) :
    (d.block dir lba left).busy = d.delay d.periods := by
  unfold block
  split_ifs <;> rfl

/-- The sector addressed by the registers. -/
def lba (d : Device) : ℕ :=
  d.lbaLo.toNat + 2 ^ 8 * d.lbaMid.toNat + 2 ^ 16 * d.lbaHi.toNat + 2 ^ 24 * (d.drive.toNat % 16)

/-- The number of sectors asked for: a count of zero stands for `256`. -/
def sectors (d : Device) : ℕ := if d.count = 0 then 256 else d.count.toNat

/-- A command. The bit `6` of the drive register selects addresses that count sectors. -/
def exec (v : BitVec 8) (d : Device) : Device :=
  if v = 0xEC then d.enter (.identify 0)
  else if v = 0x20 then if d.drive.getLsbD 6 then d.block .read d.lba d.sectors else
    d.enter .aborted
  else if v = 0x30 then if d.drive.getLsbD 6 then d.block .write d.lba d.sectors else
    d.enter .aborted
  else if v = 0xE7 then { d.enter .idle with flushed := d.sector }
  else d.enter .aborted

/-- The device takes in what is written to its registers. -/
def listens (d : Device) : Bool := d.present && d.busy == 0 && !d.phase.drq

/-- `outb` to one of the registers. -/
def outb (r : Reg) (v : BitVec 8) (d : Device) : Device :=
  if d.listens then
    match r with
    | .sectorCount => { d with count := v }
    | .lbaLo => { d with lbaLo := v }
    | .lbaMid => { d with lbaMid := v }
    | .lbaHi => { d with lbaHi := v }
    | .drive => { d with drive := v }
    | .command => d.exec v
  else { d with ignored := d.ignored ++ [(r, v)] }

/-- `inb(STATUS_COMMAND_REGISTER)`: while the device is busy only the busy bit is meaningful. -/
def status (d : Device) : BitVec 8 × Device :=
  if d.present = false then (0, d)
  else if d.busy = 0 then (d.phase.status, d)
  else (0x80 ||| d.noise d.polls, { d with busy := d.busy - 1, polls := d.polls + 1 })

/-- The little-endian word `w` of a sector. -/
def word (bytes : ℕ → BitVec 8) (w : ℕ) : BitVec 16 := bytes (2 * w + 1) ++ bytes (2 * w)

/-- Store the word `w` of a sector. -/
def putWord (bytes : ℕ → BitVec 8) (w : ℕ) (v : BitVec 16) (i : ℕ) : BitVec 8 :=
  if i = 2 * w then v.setWidth 8 else if i = 2 * w + 1 then (v >>> 8).setWidth 8 else bytes i

/-- `inw(BASE)`. -/
def inw (d : Device) : BitVec 16 × Device :=
  if d.busy = 0 then
    match d.phase with
    | .data .read lba left w => (word (d.sector lba) w,
        if w + 1 = 256 then d.block .read (lba + 1) (left - 1)
        else { d with phase := .data .read lba left (w + 1) })
    | .identify w => (d.ident w,
        if w + 1 = 256 then d.enter .idle else { d with phase := .identify (w + 1) })
    | _ => ((d.noise d.polls).setWidth 16, d)
  else ((d.noise d.polls).setWidth 16, d)

/-- `outw(BASE, v)`: a sector is written once its last word is there. -/
def outw (v : BitVec 16) (d : Device) : Device :=
  if d.busy = 0 then
    match d.phase with
    | .data .write lba left w =>
      if w + 1 = 256 then ({ d with buffer := putWord d.buffer w v } : Device).accept lba left
      else { d with buffer := putWord d.buffer w v, phase := .data .write lba left (w + 1) }
    | _ => d
  else d

/-- No transfer is under way. -/
structure Ready (d : Device) : Prop where
  present : d.present = true
  phase : d.phase = .idle

/-- The device waits for a command, possibly after an error. -/
structure Waits (d : Device) : Prop where
  present : d.present = true
  phase : d.phase.drq = false

/-- A device without a transfer waits for a command. -/
lemma Ready.waits {d : Device} (h : d.Ready) : d.Waits := ⟨h.present, congrArg Phase.drq h.phase⟩

/-- The device at the end of its busy period. -/
def settle (d : Device) : Device := { d with busy := 0, polls := d.polls + d.busy }

end Device

open Device

/-! ## The functions of the driver -/

/-- `wait_bsy`. -/
def waitBsy : Prog Device Unit :=
  poll fun d => (if d.status.1 &&& 0x80 = 0 then some () else none, d.status.2)

/-- `wait_drq`. -/
def waitDrq : Prog Device Unit :=
  poll fun d => (if d.status.1 &&& 0x08 = 0 then none else some (), d.status.2)

/-- A byte to a register. -/
def out (r : Reg) (v : BitVec 8) : Prog Device Unit := act fun d => ((), d.outb r v)

/-- The loop `while (1)` of `init_disk`: wait for an error or for data. -/
def waitIdentify : Prog Device Bool :=
  poll fun d => (if d.status.1 &&& 0x01 ≠ 0 then some false
    else if d.status.1 &&& 0x08 ≠ 0 then some true else none, d.status.2)

/-- The last loop of `init_disk`. -/
def readIdentify : Prog Device (ℕ → BitVec 16) :=
  forRange (fun i identify => do
    let w ← act inw
    return Function.update identify i w) 0 256 fun _ => 0

/-- `init_disk`: the text written to the terminal, and the value returned. -/
def initDisk : Prog Device (String × ℤ) := do
  out .drive 0xA0
  out .sectorCount 0
  out .lbaLo 0
  out .lbaMid 0
  out .lbaHi 0
  out .command 0xEC
  let status ← act Device.status
  if status = 0 then
    return ("No device found :(\n", -1)
  else
    waitBsy
    let found ← waitIdentify
    if found = false then
      return ("IDENTIFY error \n", -1)
    else
      let _ ← readIdentify
      return ("Master device found!\n", 1)

/-- The byte for the drive register: the master device, addresses that count sectors, and four bits
of the address. -/
def driveByte (lba : BitVec 32) : BitVec 8 := 0xE0#8 ||| ((lba >>> 24) &&& 0x0F#32).setWidth 8

/-- The part `disk_read` and `disk_write` have in common: address the sectors and give the command.
-/
def request (lba sectors : BitVec 32) (cmd : BitVec 8) : Prog Device Unit := do
  waitBsy
  out .drive (driveByte lba)
  out .sectorCount (sectors.setWidth 8)
  out .lbaLo (lba.setWidth 8)
  out .lbaMid ((lba >>> 8).setWidth 8)
  out .lbaHi ((lba >>> 16).setWidth 8)
  out .command cmd

/-- The inner loop of `disk_read`. -/
def readWords (i : ℕ) (buffer : ℕ → BitVec 16) : Prog Device (ℕ → BitVec 16) :=
  forRange (fun j buffer => do
    let w ← act inw
    return Function.update buffer ((i * 256 + j) % 2 ^ 32) w) 0 256 buffer

/-- `disk_read`: the words in the buffer afterwards. -/
def diskRead (lba sectors : BitVec 32) (buffer : ℕ → BitVec 16) : Prog Device (ℕ → BitVec 16) := do
  request lba sectors 0x20
  waitBsy
  waitDrq
  forRange (fun i buffer => do
    waitBsy
    waitDrq
    readWords i buffer) 0 sectors.toNat buffer

/-- The inner loop of `disk_write`. -/
def writeWords (ptr : ℕ → BitVec 16) (i : ℕ) : Prog Device Unit :=
  forRange (fun j _ => act fun d => ((), d.outw (ptr ((i * 256 + j) % 2 ^ 32)))) 0 256 ()

/-- `disk_write`. -/
def diskWrite (lba sectors : BitVec 32) (buffer : ℕ → BitVec 8) : Prog Device Unit := do
  request lba sectors 0x30
  waitBsy
  waitDrq
  forRange (fun i _ => do
    waitBsy
    waitDrq
    writeWords (word buffer) i) 0 sectors.toNat ()
  out .command 0xE7
  waitBsy

/-! ## Waiting -/

section Waiting

variable {d : Device} {Q : Unit → Device → Prop}

/-- The busy bit is set in the status of a busy device. -/
lemma busyBit_ne_zero (x : BitVec 8) : (0x80 ||| x) &&& 0x80 ≠ 0 := by
  intro h
  have hbit := congrArg (fun y : BitVec 8 => y.getLsbD 7) h
  simp at hbit

/-- A device that is not busy does not say so. -/
lemma busyBit_status (p : Phase) : p.status &&& 0x80 = 0 := by
  cases p <;> simp [Phase.status]

/-- The device asks for data exactly in the phases of a transfer. -/
lemma drqBit_status (p : Phase) : p.status &&& 0x08 = 0 ↔ p.drq = false := by
  cases p <;> simp [Phase.status, Phase.drq]

/-- The status of a device that is not busy. -/
lemma status_of_settled (hp : d.present = true) (hb : d.busy = 0) :
    d.status = (d.phase.status, d) := by
  simp [Device.status, hp, hb]

/-- The status of a busy device. -/
lemma status_of_busy (hp : d.present = true) (hb : d.busy ≠ 0) :
    d.status = (0x80 ||| d.noise d.polls, { d with busy := d.busy - 1, polls := d.polls + 1 }) := by
  simp [Device.status, hp, hb]

/-- The status where there is no device. -/
lemma status_of_absent (hp : d.present = false) : d.status = (0, d) := by
  simp [Device.status, hp]

/-- **`wait_bsy`** waits for the end of the busy period, whatever else the status shows.

**Proof sketch.** Every read with the busy bit set brings the end one read nearer and leaves the
settled device the same. -/
lemma ends_waitBsy (hp : d.present = true) (h : Q () d.settle) : Ends waitBsy Q d := by
  refine ends_poll (I := fun s => s.present = true ∧
    s.settle = d.settle) Device.busy ?_ ?_ ⟨hp, rfl⟩
  · intro s u hs hstatus
    by_cases hb : s.busy = 0
    · rw [status_of_settled hs.1 hb] at hstatus ⊢
      have hsettle : s.settle = s := by
        rw [settle, hb, Nat.add_zero]
        cases s
        simp_all
      rwa [← hsettle, hs.2]
    · rw [status_of_busy hs.1 hb] at hstatus
      exact absurd ((if_neg (busyBit_ne_zero _)).symm.trans hstatus) nofun
  · intro s hs hstatus
    by_cases hb : s.busy = 0
    · rw [status_of_settled hs.1 hb] at hstatus
      exact absurd ((if_pos (busyBit_status _)).symm.trans hstatus) nofun
    · rw [status_of_busy hs.1 hb]
      refine ⟨⟨hs.1, ?_⟩, Nat.sub_lt (Nat.pos_of_ne_zero hb) Nat.one_pos⟩
      rw [← hs.2]
      simp only [settle, Device.mk.injEq, and_true, true_and]
      omega

/-- `wait_drq` returns at once when the device asks for data. -/
lemma ends_waitDrq (hp : d.present = true) (hb : d.busy = 0) (hd : d.phase.drq = true)
    (h : Q () d) :
    Ends waitDrq Q d := by
  refine ends_poll (I := fun s => s = d) (fun _ => 0) ?_ ?_ rfl
  · intro s u hs _
    rw [hs, status_of_settled hp hb]
    exact h
  · intro s hs hstatus
    rw [hs, status_of_settled hp hb] at hstatus
    have hdrq : ¬d.phase.status &&& 0x08 = 0 := by
      rw [drqBit_status, hd]
      simp
    exact absurd ((if_neg hdrq).symm.trans hstatus) nofun

/-- `wait_drq` waits forever when the device asks for nothing. -/
lemma hangs_waitDrq (hp : d.present = true) (hb : d.busy = 0) (hd : d.phase.drq = false) :
    Hangs waitDrq d := by
  refine hangs_poll (I := fun s => s = d) (fun s hs => ?_) rfl
  rw [hs, status_of_settled hp hb]
  exact ⟨if_pos ((drqBit_status d.phase).mpr hd), rfl⟩

/-- Where there is no device, `wait_bsy` returns at once. -/
lemma ends_waitBsy_of_absent (hp : d.present = false) (h : Q () d) : Ends waitBsy Q d := by
  refine ends_poll (I := fun s => s = d) (fun _ => 0) ?_ ?_ rfl
  · intro s u hs _
    rw [hs, status_of_absent hp]
    exact h
  · intro s hs hstatus
    rw [hs, status_of_absent hp] at hstatus
    exact absurd ((if_pos (by simp)).symm.trans hstatus) nofun

/-- Where there is no device, `wait_drq` waits forever. -/
lemma hangs_waitDrq_of_absent (hp : d.present = false) : Hangs waitDrq d := by
  refine hangs_poll (I := fun s => s = d) (fun s hs => ?_) rfl
  rw [hs, status_of_absent hp]
  exact ⟨if_pos (by simp), rfl⟩

end Waiting

/-! ## The request -/

/-- The command for a direction. -/
def Dir.cmd : Dir → BitVec 8
  | .read => 0x20
  | .write => 0x30

/-- The number of sectors a device takes a request for `n` sectors to be: the register has eight
bits. -/
def asked (n : ℕ) : ℕ := if n % 256 = 0 then 256 else n % 256

/-- The device with its registers loaded for a request. -/
def Device.addressed (lba sectors : BitVec 32) (d : Device) : Device :=
  { d.settle with
    drive := driveByte lba
    count := sectors.setWidth 8
    lbaLo := lba.setWidth 8
    lbaMid := (lba >>> 8).setWidth 8
    lbaHi := (lba >>> 16).setWidth 8 }

section Request

variable {d : Device} {lba sectors : BitVec 32} {Q : Unit → Device → Prop}

/-- The four address bits of the drive register. -/
lemma driveByte_mod (lba : BitVec 32) :
    (driveByte lba).toNat % 16 = lba.toNat / 2 ^ 24 % 16 := by
  simp only [driveByte, BitVec.toNat_or, BitVec.toNat_setWidth, BitVec.toNat_and,
    BitVec.toNat_ushiftRight,
    Nat.shiftRight_eq_div_pow]
  have hlow : (lba.toNat / 2 ^ 24 &&& 15) = lba.toNat / 2 ^ 24 % 16 :=
    Nat.and_two_pow_sub_one_eq_mod _ 4
  have hmod : ∀ x, x % 16 = x &&& 15 := fun x => (Nat.and_two_pow_sub_one_eq_mod x 4).symm
  rw [hmod]
  change (224 ||| (lba.toNat / 2 ^ 24 &&& 15) % 2 ^ 8) &&& 15 = _
  rw [hlow, Nat.and_or_distrib_right, Nat.mod_eq_of_lt (b := 2 ^ 8) (by omega), ← hmod, ← hmod]
  simp

/-- **The address in the registers**: the upper four bits of the 32-bit number are lost. -/
lemma lba_addressed : (d.addressed lba sectors).lba = lba.toNat % 2 ^ 28 := by
  change (lba.setWidth 8).toNat + 2 ^ 8 * ((lba >>> 8).setWidth 8).toNat +
    2 ^ 16 * ((lba >>> 16).setWidth 8).toNat + 2 ^ 24 * ((driveByte lba).toNat % 16) = _
  rw [driveByte_mod]
  simp only [BitVec.toNat_setWidth, BitVec.toNat_ushiftRight, Nat.shiftRight_eq_div_pow]
  omega

/-- The number of sectors in the register. -/
lemma sectors_addressed : (d.addressed lba sectors).sectors = asked sectors.toNat := by
  have hzero : sectors.setWidth 8 = 0 ↔ sectors.toNat % 256 = 0 := by
    rw [← BitVec.toNat_inj, BitVec.toNat_setWidth]
    rfl
  change (if sectors.setWidth 8 = 0 then 256 else (sectors.setWidth 8).toNat) = _
  rw [BitVec.toNat_setWidth, asked]
  by_cases h : sectors.toNat % 256 = 0
  · rw [if_pos (hzero.mpr h), if_pos h]
  · rw [if_neg (fun hc => h (hzero.mp hc)), if_neg h]

/-- The drive register selects addresses that count sectors. -/
lemma drive_addressed : (d.addressed lba sectors).drive.getLsbD 6 = true := by
  simp [addressed, driveByte]

/-- The device takes up the request. -/
lemma exec_addressed (dir : Dir) : (d.addressed lba sectors).exec dir.cmd =
    (d.addressed lba sectors).block dir (lba.toNat % 2 ^ 28) (asked sectors.toNat) := by
  have hlba : (d.addressed lba sectors).lba = lba.toNat % 2 ^ 28 := lba_addressed
  have hsectors : (d.addressed lba sectors).sectors = asked sectors.toNat := sectors_addressed
  rw [← hlba, ← hsectors]
  cases dir with
  | read => exact if_pos drive_addressed
  | write => exact if_pos drive_addressed

/-- A device that waits for a command takes in what is written to its registers. -/
lemma outb_of_waits {r : Reg} {v : BitVec 8} (hd : d.Waits) (hb : d.busy = 0) : d.outb r v =
      match r with
      | .sectorCount => { d with count := v }
      | .lbaLo => { d with lbaLo := v }
      | .lbaMid => { d with lbaMid := v }
      | .lbaHi => { d with lbaHi := v }
      | .drive => { d with drive := v }
      | .command => d.exec v :=
  if_pos (by simp [listens, hd.present, hb, hd.phase])

/-- A write to a register. -/
lemma ends_out {r : Reg} {v : BitVec 8} {t : Device} (hd : d.outb r v = t) (h : Q () t) :
    Ends (out r v) Q d := by
  refine ends_act ?_
  rw [hd]
  exact h

/-- **The part in common** of the two functions: the device takes up the request. -/
lemma ends_request (hd : d.Waits) (dir : Dir) (h : Q () ((d.addressed lba sectors).block dir
      (lba.toNat % 2 ^ 28) (asked sectors.toNat))) : Ends (request lba sectors dir.cmd) Q d := by
  unfold request
  refine ends_bind (ends_waitBsy hd.present ?_)
  refine ends_bind (ends_out (outb_of_waits ⟨hd.present, hd.phase⟩ rfl) ?_)
  refine ends_bind (ends_out (outb_of_waits ⟨hd.present, hd.phase⟩ rfl) ?_)
  refine ends_bind (ends_out (outb_of_waits ⟨hd.present, hd.phase⟩ rfl) ?_)
  refine ends_bind (ends_out (outb_of_waits ⟨hd.present, hd.phase⟩ rfl) ?_)
  refine ends_bind (ends_out (outb_of_waits ⟨hd.present, hd.phase⟩ rfl) ?_)
  refine ends_out (outb_of_waits ⟨hd.present, hd.phase⟩ rfl) ?_
  change Q () ((d.addressed lba sectors).exec dir.cmd)
  rw [exec_addressed]
  exact h

end Request

end Ata

end AlphaOS
