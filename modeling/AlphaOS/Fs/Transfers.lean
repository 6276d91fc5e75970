import AlphaOS.Fs.Ata

set_option relaxedAutoImplicit false
set_option autoImplicit false

/-!
# Transfers of the disk driver

What `disk_read`, `disk_write` and `init_disk` do with the device. A transfer is followed sector by
sector: the device offers the next sector as long as the number in its register is not used up and
the sector is within its capacity, and the driver waits for it before it moves the `256` words.

## Main definitions

* `AlphaOS.Ata.Transfer` — the device before a sector of a request.
* `AlphaOS.Ata.Offers`, `AlphaOS.Ata.Has` — the device asks for the words of the sector; it has the
  sector.
* `AlphaOS.Ata.ReadUpto`, `AlphaOS.Ata.WrittenUpto` — what the loops have done before a sector.
* `AlphaOS.Ata.Serves` — a request of which the device offers every sector.
* `AlphaOS.Ata.Stored` — the device after a request to write.
* `AlphaOS.Ata.Unnoticed` — a request to write whose last sector the device refuses after it has
  taken its words.

## Main results

* `AlphaOS.Ata.ends_diskRead`, `ends_diskWrite` — what the two functions do with a request the
  device serves, for every timing of the device.
* `AlphaOS.Ata.hangs_diskRead`, `hangs_diskWrite` — they wait forever with a request it does not
  serve, unless only the last sector is refused, and that late.
* `AlphaOS.Ata.ends_diskWrite_unnoticed` — in that case `disk_write` returns.
* `AlphaOS.Ata.ends_initDisk`, `ends_initDisk_of_absent` — `init_disk` with and without a device.
-/

namespace AlphaOS

open Bounded Bounded.Prog

namespace Ata

open Device

/-! ## The words of a sector -/

section Words

variable {d : Device} {A left : ℕ}

/-- **The inner loop of `disk_read`** takes the words of a sector out of the device.

**Proof sketch.** Before the word `j` the device has given `j` words and has not changed otherwise;
the last word makes it turn to the next sector. -/
lemma ends_readWords (i : ℕ) (buffer : ℕ → BitVec 16) (hi : i * 256 + 256 ≤ 2 ^ 32)
    (hb : d.busy = 0) (hph : d.phase = .data .read A left 0) :
    Ends (readWords i buffer) (fun buffer' s => s = d.block .read (A + 1) (left - 1) ∧
      ∀ k, buffer' k = if i * 256 ≤ k ∧ k < i * 256 + 256 then word (d.sector A) (k - i * 256)
        else buffer k) d := by
  have hloop := ends_forRange (s := d) (f := fun j buffer => do
      let w ← act inw
      return Function.update buffer ((i * 256 + j) % 2 ^ 32) w)
    (I := fun j buffer' s => (s = if j = 256 then d.block .read (A + 1) (left - 1)
        else { d with phase := .data .read A left j }) ∧
      ∀ k, buffer' k = if i * 256 ≤ k ∧ k < i * 256 + j then word (d.sector A) (k - i * 256)
        else buffer k) (l := 0) (n := 256) (b := buffer) ?_ ?_
  · refine hloop.mono fun buffer' s h => ⟨h.1, h.2⟩
  · intro j buffer' s _ hj h
    obtain ⟨hs, hbuf⟩ := h
    rw [if_neg (by omega)] at hs
    subst hs
    have hinw : ({ d with phase := .data .read A left j } : Device).inw = (word (d.sector A) j,
        if j + 1 = 256 then d.block .read (A + 1) (left - 1)
        else { d with phase := .data .read A left (j + 1) }) := by
      rw [inw, if_pos hb]
      rfl
    refine ends_act_bind ?_
    rw [hinw]
    refine ends_ret ⟨rfl, fun k => ?_⟩
    rw [Nat.mod_eq_of_lt (by omega), Function.update_apply, hbuf]
    by_cases hk : k = i * 256 + j
    · rw [if_pos hk, hk, Nat.add_sub_cancel_left]
      exact (if_pos (by omega)).symm
    · rw [if_neg hk]
      exact if_congr (by omega) rfl rfl
  · refine ⟨?_, fun k => (if_neg (by omega)).symm⟩
    rw [if_neg (by omega), ← hph]

/-- The bytes of a sector after its first `j` words. -/
def filled (buf : ℕ → BitVec 8) (base : ℕ) (old : ℕ → BitVec 8) (j i : ℕ) : BitVec 8 :=
  if i < 2 * j then buf (base + i) else old i

/-- The upper byte of a word. -/
lemma word_ushiftRight (buf : ℕ → BitVec 8) (w : ℕ) :
    (word buf w >>> 8).setWidth 8 = buf (2 * w + 1) := by
  apply BitVec.eq_of_getLsbD_eq
  intro b hb
  have happend : (word buf w).getLsbD (8 + b) = _ := BitVec.getLsbD_append
  simp [happend, hb]

/-- Storing the next word. -/
lemma putWord_filled (buf old : ℕ → BitVec 8) (w j : ℕ) :
    putWord (filled buf (2 * w) old j) j (word buf (w + j)) = filled buf (2 * w) old (j + 1) := by
  funext i
  unfold putWord filled
  by_cases h₁ : i = 2 * j
  · rw [if_pos h₁, if_pos (by omega), h₁, word, BitVec.setWidth_append_eq_right]
    congr 1
    omega
  · rw [if_neg h₁]
    by_cases h₂ : i = 2 * j + 1
    · rw [if_pos h₂, if_pos (by omega), h₂, word_ushiftRight]
      congr 1
      omega
    · rw [if_neg h₂]
      exact if_congr (by omega) rfl rfl

/-- **The inner loop of `disk_write`** puts the words of a sector into the device.

**Proof sketch.** As for `disk_read`; the bytes of the words so far are in the buffer of the device,
which looks at the sector after the last word. -/
lemma ends_writeWords (i : ℕ) (buf : ℕ → BitVec 8) (hi : i * 256 + 256 ≤ 2 ^ 32) (hb : d.busy = 0)
    (hph : d.phase = .data .write A left 0) :
    Ends (writeWords (word buf) i) (fun _ s => ∃ bytes, (∀ k < 512, bytes k = buf (512 * i + k)) ∧
      s = ({ d with buffer := bytes } : Device).accept A left) d := by
  have hloop := ends_forRange (s := d)
    (f := fun j (_ : Unit) => act fun d : Device =>
      ((), d.outw (word buf ((i * 256 + j) % 2 ^ 32))))
    (I := fun j _ s => s = if j = 256 then
        ({ d with buffer := filled buf (2 * (i * 256)) d.buffer 256 } : Device).accept A left
      else { d with
        buffer := filled buf (2 * (i * 256)) d.buffer j, phase := .data .write A left j })
    (l := 0) (n := 256) (b := ()) ?_ ?_
  · refine hloop.mono fun _ s h => ⟨filled buf (2 * (i * 256)) d.buffer 256, fun k hk => ?_, h⟩
    rw [filled, if_pos (by omega)]
    congr 1
    omega
  · intro j _ s _ hj h
    rw [if_neg (by omega)] at h
    subst h
    refine ends_act ?_
    rw [outw, if_pos hb]
    dsimp only
    rw [Nat.mod_eq_of_lt (by omega), putWord_filled]
    by_cases hlast : j + 1 = 256
    · rw [if_pos hlast, if_pos hlast, hlast]
      rfl
    · rw [if_neg hlast, if_neg hlast]
  · have hstart : filled buf (2 * (i * 256)) d.buffer 0 = d.buffer :=
      funext fun _ => if_neg (by omega)
    rw [if_neg (by omega), hstart, ← hph]

end Words

/-! ## The sectors of a request -/

/-- The device before the sector `i` of a request for the sectors `A` to `A + n - 1`. -/
structure Transfer (dir : Dir) (d : Device) (A n i : ℕ) (s : Device) : Prop where
  present : s.present = true
  capacity : s.capacity = d.capacity
  late : s.late = d.late
  flushed : s.flushed = d.flushed
  ignored : s.ignored = d.ignored
  delay : s.delay = d.delay
  periods : s.periods = d.periods + i + 1
  phase : s.phase = if n ≤ i then .idle
    else if d.offers dir (A + i) then .data dir (A + i) (n - i) 0 else .aborted

/-- The device asks for the words of the sector `i` of a request. -/
def Offers (dir : Dir) (d : Device) (A n i : ℕ) : Prop := i < n ∧ d.offers dir (A + i) = true

/-- The device has the sector `i` of a request for it. -/
def Has (d : Device) (A n i : ℕ) : Prop := i < n ∧ A + i < d.capacity

section Requests

variable {d s : Device} {dir : Dir} {A n i : ℕ}

/-- The device asks for the words of a sector that it has. -/
lemma Has.offers (h : Has d A n i) : Offers dir d A n i :=
  ⟨h.1, by rw [Device.offers, decide_eq_true h.2, Bool.true_or]⟩

/-- It offers to read no other sector. -/
lemma offers_read : Offers .read d A n i ↔ Has d A n i := by
  refine and_congr_right fun _ => ?_
  rw [Device.offers, show (Dir.read == Dir.write) = false from rfl, Bool.false_and, Bool.or_false,
    decide_eq_true_eq]

/-- A device that turns to the sector `i`. -/
lemma transfer_block {t : Device} (hp : t.present = true) (hc : t.capacity = d.capacity)
    (hlate : t.late = d.late) (hf : t.flushed = d.flushed) (hg : t.ignored = d.ignored)
    (hl : t.delay = d.delay) (hper : t.periods = d.periods + i) :
    Transfer dir d A n i (t.block dir (A + i) (n - i)) := by
  have henter : ∀ p, (p = if n ≤ i then Phase.idle
      else if d.offers dir (A + i) then .data dir (A + i) (n - i) 0 else .aborted) →
      Transfer dir d A n i (t.enter p) := by
    intro p hphase
    refine ⟨hp, hc, hlate, hf, hg, hl, ?_, hphase⟩
    change t.periods + 1 = _
    rw [hper]
  have hoffers : t.offers dir (A + i) = d.offers dir (A + i) := by
    rw [Device.offers, Device.offers, hc, hlate]
  unfold block
  by_cases hlast : n ≤ i
  · rw [if_pos (by omega)]
    exact henter _ (if_pos hlast).symm
  · rw [if_neg (by omega), hoffers]
    by_cases hin : d.offers dir (A + i) = true
    · rw [if_pos hin]
      exact henter _ (by rw [if_neg hlast, if_pos hin])
    · rw [if_neg hin]
      exact henter _ (by rw [if_neg hlast, if_neg hin])

/-- **The device turns to the next sector** after the last word of one. -/
lemma Transfer.next (h : Transfer dir d A n i s) {t : Device} (ht : t.present = s.present)
    (hc : t.capacity = s.capacity) (hlate : t.late = s.late) (hf : t.flushed = s.flushed)
    (hg : t.ignored = s.ignored) (hl : t.delay = s.delay) (hper : t.periods = s.periods) :
    Transfer dir d A n (i + 1) (t.block dir (A + i + 1) (n - i - 1)) := by
  rw [Nat.add_assoc, Nat.sub_sub]
  exact transfer_block (ht.trans h.present) (hc.trans h.capacity) (hlate.trans h.late)
    (hf.trans h.flushed)
    (hg.trans h.ignored) (hl.trans h.delay) (hper.trans h.periods)

/-- The phase in which the device waits before a sector it offers. -/
lemma Transfer.data (h : Transfer dir d A n i s) (hi : Offers dir d A n i) :
    s.phase = .data dir (A + i) (n - i) 0 := by
  rw [h.phase, if_neg (Nat.not_le.mpr hi.1), if_pos hi.2]

/-- Before each sector the driver waits until the device has it ready. -/
lemma Transfer.ends_wait {α : Type} {p : Prog Device α} {Q : α → Device → Prop}
    (h : Transfer dir d A n i s) (hi : Offers dir d A n i) (hp : Ends p Q s.settle) :
    Ends (Prog.bind waitBsy fun _ => Prog.bind waitDrq fun _ => p) Q s := by
  refine ends_bind (ends_waitBsy h.present (ends_bind (ends_waitDrq h.present rfl ?_ hp)))
  change s.phase.drq = true
  rw [h.data hi]
  rfl

/-- **The driver waits forever** for a sector the device does not offer. -/
lemma Transfer.hangs_wait {α : Type} {p : Prog Device α} (h : Transfer dir d A n i s)
    (hi : ¬Offers dir d A n i) :
      Hangs (Prog.bind waitBsy fun _ => Prog.bind waitDrq fun _ => p) s := by
  refine hangs_bind_of_ends
    (ends_waitBsy h.present (hangs_bind_left (hangs_waitDrq h.present rfl ?_)))
  change s.phase.drq = false
  rw [h.phase]
  split_ifs with hlast hin
  · rfl
  · exact absurd ⟨Nat.not_le.mp hlast, hin⟩ hi
  · rfl

/-- The end of a busy period is no step of the transfer. -/
lemma Transfer.settle (h : Transfer dir d A n i s) : Transfer dir d A n i s.settle :=
  ⟨h.present, h.capacity, h.late, h.flushed, h.ignored, h.delay, h.periods, h.phase⟩

/-- The device takes up the request. -/
lemma ends_request_transfer {lba sectors : BitVec 32} (hd : d.Waits) (dir : Dir) :
    Ends (request lba sectors dir.cmd) (fun _ s =>
      Transfer dir d (lba.toNat % 2 ^ 28) (asked sectors.toNat) 0 s ∧ s.sector = d.sector) d := by
  refine ends_request hd dir ⟨?_, block_sector _ _ _ _⟩
  exact transfer_block (d := d) (i := 0) hd.present rfl rfl rfl rfl rfl rfl

/-- What `disk_read` has done before the sector `i`. -/
structure ReadUpto (d : Device) (A n : ℕ) (buffer : ℕ → BitVec 16) (i : ℕ) (buffer' : ℕ → BitVec 16)
    (s : Device) : Prop where
  transfer : Transfer .read d A n i s
  sector : s.sector = d.sector
  words : ∀ k, buffer' k = if k < 256 * i then word (d.sector (A + k / 256)) (k % 256) else buffer k

/-- A round of the loop of `disk_read`. -/
lemma ReadUpto.next {buffer buffer' : ℕ → BitVec 16} (h : ReadUpto d A n buffer i buffer' s)
    (hi : Has d A n i) (h24 : i < 2 ^ 24) :
    Ends (Prog.bind waitBsy fun _ => Prog.bind waitDrq fun _ => readWords i buffer')
      (ReadUpto d A n buffer (i + 1)) s := by
  refine h.transfer.ends_wait hi.offers ((ends_readWords (d := s.settle) i buffer' (by omega) rfl
    (h.transfer.settle.data hi.offers)).mono fun buffer'' t ht => ?_)
  obtain ⟨rfl, hwords⟩ := ht
  refine ⟨h.transfer.next rfl rfl rfl rfl rfl rfl rfl, (block_sector _ _ _ _).trans h.sector,
    fun k => ?_⟩
  rw [hwords, h.words]
  by_cases hk : i * 256 ≤ k ∧ k < i * 256 + 256
  · have hdiv : k / 256 = i := by omega
    have hmod : k % 256 = k - i * 256 := by omega
    change (if _ then word (s.sector (A + i)) _ else _) = _
    rw [if_pos hk, if_pos (by omega), h.sector, hdiv, hmod]
  · rw [if_neg hk]
    exact if_congr (by omega) rfl rfl

/-- What `disk_write` has done before the sector `i`. -/
structure WrittenUpto (d : Device) (A n : ℕ) (buf : ℕ → BitVec 8) (i : ℕ) (s : Device) : Prop where
  transfer : Transfer .write d A n i s
  sector : ∀ k b, b < 512 → s.sector k b =
    if A ≤ k ∧ k < A + i then buf (512 * (k - A) + b) else d.sector k b
  busy : 0 < i → s.busy = d.delay (d.periods + i)

/-- A round of the loop of `disk_write`: the device takes the words of the sector. -/
lemma WrittenUpto.round {buf : ℕ → BitVec 8} (h : WrittenUpto d A n buf i s)
    (hi : Offers .write d A n i)
    (h24 : i < 2 ^ 24) {Q : Unit → Device → Prop}
      (hQ : ∀ bytes, (∀ k < 512, bytes k = buf (512 * i + k)) →
      Q () (({ s.settle with buffer := bytes } : Device).accept (A + i) (n - i))) :
    Ends (Prog.bind waitBsy fun _ => Prog.bind waitDrq fun _ => writeWords (word buf) i) Q s := by
  refine h.transfer.ends_wait hi ((ends_writeWords (d := s.settle) i buf (by omega) rfl
    (h.transfer.settle.data hi)).mono fun _ t ht => ?_)
  obtain ⟨bytes, hbytes, rfl⟩ := ht
  exact hQ bytes hbytes

/-- The device has the sector. -/
lemma WrittenUpto.next {buf : ℕ → BitVec 8} (h : WrittenUpto d A n buf i s) (hi : Has d A n i)
    (h24 : i < 2 ^ 24) :
    Ends (Prog.bind waitBsy fun _ => Prog.bind waitDrq fun _ => writeWords (word buf) i)
      (fun _ => WrittenUpto d A n buf (i + 1)) s := by
  refine h.round hi.offers h24 fun bytes hbytes => ?_
  have hin : A + i < ({ s.settle with buffer := bytes } : Device).capacity :=
    hi.2.trans_eq h.transfer.capacity.symm
  rw [accept, if_pos hin]
  refine ⟨h.transfer.next rfl rfl rfl rfl rfl rfl rfl, fun k b hb => ?_, fun _ => ?_⟩
  · rw [block_sector]
    change Function.update s.sector (A + i) bytes k b = _
    by_cases hk : k = A + i
    · rw [hk, Function.update_self, hbytes b hb, if_pos (by omega), Nat.add_sub_cancel_left]
    · rw [Function.update_of_ne hk, h.sector k b hb]
      exact if_congr (by omega) rfl rfl
  · rw [block_busy]
    change s.delay s.periods = _
    rw [h.transfer.delay, h.transfer.periods, Nat.add_assoc]

/-- The device has taken the words of the sector `i`, which it does not have. -/
structure Refused (d : Device) (A : ℕ) (buf : ℕ → BitVec 8) (i : ℕ) (s : Device) : Prop where
  present : s.present = true
  phase : s.phase = .aborted
  capacity : s.capacity = d.capacity
  late : s.late = d.late
  sector : ∀ k b, b < 512 → s.sector k b =
    if A ≤ k ∧ k < A + i then buf (512 * (k - A) + b) else d.sector k b

/-- The device takes the words of a sector that it does not have. -/
lemma WrittenUpto.refused {buf : ℕ → BitVec 8} (h : WrittenUpto d A n buf i s)
    (hi : Offers .write d A n i) (hout : ¬Has d A n i) (h24 : i < 2 ^ 24) :
    Ends (Prog.bind waitBsy fun _ => Prog.bind waitDrq fun _ => writeWords (word buf) i)
      (fun _ => Refused d A buf i) s := by
  refine h.round hi h24 fun bytes hbytes => ?_
  have hcap : ({ s.settle with buffer := bytes } : Device).capacity = d.capacity :=
    h.transfer.capacity
  have hnot : ¬A + i < ({ s.settle with buffer := bytes } : Device).capacity := by
    rw [hcap]
    exact fun hlt => hout ⟨hi.1, hlt⟩
  rw [accept, if_neg hnot]
  exact ⟨h.transfer.present, rfl, h.transfer.capacity, h.transfer.late, h.sector⟩

/-- The driver waits forever for data after an error. -/
lemma Refused.hangs_wait {α : Type} {p : Prog Device α} {buf : ℕ → BitVec 8}
    (h : Refused d A buf i s) :
    Hangs (Prog.bind waitBsy fun _ => Prog.bind waitDrq fun _ => p) s :=
  hangs_bind_of_ends (ends_waitBsy h.present
    (hangs_bind_left (hangs_waitDrq h.present rfl (congrArg Phase.drq h.phase))))

end Requests

/-! ## Whole requests -/

/-- A request the device can serve: a number of sectors its register can hold, within its capacity.
-/
def Serves (d : Device) (lba sectors : BitVec 32) : Prop :=
  1 ≤ sectors.toNat ∧ sectors.toNat ≤ 256 ∧ lba.toNat % 2 ^ 28 + sectors.toNat ≤ d.capacity

instance (d : Device) (lba sectors : BitVec 32) : Decidable (Serves d lba sectors) :=
  inferInstanceAs (Decidable (_ ∧ _ ∧ _))

section Whole

variable {d : Device} {lba sectors : BitVec 32}

/-- The register of eight bits holds the number of sectors, a zero standing for `256`. -/
lemma asked_of_le {n : ℕ} (h₁ : 1 ≤ n) (h₂ : n ≤ 256) : asked n = n := by
  unfold asked
  split_ifs <;> omega

/-- Every sector of a request that is served is on the device. -/
lemma Serves.has (h : Serves d lba sectors) {i : ℕ} (hi : i < sectors.toNat) :
    Has d (lba.toNat % 2 ^ 28) (asked sectors.toNat) i := by
  obtain ⟨h₁, h₂, h₃⟩ := h
  rw [asked_of_le h₁ h₂]
  exact ⟨hi, by omega⟩

/-- A device takes no request to be for more than `256` sectors. -/
lemma asked_le (n : ℕ) : asked n ≤ 256 := by
  unfold asked
  split_ifs <;> omega

/-- The device has the sectors of a request up to the first that is too many or out of range. -/
lemma has_iff {A n i : ℕ} : Has d A n i ↔ i < min n (d.capacity - A) := by
  unfold Has
  omega

/-- A request the device does not serve reaches a sector that is not offered. -/
lemma le_of_not_serves (h : ¬Serves d lba sectors) (h₁ : 1 ≤ sectors.toNat) :
    min (asked sectors.toNat) (d.capacity - lba.toNat % 2 ^ 28) < sectors.toNat := by
  have hasked := asked_le sectors.toNat
  by_cases h₂ : sectors.toNat ≤ 256
  · have hrange : ¬lba.toNat % 2 ^ 28 + sectors.toNat ≤ d.capacity := fun hc => h ⟨h₁, h₂, hc⟩
    omega
  · omega

/-- **`disk_read`** with a request the device serves: it returns, for every timing of the device,
with the sectors in the buffer.

**Proof sketch.** The loop over the sectors with `ReadUpto`; the device offers every sector of the
request. -/
theorem ends_diskRead (hd : d.Waits) (h : Serves d lba sectors) (buffer : ℕ → BitVec 16) :
    Ends (diskRead lba sectors buffer) (ReadUpto d (lba.toNat % 2 ^ 28) sectors.toNat buffer
      sectors.toNat) d := by
  have hasked := asked_of_le h.1 h.2.1
  unfold diskRead
  refine ends_bind ((ends_request_transfer hd .read).mono fun _ s hs => ?_)
  refine hs.1.ends_wait (h.has h.1).offers ?_
  have hloop := ends_forRange (s := s.settle) (l := 0) (n := sectors.toNat) (b := buffer)
    (I := ReadUpto d (lba.toNat % 2 ^ 28) (asked sectors.toNat) buffer)
    (f := fun i buffer => do waitBsy; waitDrq; readWords i buffer)
    (fun i buffer' s _ hi hI => hI.next (h.has (by omega)) (by have := h.2.1; omega))
    ⟨hs.1.settle, hs.2, fun k => (if_neg (by omega)).symm⟩
  rw [hasked, Nat.zero_add] at hloop
  exact hloop

/-- **`disk_write`** with a request the device serves, up to the last command. -/
lemma ends_writeSectors (hd : d.Waits) (h : Serves d lba sectors) (buf : ℕ → BitVec 8)
    {α : Type} {p : Prog Device α} {Q : α → Device → Prop}
    (hp : ∀ s, WrittenUpto d (lba.toNat % 2 ^ 28) sectors.toNat buf sectors.toNat s → Ends p Q s) :
    Ends (do
      request lba sectors 0x30
      waitBsy
      waitDrq
      forRange (fun i _ => do waitBsy; waitDrq; writeWords (word buf) i) 0 sectors.toNat ()
      p) Q d := by
  have hasked := asked_of_le h.1 h.2.1
  refine ends_bind ((ends_request_transfer hd .write).mono fun _ s hs => ?_)
  refine hs.1.ends_wait (h.has h.1).offers ?_
  have hloop := ends_forRange (s := s.settle) (l := 0) (n := sectors.toNat) (b := ())
    (I := fun i _ => WrittenUpto d (lba.toNat % 2 ^ 28) (asked sectors.toNat) buf i)
    (f := fun i _ => do waitBsy; waitDrq; writeWords (word buf) i)
    (fun i _ s _ hi hI => hI.next (h.has (by omega)) (by have := h.2.1; omega))
    ⟨hs.1.settle, fun k b _ => ?_, nofun⟩
  · rw [hasked, Nat.zero_add] at hloop
    exact ends_bind (hloop.mono fun _ => hp)
  · rw [if_neg (by omega)]
    exact congrFun (congrFun hs.2 k) b

/-- The device takes in the `FLUSH CACHE` command `disk_write` ends with. -/
def Flushes (d : Device) (sectors : BitVec 32) : Prop := d.delay (d.periods + sectors.toNat) = 0

instance (d : Device) (sectors : BitVec 32) : Decidable (Flushes d sectors) :=
  inferInstanceAs (Decidable (_ = _))

/-- The device after a request to write. -/
structure Stored (d : Device) (lba sectors : BitVec 32) (buf : ℕ → BitVec 8) (s : Device) :
    Prop where
  ready : s.Ready
  capacity : s.capacity = d.capacity
  late : s.late = d.late
  delay : s.delay = d.delay
  periods : s.periods = d.periods + sectors.toNat + if Flushes d sectors then 2 else 1
  sector : ∀ k b, b < 512 → s.sector k b =
    if lba.toNat % 2 ^ 28 ≤ k ∧ k < lba.toNat % 2 ^ 28 + sectors.toNat
    then buf (512 * (k - lba.toNat % 2 ^ 28) + b) else d.sector k b
  flushed : s.flushed = if Flushes d sectors then s.sector else d.flushed
  ignored : s.ignored = d.ignored ++ if Flushes d sectors then [] else [(.command, 0xE7)]

/-- **`disk_write`** with a request the device serves: it returns, for every timing of the device,
with the data in the sectors; the last command is taken in if and only if the device is not busy
with the last sector.

**Proof sketch.** The loop over the sectors with `WrittenUpto`. The driver writes the last command
without waiting for the device, which is busy for `delay (periods + n)` status reads after the last
word. -/
theorem ends_diskWrite (hd : d.Waits) (h : Serves d lba sectors) (buf : ℕ → BitVec 8) :
    Ends (diskWrite lba sectors buf) (fun _ => Stored d lba sectors buf) d := by
  refine ends_writeSectors hd h buf (p := do out .command 0xE7; waitBsy) fun s hs => ?_
  have hbusy : s.busy = d.delay (d.periods + sectors.toNat) := hs.busy h.1
  have hphase : s.phase = .idle := hs.transfer.phase.trans (if_pos (Nat.le_refl _))
  by_cases hflush : Flushes d sectors
  · have hexec : s.outb .command 0xE7 = { s.enter .idle with flushed := s.sector } :=
      outb_of_waits ⟨hs.transfer.present, congrArg Phase.drq hphase⟩ (hbusy.trans hflush)
    refine ends_bind (ends_out hexec (ends_waitBsy hs.transfer.present ?_))
    refine ⟨⟨hs.transfer.present, rfl⟩, hs.transfer.capacity, hs.transfer.late, hs.transfer.delay,
      ?_, hs.sector, ?_, ?_⟩
    · rw [if_pos hflush]
      exact congrArg (· + 1) hs.transfer.periods
    · rw [if_pos hflush]
      rfl
    · rw [if_pos hflush, List.append_nil]
      exact hs.transfer.ignored
  · have hlisten : s.listens = false := by
      simp only [listens, hbusy, Bool.and_eq_false_iff, beq_eq_false_iff_ne]
      exact .inl (.inr hflush)
    have hdrop : s.outb .command 0xE7 = { s with ignored := s.ignored ++ [(.command, 0xE7)] } := by
      rw [outb, hlisten]
      rfl
    refine ends_bind (ends_out hdrop (ends_waitBsy hs.transfer.present ?_))
    refine ⟨⟨hs.transfer.present, hphase⟩, hs.transfer.capacity, hs.transfer.late,
      hs.transfer.delay, ?_, hs.sector, ?_,
      ?_⟩
    · rw [if_neg hflush]
      exact hs.transfer.periods
    · rw [if_neg hflush]
      exact hs.transfer.flushed
    · rw [if_neg hflush]
      exact congrArg (· ++ _) hs.transfer.ignored

/-- **The driver waits forever** with a request to read that the device does not serve, unless it is
for no sectors.

**Proof sketch.** The device has a first part of the sectors; the loop waits forever for the next,
or the driver does so before the loop if there is no first part. -/
theorem hangs_diskRead (hd : d.Waits) (h : ¬Serves d lba sectors) (h₁ : 1 ≤ sectors.toNat)
    (buffer : ℕ → BitVec 16) : Hangs (diskRead lba sectors buffer) d := by
  have hlt := le_of_not_serves h h₁
  have hle := asked_le sectors.toNat
  unfold diskRead
  refine hangs_bind_of_ends ((ends_request_transfer hd .read).mono fun _ s hs => ?_)
  by_cases hfirst : Has d (lba.toNat % 2 ^ 28) (asked sectors.toNat) 0
  · refine hangs_bind_of_ends (ends_waitBsy hs.1.present (hangs_bind_of_ends
      (ends_waitDrq hs.1.present rfl (congrArg Phase.drq (hs.1.settle.data hfirst.offers)) ?_)))
    refine hangs_forRange (I := ReadUpto d (lba.toNat % 2 ^ 28) (asked sectors.toNat) buffer)
      (m := min (asked sectors.toNat) (d.capacity - lba.toNat % 2 ^ 28))
      (fun i buffer' s _ hi hI => hI.next (has_iff.mpr (by omega)) (by omega))
      (fun buffer' s hI => hI.transfer.hangs_wait fun hoff => ?_) hlt
      ⟨hs.1.settle, hs.2, fun k => (if_neg (by omega)).symm⟩
    have := has_iff.mp (offers_read.mp hoff)
    omega
  · exact hs.1.hangs_wait fun hoff => hfirst (offers_read.mp hoff)

/-! ## Requests to write that the device refuses late -/

/-- The device has all sectors of the request but the last, and takes the words of this one before
it finds that out. -/
def Unnoticed (d : Device) (lba sectors : BitVec 32) : Prop :=
  d.late = true ∧ sectors.toNat ≤ 256 ∧
    min sectors.toNat (d.capacity - lba.toNat % 2 ^ 28) + 1 = sectors.toNat

instance (d : Device) (lba sectors : BitVec 32) : Decidable (Unnoticed d lba sectors) :=
  inferInstanceAs (Decidable (_ ∧ _ ∧ _))

/-- The loop of `disk_write` on a device that has the first `m` sectors of a request: before the
sector `i`, and after the sector `m`. -/
def Pending (d : Device) (A n : ℕ) (buf : ℕ → BitVec 8) (m i : ℕ) (s : Device) : Prop :=
  (i ≤ m ∧ WrittenUpto d A n buf i s) ∨ (i = m + 1 ∧ Refused d A buf m s)

/-- A round of the loop on a device that takes the words of the sector `m`. -/
lemma Pending.next {A n m i : ℕ} {buf : ℕ → BitVec 8} {s : Device} (h : Pending d A n buf m i s)
    (hm : m = min n (d.capacity - A)) (hlate : d.late = true) (hlt : m < n) (hi : i ≤ m)
    (h24 : n < 2 ^ 24) :
    Ends (Prog.bind waitBsy fun _ => Prog.bind waitDrq fun _ => writeWords (word buf) i)
      (fun _ => Pending d A n buf m (i + 1)) s := by
  obtain ⟨-, hw⟩ : i ≤ m ∧ WrittenUpto d A n buf i s := h.resolve_right fun hr => by omega
  by_cases hlast : i = m
  · subst hlast
    have hoffers : Offers .write d A n i := ⟨hlt, by rw [Device.offers, hlate]; simp⟩
    have hnot : ¬Has d A n i := fun hhas => by
      have := has_iff.mp hhas
      omega
    exact (hw.refused hoffers hnot (by omega)).mono fun _ t ht => .inr ⟨rfl, ht⟩
  · exact (hw.next (has_iff.mpr (by omega)) (by omega)).mono fun _ t ht => .inl ⟨by omega, ht⟩

/-- **The driver waits forever** with a request to write that the device does not serve, unless it
is for no sectors or only its last sector is refused, and that late.

**Proof sketch.** As for a read; a device that takes the words of the first sector it does not have
asks for no more after them. -/
theorem hangs_diskWrite (hd : d.Waits) (h : ¬Serves d lba sectors) (hun : ¬Unnoticed d lba sectors)
    (h₁ : 1 ≤ sectors.toNat) (buf : ℕ → BitVec 8) : Hangs (diskWrite lba sectors buf) d := by
  have hlt := le_of_not_serves h h₁
  have hle := asked_le sectors.toNat
  obtain ⟨m, hm⟩ : ∃ m, m = min (asked sectors.toNat) (d.capacity - lba.toNat % 2 ^ 28) := ⟨_, rfl⟩
  rw [← hm] at hlt
  unfold diskWrite
  refine hangs_bind_of_ends ((ends_request_transfer hd .write).mono fun _ s hs => ?_)
  have hstart : WrittenUpto d (lba.toNat % 2 ^ 28) (asked sectors.toNat) buf 0 s.settle := by
    refine ⟨hs.1.settle, fun k b _ => ?_, fun hpos => absurd hpos (Nat.lt_irrefl 0)⟩
    rw [if_neg (by omega)]
    exact congrFun (congrFun hs.2 k) b
  by_cases hfirst : Offers .write d (lba.toNat % 2 ^ 28) (asked sectors.toNat) 0
  · refine hangs_bind_of_ends (ends_waitBsy hs.1.present (hangs_bind_of_ends
      (ends_waitDrq hs.1.present rfl (congrArg Phase.drq (hs.1.settle.data hfirst))
        (hangs_bind_left ?_))))
    by_cases hmore : d.late = true ∧ m < asked sectors.toNat
    · have hrest : m + 1 < sectors.toNat := by
        by_contra hnot
        have hasked := asked_of_le h₁ (show sectors.toNat ≤ 256 by omega)
        rw [hasked] at hm
        exact hun ⟨hmore.1, by omega, by omega⟩
      refine hangs_forRange (m := m + 1)
        (I := fun i _ => Pending d (lba.toNat % 2 ^ 28) (asked sectors.toNat) buf m i)
        (fun i _ s _ hi hI => hI.next hm hmore.1 hmore.2 (by omega) (by omega))
        (fun _ s hI => ?_) hrest (.inl ⟨Nat.zero_le m, hstart⟩)
      obtain ⟨-, hr⟩ := hI.resolve_left fun hl => by omega
      exact hr.hangs_wait
    · refine hangs_forRange (m := m)
        (I := fun i _ => WrittenUpto d (lba.toNat % 2 ^ 28) (asked sectors.toNat) buf i)
        (fun i _ s _ hi hI => hI.next (has_iff.mpr (by omega)) (by omega))
        (fun _ s hI => hI.transfer.hangs_wait fun hoff => ?_) hlt hstart
      obtain ⟨hless, hoff⟩ := hoff
      rw [Nat.zero_add] at hless hoff
      rw [Device.offers, decide_eq_false (by omega), Bool.false_or, Bool.and_eq_true] at hoff
      exact hmore ⟨hoff.2, hless⟩
  · exact hs.1.hangs_wait hfirst

/-- **A request to write of which only the last sector is refused, and that late**: `disk_write`
returns, and has written the other sectors.

**Proof sketch.** The loop ends after the refused sector, so that the driver does not wait for the
device again before its last command, which the device takes in or not. -/
theorem ends_diskWrite_unnoticed (hd : d.Waits) (h : Unnoticed d lba sectors) (buf : ℕ → BitVec 8) :
    Ends (diskWrite lba sectors buf)
      (fun _ s => s.Waits ∧ s.capacity = d.capacity ∧ s.late = d.late ∧
      ∀ k b, b < 512 → s.sector k b =
        if lba.toNat % 2 ^ 28 ≤ k ∧ k < lba.toNat % 2 ^ 28 + (sectors.toNat - 1)
        then buf (512 * (k - lba.toNat % 2 ^ 28) + b) else d.sector k b) d := by
  obtain ⟨hlate, hle, hlast⟩ := h
  have hasked := asked_of_le (show 1 ≤ sectors.toNat by omega) hle
  obtain ⟨m, hm⟩ : ∃ m, m = min sectors.toNat (d.capacity - lba.toNat % 2 ^ 28) := ⟨_, rfl⟩
  rw [← hm] at hlast
  unfold diskWrite
  refine ends_bind ((ends_request_transfer hd .write).mono fun _ s hs => ?_)
  rw [hasked] at hs
  refine hs.1.ends_wait ⟨by omega, by rw [Device.offers, hlate]; simp⟩ ?_
  have hloop := ends_forRange (s := s.settle) (l := 0) (n := sectors.toNat) (b := ())
    (I := fun i _ => Pending d (lba.toNat % 2 ^ 28) sectors.toNat buf m i)
    (f := fun i _ => do waitBsy; waitDrq; writeWords (word buf) i)
    (fun i _ s _ hi hI => hI.next hm hlate (by omega) (by omega) (by omega))
    (.inl ⟨Nat.zero_le m, hs.1.settle, fun k b _ => ?_, fun hpos => absurd hpos (Nat.lt_irrefl 0)⟩)
  · refine ends_bind (hloop.mono fun _ t ht => ?_)
    obtain ⟨-, hr⟩ := ht.resolve_left fun hl => by omega
    have hsector := hr.sector
    rw [show m = sectors.toNat - 1 by omega] at hsector
    have hwaits : t.Waits := ⟨hr.present, congrArg Phase.drq hr.phase⟩
    by_cases hb : t.busy = 0
    · have hexec : t.outb .command 0xE7 = { t.enter .idle with flushed := t.sector } :=
        outb_of_waits hwaits hb
      exact ends_bind (ends_out hexec (ends_waitBsy hr.present
        ⟨⟨hr.present, rfl⟩, hr.capacity, hr.late, hsector⟩))
    · have hdrop : t.outb .command 0xE7 = { t with
        ignored := t.ignored ++ [(.command, 0xE7)] } := by
        refine if_neg ?_
        simp [listens, hb]
      exact ends_bind (ends_out hdrop (ends_waitBsy hr.present
        ⟨⟨hr.present, hwaits.phase⟩, hr.capacity, hr.late, hsector⟩))
  · rw [if_neg (by omega)]
    exact congrFun (congrFun hs.2 k) b

end Whole

/-! ## The start of the driver -/

section Start

variable {d : Device}

/-- `init_disk` takes the identification out of the device. -/
lemma ends_readIdentify (hb : d.busy = 0) (hph : d.phase = .identify 0) :
    Ends readIdentify (fun _ s => s = d.enter .idle) d := by
  refine ends_forRange (I := fun j _ s => s = if j = 256 then d.enter .idle
    else { d with phase := .identify j }) ?_ ?_
  · intro j identify s _ hj hs
    rw [if_neg (by omega)] at hs
    subst hs
    have hinw : ({ d with phase := .identify j } : Device).inw = (d.ident j,
        if j + 1 = 256 then d.enter .idle else { d with phase := .identify (j + 1) }) := by
      rw [inw, if_pos hb]
      rfl
    refine ends_act_bind ?_
    rw [hinw]
    exact ends_ret rfl
  · rw [if_neg (by omega), ← hph]

/-- The device is found when it offers its identification. -/
lemma ends_waitIdentify (hp : d.present = true) (hb : d.busy = 0) (hph : d.phase = .identify 0) :
    Ends waitIdentify (fun found s => found = true ∧ s = d) d := by
  have hstatus : d.status = (0x58, d) := by
    rw [status_of_settled hp hb, hph]
    rfl
  refine ends_poll (I := fun s => s = d) (fun _ => 0) ?_ ?_ rfl
  · intro s found hs hres
    rw [hs, hstatus] at hres ⊢
    exact ⟨by simpa using hres.symm, rfl⟩
  · intro s hs hres
    rw [hs, hstatus] at hres
    simp at hres

/-- A device that is there shows a status other than zero, and is the same after it but for the
time. -/
lemma status_spec (hp : d.present = true) :
    d.status.1 ≠ 0 ∧ d.status.2.settle = d.settle ∧ d.status.2.present = true := by
  by_cases hbusy : d.busy = 0
  · rw [status_of_settled hp hbusy]
    refine ⟨?_, rfl, hp⟩
    cases d.phase <;> simp [Phase.status]
  · rw [status_of_busy hp hbusy]
    refine ⟨fun hzero => busyBit_ne_zero (d.noise d.polls) ?_, ?_, hp⟩
    · have hbits : 0x80 ||| d.noise d.polls = 0 := hzero
      rw [hbits]
      exact BitVec.zero_and
    · simp only [settle, Device.mk.injEq, and_true, true_and]
      omega

/-- The device after the `IDENTIFY` command. -/
def Device.identifying (d : Device) : Device :=
  ({ d with drive := 0xA0, count := 0, lbaLo := 0, lbaMid := 0, lbaHi := 0 } : Device).enter
    (.identify 0)

/-- **`init_disk`** finds a device that waits for a command, and leaves it ready with its sectors as
they were. -/
theorem ends_initDisk (hd : d.Ready) (hb : d.busy = 0) :
    Ends initDisk (fun r s => r = ("Master device found!\n", 1) ∧ s.Ready ∧
      s.capacity = d.capacity ∧
      s.late = d.late ∧ s.sector = d.sector) d := by
  have hdrq := hd.waits.phase
  unfold initDisk
  refine ends_bind (ends_out (outb_of_waits ⟨hd.present, hdrq⟩ hb) ?_)
  refine ends_bind (ends_out (outb_of_waits ⟨hd.present, hdrq⟩ hb) ?_)
  refine ends_bind (ends_out (outb_of_waits ⟨hd.present, hdrq⟩ hb) ?_)
  refine ends_bind (ends_out (outb_of_waits ⟨hd.present, hdrq⟩ hb) ?_)
  refine ends_bind (ends_out (outb_of_waits ⟨hd.present, hdrq⟩ hb) ?_)
  refine ends_bind (ends_out (t := d.identifying) (outb_of_waits ⟨hd.present, hdrq⟩ hb) ?_)
  obtain ⟨hzero, hsettle, hpresent⟩ := status_spec (d := d.identifying) hd.present
  refine ends_act_bind ?_
  rw [if_neg hzero]
  refine ends_bind (ends_waitBsy hpresent ?_)
  rw [hsettle]
  refine ends_bind ((ends_waitIdentify (d := d.identifying.settle) hd.present rfl rfl).mono
    fun found s hs => ?_)
  obtain ⟨rfl, rfl⟩ := hs
  rw [if_neg (by simp)]
  refine ends_bind ((ends_readIdentify (d := d.identifying.settle) rfl rfl).mono fun _ s hs => ?_)
  subst hs
  exact ends_ret ⟨rfl, ⟨hd.present, rfl⟩, rfl, rfl, rfl⟩

/-- **Without a device** `init_disk` says so and returns an error, and every request waits forever.
-/
theorem ends_initDisk_of_absent (hp : d.present = false) :
    Ends initDisk (fun r s => r = ("No device found :(\n", -1) ∧ s.present = false) d := by
  have hout : ∀ (s : Device) r v, s.present = false → (s.outb r v).present = false := by
    intro s r v hs
    have hdrop : s.outb r v = { s with ignored := s.ignored ++ [(r, v)] } :=
      if_neg (by simp [listens, hs])
    rw [hdrop]
    exact hs
  unfold initDisk
  refine ends_bind (ends_out rfl ?_)
  refine ends_bind (ends_out rfl ?_)
  refine ends_bind (ends_out rfl ?_)
  refine ends_bind (ends_out rfl ?_)
  refine ends_bind (ends_out rfl ?_)
  refine ends_bind (ends_out rfl ?_)
  generalize hs : outb .command _ _ = s
  have habsent : s.present = false := by
    rw [← hs]
    exact hout _ _ _ (hout _ _ _ (hout _ _ _ (hout _ _ _ (hout _ _ _ (hout _ _ _ hp)))))
  refine ends_act_bind ?_
  rw [status_of_absent habsent, if_pos rfl]
  exact ends_ret ⟨rfl, habsent⟩

end Start

end Ata

end AlphaOS
