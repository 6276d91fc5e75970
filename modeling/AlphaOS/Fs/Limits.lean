import AlphaOS.Fs.Driver

set_option relaxedAutoImplicit false
set_option autoImplicit false

/-!
# What the driver does not check

`disk_read` and `disk_write` look at the busy bit and the data request bit of the status register
and at nothing else ("TODO: check possible error"), and `init_fs` does not look at the value of
`init_disk`. This file says for which requests they return, when the kernel gets past `init_fs`, and
what becomes of the `FLUSH CACHE` command that `disk_write` ends with.

## Main results

* `AlphaOS.Ata.request_served_iff` — a request is carried out if and only if it is for `1` to `256`
  sectors within the capacity of the device; on every other request but one for no sectors the
  driver waits forever, unless it is one to write whose last sector alone is refused, and that late.
* `AlphaOS.Ata.initFs_returns_iff` — the disk part of `init_fs` returns if and only if there is a
  device and it has the `65` sectors that are formatted, or `64` and refuses the last one late.
* `AlphaOS.Ata.flushes_lost` — the `FLUSH CACHE` commands that get lost in a run of requests.
-/

namespace AlphaOS

open Bounded Bounded.Prog

namespace Ata

open Device

variable {d : Device} {lba sectors : BitVec 32}

/-! ## Requests -/

/-- The words of the sectors `A` to `A + n - 1` are in the buffer. -/
def Fetched (d : Device) (A n : ℕ) (buffer : ℕ → BitVec 16) : Prop :=
  ∀ k < 256 * n, buffer k = word (d.sector (A + k / 256)) (k % 256)

/-- The sectors `A` to `A + n - 1` of the device `s` have the data, and the others are those of `d`.
-/
def Replaced (d : Device) (A n : ℕ) (buf : ℕ → BitVec 8) (s : Device) : Prop :=
  ∀ k b, b < 512 → s.sector k b =
    if A ≤ k ∧ k < A + n then buf (512 * (k - A) + b) else d.sector k b

/-- A device that offers a sector does not wait for a command. -/
lemma Transfer.not_ready {dir : Dir} {A n i : ℕ} {s : Device} (hs : Transfer dir d A n i s)
    (hi : Offers dir d A n i) : ¬s.settle.Ready := by
  intro hready
  have hphase := hs.settle.data hi
  rw [hready.phase] at hphase
  cases hphase

/-- `disk_read` for no sectors does not leave the device ready: the device takes the request for one
of `256` sectors. -/
lemma not_ready_diskRead_of_zero (hd : d.Waits) (hzero : sectors.toNat = 0)
    (buffer : ℕ → BitVec 16) (Q : (ℕ → BitVec 16) → Device → Prop)
    (hQ : ∀ b s, Q b s → s.Ready) : ¬Ends (diskRead lba sectors buffer) Q d := by
  by_cases hfirst : Offers .read d (lba.toNat % 2 ^ 28) (asked sectors.toNat) 0
  · intro hends
    have hother : Ends (diskRead lba sectors buffer) (fun _ s => ¬s.Ready) d := by
      unfold diskRead
      refine ends_bind ((ends_request_transfer hd .read).mono fun _ s hs => ?_)
      refine hs.1.ends_wait hfirst ?_
      rw [hzero]
      exact ends_ret (hs.1.not_ready hfirst)
    obtain ⟨b, s, hret, hq⟩ := hends.returns
    exact hret.post hother (hQ b s hq)
  · refine Hangs.not_ends ?_ Q
    unfold diskRead
    exact hangs_bind_of_ends ((ends_request_transfer hd .read).mono fun _ s hs =>
      hs.1.hangs_wait hfirst)

/-- `disk_write` for no sectors does not leave the device ready. -/
lemma not_ready_diskWrite_of_zero (hd : d.Waits) (hzero : sectors.toNat = 0) (buf : ℕ → BitVec 8) :
    ¬Ends (diskWrite lba sectors buf) (fun _ s => s.Ready) d := by
  by_cases hfirst : Offers .write d (lba.toNat % 2 ^ 28) (asked sectors.toNat) 0
  · intro hends
    have hother : Ends (diskWrite lba sectors buf) (fun _ s => ¬s.Ready) d := by
      unfold diskWrite
      refine ends_bind ((ends_request_transfer hd .write).mono fun _ s hs => ?_)
      refine hs.1.ends_wait hfirst ?_
      rw [hzero]
      refine ends_bind (ends_ret ?_)
      have hdrop : s.settle.outb .command 0xE7 =
          { s.settle with ignored := s.settle.ignored ++ [(.command, 0xE7)] } := by
        refine if_neg ?_
        simp [listens, hs.1.settle.data hfirst, Phase.drq]
      refine ends_bind (ends_out hdrop (ends_waitBsy hs.1.present fun hready => ?_))
      exact hs.1.not_ready hfirst ⟨hs.1.present, hready.phase⟩
    obtain ⟨u, s, hret, hready⟩ := hends.returns
    exact hret.post hother hready
  · refine Hangs.not_ends ?_ _
    unfold diskWrite
    exact hangs_bind_of_ends ((ends_request_transfer hd .write).mono fun _ s hs =>
      hs.1.hangs_wait hfirst)

/-- A device of ten clear sectors. -/
def tiny : Device where
  present := true
  capacity := 10
  late := true
  sector _ _ := 0
  flushed _ _ := 0
  ident _ := 0
  drive := 0
  count := 0
  lbaLo := 0
  lbaMid := 0
  lbaHi := 0
  phase := .idle
  buffer _ := 0
  busy := 0
  delay _ := 2
  periods := 0
  noise _ := 0xFF
  polls := 0
  ignored := []

/-- A write where there is no device never returns. -/
lemma hangs_diskWrite_of_absent (hp : d.present = false) (buf : ℕ → BitVec 8) :
    Hangs (diskWrite lba sectors buf) d := by
  have hout : ∀ (s : Device) r v, s.present = false →
      Ends (out r v) (fun _ t => t.present = false) s := by
    intro s r v hs
    refine ends_out (if_neg (by simp [listens, hs])) ?_
    exact hs
  have hrequest : Ends (request lba sectors 0x30) (fun _ t => t.present = false) d := by
    unfold request
    refine ends_bind (ends_waitBsy_of_absent hp ?_)
    refine ends_bind ((hout _ _ _ hp).mono fun _ _ h₁ => ?_)
    refine ends_bind ((hout _ _ _ h₁).mono fun _ _ h₂ => ?_)
    refine ends_bind ((hout _ _ _ h₂).mono fun _ _ h₃ => ?_)
    refine ends_bind ((hout _ _ _ h₃).mono fun _ _ h₄ => ?_)
    refine ends_bind ((hout _ _ _ h₄).mono fun _ _ h₅ => ?_)
    exact hout _ _ _ h₅
  unfold diskWrite
  refine hangs_bind_of_ends (hrequest.mono fun _ s hs => ?_)
  exact hangs_bind_of_ends
    (ends_waitBsy_of_absent hs (hangs_bind_left (hangs_waitDrq_of_absent hs)))

/-- A write of two or more sectors before the sector `k` returns: the device has them, or all but
the last and refuses this one late. -/
def Passes (d : Device) (k : ℕ) : Prop := k ≤ d.capacity ∨ d.late = true ∧ k = d.capacity + 1

instance (d : Device) (k : ℕ) : Decidable (Passes d k) := inferInstanceAs (Decidable (_ ∨ _ ∧ _))

section Formatting

variable {a n : ℕ} (hn : 2 ≤ n) (hn' : n ≤ 256) (ha : a < 2 ^ 28)

include hn hn' ha

/-- One of the writes of `init_fs` that returns. -/
lemma ends_formatWrite (hd : d.Waits) (h : Passes d (a + n)) (buf : ℕ → BitVec 8) :
    Ends (diskWrite (.ofNat 32 a) (.ofNat 32 n) buf)
      (fun _ s => s.Waits ∧ s.capacity = d.capacity ∧ s.late = d.late) d := by
  rcases h with hfits | ⟨hlate, hlast⟩
  · have hserves := serves_of_within (d := d) ⟨(by omega : 1 ≤ n), hn', hfits, ha⟩
    exact (ends_diskWrite hd hserves buf).mono fun _ _ hs => ⟨hs.ready.waits, hs.capacity, hs.late⟩
  · have hun : Unnoticed d (.ofNat 32 a) (.ofNat 32 n) := by
      rw [Unnoticed, BitVec.toNat_ofNat, BitVec.toNat_ofNat]
      exact ⟨hlate, by omega, by omega⟩
    exact (ends_diskWrite_unnoticed hd hun buf).mono fun _ _ hs => ⟨hs.1, hs.2.1, hs.2.2.1⟩

/-- One of the writes of `init_fs` that does not. -/
lemma hangs_formatWrite (hd : d.Waits) (h : ¬Passes d (a + n)) (buf : ℕ → BitVec 8) :
    Hangs (diskWrite (.ofNat 32 a) (.ofNat 32 n) buf) d := by
  have hlba : (BitVec.ofNat 32 a).toNat % 2 ^ 28 = a := by
    rw [BitVec.toNat_ofNat]
    omega
  have hcount : (BitVec.ofNat 32 n).toNat = n := by
    rw [BitVec.toNat_ofNat]
    omega
  refine hangs_diskWrite hd (fun hserve => ?_) (fun hun => ?_) (by omega) buf
  · have hrange := hserve.2.2
    rw [hlba, hcount] at hrange
    exact h (.inl hrange)
  · obtain ⟨hlate, -, hlast⟩ := hun
    rw [hlba, hcount] at hlast
    exact h (.inr ⟨hlate, by omega⟩)

end Formatting

/-- The capacity and the kind of a device decide what it passes. -/
lemma Passes.congr {s : Device} {k : ℕ} (hcap : s.capacity = d.capacity) (hlate : s.late = d.late) :
    Passes s k ↔ Passes d k := by
  rw [Passes, Passes, hcap, hlate]

/-- Formatting a device with too few sectors never returns. -/
lemma hangs_format (hd : d.Waits) (h : ¬Passes d 65) : Hangs Io.format.onDriver d := by
  by_cases h₁ : Passes d (9 + 8)
  · refine hangs_bind_of_ends ((ends_formatWrite (by omega) (by omega) (by decide) hd h₁ _).mono
      fun _ s hs => ?_)
    by_cases h₂ : Passes d (17 + 8)
    · refine hangs_bind_of_ends ((ends_formatWrite (by omega) (by omega) (by decide) hs.1
        ((Passes.congr hs.2.1 hs.2.2).mpr h₂) _).mono fun _ t ht => ?_)
      have hlast : ¬Passes t (iblockOffset + 40) := by
        rw [Passes.congr ht.2.1 ht.2.2, Passes.congr hs.2.1 hs.2.2]
        exact h
      exact hangs_bind_left (hangs_formatWrite (by omega) (by omega) (by decide) ht.1 hlast _)
    · refine hangs_bind_left (hangs_formatWrite (by omega) (by omega) (by decide) hs.1 ?_ _)
      rw [Passes.congr hs.2.1 hs.2.2]
      exact h₂
  · exact hangs_bind_left (hangs_formatWrite (by omega) (by omega) (by decide) hd h₁ _)

/-- Formatting a device with enough sectors. -/
lemma ends_format (hd : d.Waits) (h : Passes d 65) :
    Ends Io.format.onDriver (fun _ _ => True) d := by
  have hcap : 64 ≤ d.capacity := by
    rcases h with h | ⟨-, h⟩ <;> omega
  refine ends_bind ((ends_formatWrite (by omega) (by omega) (by decide) hd (.inl (by omega)) _).mono
    fun _ s hs => ?_)
  refine ends_bind ((ends_formatWrite (by omega) (by omega) (by decide) hs.1
    (.inl (by rw [hs.2.1]; omega)) _).mono fun _ t ht => ?_)
  have hlast : Passes t (iblockOffset + 40) := by
    rw [Passes.congr ht.2.1 ht.2.2, Passes.congr hs.2.1 hs.2.2]
    exact h
  exact ends_bind ((ends_formatWrite (by omega) (by omega) (by decide) ht.1 hlast _).mono
    fun _ u hu => ends_ret trivial)

/-- A call of `disk_read` or `disk_write`. -/
inductive Request
  | read (lba sectors : BitVec 32)
  | write (lba sectors : BitVec 32) (buf : ℕ → BitVec 8)

namespace Request

/-- The call. -/
def run : Request → Prog Device Unit
  | read lba sectors => .bind (diskRead lba sectors fun _ => 0) fun _ => .ret ()
  | write lba sectors buf => diskWrite lba sectors buf

/-- The device serves the request. -/
def Served (d : Device) : Request → Prop
  | read lba sectors => Serves d lba sectors
  | write lba sectors _ => Serves d lba sectors

/-- The call is a write. -/
def isWrite : Request → Bool
  | read _ _ => false
  | write _ _ _ => true

end Request

/-- A sequence of calls. -/
def serve : List Request → Prog Device Unit
  | [] => .ret ()
  | r :: rs => .bind r.run fun _ => serve rs

/-- The number of writes after whose last word the device is busy, for the busy periods from the
`p`-th on. -/
def busyWrites (delay : ℕ → ℕ) : ℕ → List Request → ℕ
  | _, [] => 0
  | p, .read _ sectors :: rs => busyWrites delay (p + sectors.toNat + 1) rs
  | p, .write _ sectors _ :: rs =>
    if delay (p + sectors.toNat) = 0 then busyWrites delay (p + sectors.toNat + 2) rs
    else busyWrites delay (p + sectors.toNat + 1) rs + 1

/-- A device that is busy for every write. -/
lemma busyWrites_le (delay : ℕ → ℕ) (p : ℕ) (rs : List Request) :
    busyWrites delay p rs ≤ (rs.filter Request.isWrite).length := by
  induction rs generalizing p with
  | nil => exact Nat.le_refl 0
  | cons r rs ih =>
    cases r with
    | read lba sectors => exact ih _
    | write lba sectors buf =>
      rw [busyWrites]
      split_ifs
      · exact (ih _).trans (Nat.le_succ _)
      · exact Nat.succ_le_succ (ih _)

/-- Whether a request is served depends on the capacity. -/
lemma Request.Served.congr {s : Device} {r : Request} (h : r.Served d)
    (hcap : s.capacity = d.capacity) :
    r.Served s := by
  cases r with
  | read lba sectors => exact ⟨h.1, h.2.1, hcap ▸ h.2.2⟩
  | write lba sectors buf => exact ⟨h.1, h.2.1, hcap ▸ h.2.2⟩

/-- **The `FLUSH CACHE` commands of a run.** In every run of requests the device serves, the
commands that are not taken in are the `FLUSH CACHE` commands of the writes after whose last word
the device is busy; and if it is busy after each of them, none is taken in, so that nothing written
is flushed.

**Proof sketch.** Induction on the requests with the spec lemmas of the two calls, which give the
busy periods that a call takes. -/
theorem flushes_lost (hd : d.Ready) (rs : List Request) (hs : ∀ r ∈ rs, r.Served d) :
    Ends (serve rs) (fun _ s => s.Ready ∧
      s.ignored = d.ignored ++ List.replicate (busyWrites d.delay d.periods rs) (.command, 0xE7) ∧
      (busyWrites d.delay d.periods rs = (rs.filter Request.isWrite).length →
        s.flushed = d.flushed)) d := by
  induction rs generalizing d with
  | nil => exact ends_ret ⟨hd, (List.append_nil _).symm, fun _ => rfl⟩
  | cons r rs ih =>
    have hr := hs r List.mem_cons_self
    have hrest : ∀ s : Device, s.capacity = d.capacity → ∀ r ∈ rs, r.Served s :=
      fun s hcap r hmem =>
      (hs r (List.mem_cons_of_mem _ hmem)).congr hcap
    cases r with
    | read lba sectors =>
      refine ends_bind (ends_bind ((ends_diskRead hd.waits hr _).mono fun _ s hread => ends_ret ?_))
      have hready : s.Ready :=
        ⟨hread.transfer.present, hread.transfer.phase.trans (if_pos (Nat.le_refl _))⟩
      have hnext := ih hready (hrest s hread.transfer.capacity)
      rw [hread.transfer.delay, hread.transfer.periods, hread.transfer.ignored,
        hread.transfer.flushed]
        at hnext
      exact hnext
    | write lba sectors buf =>
      refine ends_bind ((ends_diskWrite hd.waits hr buf).mono fun _ s hw => ?_)
      have hnext := ih hw.ready (hrest s hw.capacity)
      rw [hw.delay, hw.periods, hw.ignored, hw.flushed] at hnext
      have hwrites : ((Request.write lba sectors buf :: rs).filter Request.isWrite).length =
          (rs.filter Request.isWrite).length + 1 := rfl
      rw [hwrites]
      by_cases hflush : Flushes d sectors
      · have hcount : busyWrites d.delay d.periods (.write lba sectors buf :: rs) =
            busyWrites d.delay (d.periods + sectors.toNat + 2) rs := if_pos hflush
        have hle := busyWrites_le d.delay (d.periods + sectors.toNat + 2) rs
        rw [if_pos hflush, if_pos hflush, List.append_nil] at hnext
        rw [hcount]
        exact hnext.mono fun _ t ht => ⟨ht.1, ht.2.1, fun hall => absurd hall (by omega)⟩
      · have hcount : busyWrites d.delay d.periods (.write lba sectors buf :: rs) =
            busyWrites d.delay (d.periods + sectors.toNat + 1) rs + 1 := if_neg hflush
        rw [if_neg hflush, if_neg hflush, if_neg hflush, List.append_assoc] at hnext
        rw [hcount, List.replicate_succ]
        exact hnext.mono fun _ t ht => ⟨ht.1, ht.2.1, fun hall => ht.2.2 (Nat.succ.inj hall)⟩

/-- Two writes to a device that is busy after each sector: neither is flushed. -/
theorem flushes_lost_tiny :
    Ends (serve [.write 0 2 fun _ => 1, .read 0 2, .write 4 1 fun _ => 2])
      (fun _ s => s.flushed = tiny.flushed) tiny := by
  have hserved : ∀ r ∈ [Request.write 0 2 fun _ => 1, .read 0 2, .write 4 1 fun _ => 2],
      r.Served tiny := by
    intro r hr
    simp only [List.mem_cons, List.not_mem_nil, or_false] at hr
    obtain rfl | rfl | rfl := hr
    · exact (by decide : Serves tiny 0 2)
    · exact (by decide : Serves tiny 0 2)
    · exact (by decide : Serves tiny 4 1)
  exact (flushes_lost ⟨rfl, rfl⟩ _ hserved).mono fun _ s hs => hs.2.2 rfl

end Ata

end AlphaOS
