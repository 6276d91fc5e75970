import Mathlib.Data.List.Range
import AlphaOS.Sched.Scheduler

set_option relaxedAutoImplicit false
set_option autoImplicit false

/-!
# The terminal's input buffer

The input side of `kernel/tty.c`: the keyboard puts characters into `stdin_buffer` with
`write_tty_buffer`, and `SYS_READ` takes them out with `tty_read`. Both indices run to the end of
the array and start over at different moments: the writer when the reader has caught up with it at
the end, the reader when it is asked for the character after the last one.

## Main definitions

* `AlphaOS.Console` — the static variables of `tty.c` beside the scheduler they refer to.
* `AlphaOS.Console.writeTtyBuffer`, `ttyRead`, `stdinBufferHasLine` — the functions of the source.
* `AlphaOS.Console.Unread` — the characters that are in the buffer, in order.
* `AlphaOS.Console.Room` — the next character has a place.
* `AlphaOS.Stream` — the console with all that has been written to it and read from it.

## Main results

* `AlphaOS.Console.Unread.ttyRead` — a read returns the oldest characters.
* `AlphaOS.Console.Unread.store` — a write with room appends its character.
* `AlphaOS.Stream.fifo_iff_room` — what is read is what was written as long as every write has room,
  and a write without room loses characters.
* `AlphaOS.Stream.character_lost` — a run that loses a character.

## Design

`terminal_write` is a list of the characters echoed. A read returns the list of the bytes it stores
in the caller's buffer; its length is the value returned.
-/

namespace AlphaOS

/-- `STDIN_BUFFER_SIZE`. -/
def stdinBufferSize : ℕ := 4096

/-- `ECHO_FLAG`. -/
def echoFlag : Word := 2#32

/-- The character `'\n'`. -/
def newline : UInt8 := 10

/-- The variables of `tty.c` that the input side uses. -/
structure Console where
  /-- The scheduler, for `awaiting_stdin` and `wake_stdin_task`. -/
  sched : Sched
  stdinBuffer : ℕ → UInt8
  bufferHead : ℕ
  bufferTail : ℕ
  flags : Word
  /-- The characters echoed with `terminal_write`. -/
  screen : List UInt8

namespace Console

variable {k k' : Console} {u : List UInt8} {c : UInt8} {len : ℕ}

/-- `if (flags & ECHO_FLAG) terminal_write(&c, 1)`. -/
def echo (c : UInt8) (k : Console) : Console :=
  if k.flags &&& echoFlag ≠ 0 then { k with screen := k.screen ++ [c] } else k

/-- The first store of `write_tty_buffer`, while there is room before the end of the array. -/
def store (c : UInt8) (k : Console) : Console :=
  if k.bufferTail < stdinBufferSize then
    { k with
      stdinBuffer := Function.update k.stdinBuffer k.bufferTail c
      bufferTail := k.bufferTail + 1 }
  else k

/-- The second store of `write_tty_buffer`, which starts over when the reader is at the end too. -/
def storeWrapped (c : UInt8) (k : Console) : Console :=
  if stdinBufferSize ≤ k.bufferTail ∧ k.bufferHead = k.bufferTail then
    { k with stdinBuffer := Function.update k.stdinBuffer 0 c, bufferTail := 1 }
  else k

/-- `if (c == '\n') wake_stdin_task()`. -/
def wakeReader (c : UInt8) (k : Console) : Console :=
  if c = newline then { k with sched := k.sched.wakeStdinTask } else k

/-- `write_tty_buffer`. -/
def writeTtyBuffer (c : UInt8) (k : Console) : Console :=
  if (k.echo c).sched.awaitingStdin = 0 then k.echo c
  else (((k.echo c).store c).storeWrapped c).wakeReader c

/-- The index `tty_read` takes its next character from. -/
def readIndex (k : Console) : ℕ := if stdinBufferSize ≤ k.bufferHead then 0 else k.bufferHead

/-- `tty_read`: the bytes stored in the caller's buffer, and the console after the call. -/
def ttyRead : ℕ → Console → List UInt8 × Console
  | 0, k => ([], k)
  | len + 1, k =>
    if k.bufferHead = k.bufferTail then ([], k)
    else
      (k.stdinBuffer k.readIndex :: (ttyRead len { k with bufferHead := k.readIndex + 1 }).1,
        (ttyRead len { k with bufferHead := k.readIndex + 1 }).2)

/-- `stdin_buffer_has_line`, with its values `1` and `-1` as `true` and `false`. -/
def stdinBufferHasLine (k : Console) : Bool :=
  (List.range' k.bufferHead (k.bufferTail - k.bufferHead)).any fun i => k.stdinBuffer i == newline

/-! ## The characters in the buffer -/

/-- The unread characters are `u`: those between the two indices or, when the writer has started
over and the reader has not, those before the writer. -/
def Unread (k : Console) (u : List UInt8) : Prop :=
  (k.bufferHead ≤ k.bufferTail ∧ k.bufferTail ≤ stdinBufferSize ∧
      u = (List.range' k.bufferHead (k.bufferTail - k.bufferHead)).map k.stdinBuffer) ∨
    (k.bufferHead = stdinBufferSize ∧ 0 < k.bufferTail ∧ k.bufferTail < stdinBufferSize ∧
      u = (List.range' 0 k.bufferTail).map k.stdinBuffer)

/-- The next character has a place: before the end of the array, unless storing it there would bring
the writer to the end while the reader is there, or at the start when both are at the end. -/
def Room (k : Console) : Prop :=
  (k.bufferTail < stdinBufferSize ∧
      ¬ (k.bufferTail + 1 = stdinBufferSize ∧ k.bufferHead = stdinBufferSize)) ∨
    (k.bufferTail = stdinBufferSize ∧ k.bufferHead = stdinBufferSize)

instance (k : Console) : Decidable k.Room := inferInstanceAs (Decidable (_ ∨ _))

/-- The unread characters depend on the buffer and its indices only. -/
lemma Unread.congr (h : k.Unread u) (hbuf : k'.stdinBuffer = k.stdinBuffer)
    (hhead : k'.bufferHead = k.bufferHead) (htail : k'.bufferTail = k.bufferTail) :
    k'.Unread u := by
  unfold Unread at h ⊢
  rw [hbuf, hhead, htail]
  exact h

/-- When the indices are equal nothing is unread. -/
lemma Unread.eq_nil (h : k.Unread u) (he : k.bufferHead = k.bufferTail) : u = [] := by
  rcases h with ⟨-, -, rfl⟩ | ⟨hhead, -, hlt, -⟩
  · simp [he]
  · omega

/-- When they are not, the oldest unread character is at the index `tty_read` takes it from. -/
lemma Unread.eq_cons (h : k.Unread u) (hne : k.bufferHead ≠ k.bufferTail) :
    ∃ u', u = k.stdinBuffer k.readIndex :: u' ∧
      Unread { k with bufferHead := k.readIndex + 1 } u' := by
  rcases h with ⟨hle, hsize, rfl⟩ | ⟨hhead, hpos, hlt, rfl⟩
  · have hidx : k.readIndex = k.bufferHead := if_neg (by omega)
    rw [hidx]
    obtain ⟨m, hm⟩ : ∃ m, k.bufferTail - k.bufferHead = m + 1 :=
      ⟨k.bufferTail - k.bufferHead - 1, by omega⟩
    refine ⟨_, by rw [hm, List.range'_succ, List.map_cons], .inl ⟨by dsimp only; omega, hsize, ?_⟩⟩
    dsimp only
    rw [show k.bufferTail - (k.bufferHead + 1) = m by omega]
  · have hidx : k.readIndex = 0 := if_pos (by omega)
    rw [hidx]
    obtain ⟨m, hm⟩ : ∃ m, k.bufferTail = m + 1 := ⟨k.bufferTail - 1, by omega⟩
    refine ⟨_, by rw [hm, List.range'_succ, List.map_cons], .inl ⟨by dsimp only; omega, ?_, ?_⟩⟩
    · exact hlt.le
    · dsimp only
      rw [hm, Nat.zero_add, Nat.add_sub_cancel]

/-- **A read returns the oldest characters**, as many as it is asked for if there are so many.

**Proof sketch.** Induction on the length asked for; each round takes the oldest character
(`Unread.eq_cons`) and the loop breaks when nothing is unread. -/
theorem Unread.ttyRead (h : k.Unread u) (len : ℕ) :
    (k.ttyRead len).1 = u.take len ∧ (k.ttyRead len).2.Unread (u.drop len) := by
  induction len generalizing k u with
  | zero => exact ⟨by simp [Console.ttyRead], by simpa [Console.ttyRead] using h⟩
  | succ len ih =>
    rw [Console.ttyRead]
    split_ifs with he
    · obtain rfl := h.eq_nil he
      exact ⟨by simp, by simpa using h⟩
    · obtain ⟨u', rfl, hu'⟩ := h.eq_cons he
      obtain ⟨hout, hrest⟩ := ih hu'
      refine ⟨?_, ?_⟩
      · rw [hout, List.take_succ_cons]
      · rw [List.drop_succ_cons]
        exact hrest

/-- Characters before the place of a store are not affected by it. -/
lemma map_range'_update (f : ℕ → UInt8) {a m i : ℕ} (hi : a + m ≤ i) :
    (List.range' a m).map (Function.update f i c) = (List.range' a m).map f := by
  refine List.map_congr_left fun x hx => Function.update_of_ne ?_ _ _
  have := List.mem_range'_1.mp hx
  omega

/-- Storing a character behind a range of the buffer appends it. -/
lemma map_range'_append (f : ℕ → UInt8) (a m : ℕ) :
    (List.range' a (m + 1)).map (Function.update f (a + m) c) =
      (List.range' a m).map f ++ [c] := by
  rw [List.range'_1_concat, List.map_append, map_range'_update f (Nat.le_refl _)]
  simp

/-- **A write with room appends its character** to the unread ones. -/
theorem Unread.store (h : k.Unread u) (hroom : k.Room) :
    ((k.store c).storeWrapped c).Unread (u ++ [c]) := by
  rcases h with ⟨hle, hsize, rfl⟩ | ⟨hhead, hpos, hlt, rfl⟩
  · by_cases htail : k.bufferTail < stdinBufferSize
    · have hstore : (k.store c).storeWrapped c = k.store c := by
        unfold storeWrapped Console.store
        rw [if_pos htail, if_neg (by dsimp only; omega)]
      rw [hstore]
      unfold Console.store
      rw [if_pos htail]
      refine .inl ⟨by dsimp only; omega, htail, ?_⟩
      dsimp only
      rw [show k.bufferTail + 1 - k.bufferHead = k.bufferTail - k.bufferHead + 1 by omega]
      have happend := map_range'_append (c := c) k.stdinBuffer k.bufferHead
        (k.bufferTail - k.bufferHead)
      rw [Nat.add_sub_cancel' hle] at happend
      exact happend.symm
    · -- both indices are at the end, and the writer starts over
      have hboth : k.bufferTail = stdinBufferSize ∧ k.bufferHead = stdinBufferSize :=
        hroom.resolve_left fun hr => htail hr.1
      have hstore : k.store c = k := if_neg htail
      rw [hstore]
      unfold storeWrapped
      rw [if_pos ⟨by omega, by omega⟩]
      refine .inr ⟨hboth.2, Nat.one_pos, (by decide : 1 < stdinBufferSize), ?_⟩
      simp [hboth]
  · have htail : k.bufferTail + 1 < stdinBufferSize := by
      rcases hroom with ⟨-, hno⟩ | ⟨he, -⟩
      · omega
      · omega
    have hstore : (k.store c).storeWrapped c = k.store c := by
      unfold storeWrapped Console.store
      rw [if_pos hlt, if_neg (by dsimp only; omega)]
    rw [hstore]
    unfold Console.store
    rw [if_pos hlt]
    refine .inr ⟨hhead, Nat.succ_pos _, htail, ?_⟩
    have happend := map_range'_append (c := c) k.stdinBuffer 0 k.bufferTail
    rw [Nat.zero_add] at happend
    exact happend.symm

/-- A write without room loses characters: no more are unread after it than before, and only the new
one if the reader is at the end. -/
lemma Unread.store_of_not_room (h : k.Unread u) (hroom : ¬ k.Room) :
    ∃ u', ((k.store c).storeWrapped c).Unread u' ∧ u'.length ≤ u.length ∧
      (k.bufferHead = stdinBufferSize → u' = [c]) := by
  unfold Room at hroom
  rcases h with ⟨hle, hsize, rfl⟩ | ⟨hhead, hpos, hlt, rfl⟩
  · -- the writer is at the end and the reader is not: the character is dropped
    have hstore : k.store c = k := if_neg (by omega)
    have hwrapped : k.storeWrapped c = k := if_neg (by omega)
    rw [hstore, hwrapped]
    exact ⟨_, .inl ⟨hle, hsize, rfl⟩, Nat.le_refl _, fun hend => absurd hend (by omega)⟩
  · -- the writer comes to the end where the reader is, and starts over on top of the unread ones
    have hlast : k.bufferTail + 1 = stdinBufferSize := by omega
    refine ⟨[c], ?_, by rw [List.length_map, List.length_range']; exact hpos, fun _ => rfl⟩
    unfold storeWrapped Console.store
    rw [if_pos hlt, if_pos ⟨by dsimp only; omega, by dsimp only; omega⟩]
    refine .inr ⟨hhead, Nat.one_pos, (by decide : 1 < stdinBufferSize), ?_⟩
    simp

/-- Echoing leaves the buffer alone. -/
lemma Unread.echo (h : k.Unread u) : (k.echo c).Unread u := by
  unfold Console.echo
  split_ifs
  · exact h.congr rfl rfl rfl
  · exact h

/-- The echo takes no room. -/
lemma room_echo : (k.echo c).Room ↔ k.Room := by
  unfold Console.echo
  split_ifs <;> rfl

/-- The echo does not concern the scheduler. -/
@[simp] lemma sched_echo : (k.echo c).sched = k.sched := by
  unfold Console.echo
  split_ifs <;> rfl

/-- Waking the reader leaves the buffer alone. -/
lemma Unread.wakeReader (h : k.Unread u) : (k.wakeReader c).Unread u := by
  unfold Console.wakeReader
  split_ifs
  · exact h.congr rfl rfl rfl
  · exact h

/-- `write_tty_buffer` while a reader waits. -/
lemma writeTtyBuffer_of_awaiting (h : k.sched.awaitingStdin ≠ 0) :
    k.writeTtyBuffer c = (((k.echo c).store c).storeWrapped c).wakeReader c :=
  if_neg (by rwa [sched_echo])

end Console

/-! ## Streams -/

/-- The console with the characters written to it and the bytes its reads have returned. -/
structure Stream where
  console : Console
  written : List UInt8
  returned : List UInt8

namespace Stream

open Console

variable {st st' : Stream} {c : UInt8} {u : List UInt8}

/-- A call of `write_tty_buffer`, a call of `tty_read`, or anything that concerns the scheduler
only. -/
inductive Call
  | write (c : UInt8)
  | read (len : ℕ)
  | other (s : Sched)

/-- A character is written while a reader waits and fewer than `STDIN_BUFFER_SIZE` characters are
unread. -/
def Enabled (st : Stream) : Call → Prop
  | .write _ => st.console.sched.awaitingStdin ≠ 0 ∧
      st.written.length < st.returned.length + stdinBufferSize
  | .read _ => True
  | .other _ => True

/-- What a call does. -/
def exec (st : Stream) : Call → Stream
  | .write c => { st with console := st.console.writeTtyBuffer c, written := st.written ++ [c] }
  | .read len =>
    { st with
      console := (st.console.ttyRead len).2
      returned := st.returned ++ (st.console.ttyRead len).1 }
  | .other s => { st with console := { st.console with sched := s } }

/-- An enabled call. -/
def Step (st : Stream) (a : Call) (st' : Stream) : Prop := st.Enabled a ∧ st' = st.exec a

/-- The empty buffer. -/
def Init (st : Stream) : Prop :=
  st.console.bufferHead = 0 ∧ st.console.bufferTail = 0 ∧ st.written = [] ∧ st.returned = []

/-- Every write has room. -/
def HasRoom (st : Stream) : Call → Prop
  | .write _ => st.console.Room
  | .read _ => True
  | .other _ => True

/-- What has been read is a prefix of what has been written, and all of it once a read returns fewer
bytes than it is asked for. -/
def Fifo (st : Stream) : Prop :=
  st.returned <+: st.written ∧ ∀ len, (st.console.ttyRead len).1.length < len →
    st.returned ++ (st.console.ttyRead len).1 = st.written

/-- The invariant: what has been written has been read or is unread. -/
def Inv (st : Stream) : Prop := ∃ u, st.console.Unread u ∧ st.written = st.returned ++ u

/-- The invariant makes the stream first-in first-out. -/
lemma Inv.fifo (h : st.Inv) : st.Fifo := by
  obtain ⟨u, hu, hw⟩ := h
  refine ⟨⟨u, hw.symm⟩, fun len hlen => ?_⟩
  rw [(hu.ttyRead len).1] at hlen ⊢
  rw [hw, List.take_of_length_le]
  rw [List.length_take] at hlen
  omega

/-- A call with room keeps the invariant. -/
lemma Inv.step {a : Call} (h : st.Inv) (hroom : st.HasRoom a) (hs : st.Step a st') : st'.Inv := by
  obtain ⟨hen, rfl⟩ := hs
  obtain ⟨u, hu, hw⟩ := h
  cases a with
  | write c =>
    refine ⟨u ++ [c], ?_, ?_⟩
    · change (st.console.writeTtyBuffer c).Unread _
      rw [writeTtyBuffer_of_awaiting hen.1]
      exact (hu.echo.store (room_echo.mpr hroom)).wakeReader
    · change st.written ++ [c] = st.returned ++ (u ++ [c])
      rw [hw, List.append_assoc]
  | read len =>
    refine ⟨u.drop len, (hu.ttyRead len).2, ?_⟩
    change st.written = (st.returned ++ (st.console.ttyRead len).1) ++ u.drop len
    rw [hw, (hu.ttyRead len).1, List.append_assoc, List.take_append_drop]
  | other s => exact ⟨u, hu.congr rfl rfl rfl, hw⟩

/-- A write without room breaks the order: the next read that returns all there is misses
characters. -/
lemma Inv.not_fifo (h : st.Inv) (hen : st.Enabled (.write c)) (hroom : ¬ st.console.Room) :
    ¬ (st.exec (.write c)).Fifo := by
  obtain ⟨u, hu, hw⟩ := h
  obtain ⟨u', hu', hlen, -⟩ :=
    hu.echo.store_of_not_room (c := c) (k := st.console.echo c) (by rwa [room_echo])
  have hafter : (st.console.writeTtyBuffer c).Unread u' := by
    rw [writeTtyBuffer_of_awaiting hen.1]
    exact hu'.wakeReader
  rintro ⟨-, hall⟩
  have hread := (hafter.ttyRead (u'.length + 1)).1
  rw [List.take_of_length_le (by omega)] at hread
  have heq := hall (u'.length + 1) (by
    change ((st.console.writeTtyBuffer c).ttyRead _).1.length < _
    rw [hread]
    omega)
  change st.returned ++ ((st.console.writeTtyBuffer c).ttyRead _).1 = st.written ++ [c] at heq
  rw [hread, hw] at heq
  have := congrArg List.length heq
  simp only [List.length_append, List.length_cons, List.length_nil] at this
  omega

/-- The empty buffer keeps the invariant. -/
lemma inv_of_init (h : st.Init) : st.Inv := by
  obtain ⟨hhead, htail, hw, hr⟩ := h
  refine ⟨[], .inl ⟨by omega, by rw [htail]; exact Nat.zero_le _, ?_⟩, by rw [hw, hr]; rfl⟩
  simp [hhead, htail]

/-- **The buffer is first-in first-out exactly as long as every write has room.** In every run from
the empty buffer whose writes, made while a reader waits and fewer than `STDIN_BUFFER_SIZE`
characters are unread, all have room, what is read is a prefix of what was written, and all of it
once a read returns fewer bytes than it is asked for; and a further write keeps this if and only if
it has room.

**Proof sketch.** What has been written is what has been read and then the unread characters; a
write with room appends to these, and a read takes from their front. After a write without room
there are fewer unread characters than that, and a read of all of them shows it. -/
theorem fifo_iff_room {st : Stream} (h : Transition.Reach Init Step HasRoom st) :
    st.Fifo ∧ ∀ c, st.Enabled (.write c) → ((st.exec (.write c)).Fifo ↔ st.console.Room) := by
  have hinv : st.Inv := h.invariant (fun _ => inv_of_init) fun _ _ _ hi hr hs => hi.step hr hs
  refine ⟨hinv.fifo, fun c hen => ⟨fun hf => ?_, fun hroom => ?_⟩⟩
  · by_contra hroom
    exact hinv.not_fifo hen hroom hf
  · exact (hinv.step (a := .write c) hroom ⟨hen, rfl⟩).fifo

/-! ## A run that loses a character -/

/-- The empty buffer, with a reader waiting. -/
def start : Stream where
  console := ⟨{ (default : Sched) with awaitingStdin := 0x3000#32 }, fun _ => 0, 0, 0, 0#32, []⟩
  written := []
  returned := []

/-- The character `'a'`. -/
def letter : UInt8 := 97

/-- The stream after `n` times the character `'a'`. -/
def typed : ℕ → Stream
  | 0 => start
  | n + 1 => (typed n).exec (.write letter)

/-- A letter written while a reader waits, before the end of the array, moves the tail by one. -/
lemma writeTtyBuffer_letter {k : Console} (h : k.sched.awaitingStdin ≠ 0) (hflags : k.flags = 0)
    (hhead : k.bufferHead = 0) (htail : k.bufferTail < stdinBufferSize) :
    (k.writeTtyBuffer letter).sched = k.sched ∧ (k.writeTtyBuffer letter).flags = 0 ∧
      (k.writeTtyBuffer letter).bufferHead = 0 ∧
      (k.writeTtyBuffer letter).bufferTail = k.bufferTail + 1 := by
  have hecho : k.echo letter = k := if_neg (by rw [hflags]; decide)
  have hstore : (k.store letter).storeWrapped letter = k.store letter := by
    unfold storeWrapped Console.store
    rw [if_pos htail, if_neg (by dsimp only; omega)]
  have hwake : (k.store letter).wakeReader letter = k.store letter := if_neg (by decide)
  rw [writeTtyBuffer_of_awaiting h, hecho, hstore, hwake]
  unfold Console.store
  rw [if_pos htail]
  exact ⟨rfl, hflags, hhead, rfl⟩

/-- The first `4096` letters fill the array. -/
lemma typed_spec {n : ℕ} (hn : n ≤ stdinBufferSize) :
    Transition.Reach Init Step (fun _ _ => True) (typed n) ∧ (typed n).Inv ∧
      (typed n).console.sched = start.console.sched ∧ (typed n).console.flags = 0 ∧
      (typed n).console.bufferHead = 0 ∧ (typed n).console.bufferTail = n ∧
      (typed n).written.length = n ∧ (typed n).returned = [] := by
  induction n with
  | zero =>
    have hinit : start.Init := ⟨rfl, rfl, rfl, rfl⟩
    exact ⟨.start hinit, inv_of_init hinit, rfl, rfl, rfl, rfl, rfl, rfl⟩
  | succ n ih =>
    obtain ⟨hreach, hinv, hsched, hflags, hhead, htail, hlen, hret⟩ := ih (by omega)
    have hawait : (typed n).console.sched.awaitingStdin ≠ 0 := by
      rw [hsched]
      decide
    have hen : (typed n).Enabled (.write letter) := ⟨hawait, by rw [hret, hlen]; simp; omega⟩
    have hroom : (typed n).console.Room := .inl ⟨by omega, fun hr => by
      rw [hhead] at hr
      exact absurd hr.2 (by decide)⟩
    obtain ⟨h₁, h₂, h₃, h₄⟩ := writeTtyBuffer_letter hawait hflags hhead (by omega)
    refine ⟨hreach.next (a := .write letter) trivial ⟨hen, rfl⟩,
      hinv.step (a := .write letter) hroom ⟨hen, rfl⟩, h₁.trans hsched, h₂, h₃,
      h₄.trans (by rw [htail]), ?_, hret⟩
    change ((typed n).written ++ [letter]).length = n + 1
    simp [hlen]

/-- From a full array that nothing has been read from, a read of one character and a write lead to a
stream that is not in order. -/
lemma not_fifo_of_full (hreach : Transition.Reach Init Step (fun _ _ => True) st) (hinv : st.Inv)
    (hawait : st.console.sched.awaitingStdin ≠ 0) (hhead : st.console.bufferHead = 0)
    (htail : st.console.bufferTail = stdinBufferSize) (hlen : st.written.length = stdinBufferSize)
    (hret : st.returned = []) :
    ∃ st', Transition.Reach Init Step (fun _ _ => True) st' ∧ ¬ st'.Fifo := by
  have hread : st.Step (.read 1) (st.exec (.read 1)) := ⟨trivial, rfl⟩
  have hone : st.console.ttyRead 1 =
      ([st.console.stdinBuffer 0], { st.console with bufferHead := 1 }) := by
    have hne : st.console.bufferHead ≠ st.console.bufferTail := by
      rw [hhead, htail]
      decide
    have hidx : st.console.readIndex = 0 := by
      unfold readIndex
      rw [hhead]
      exact if_neg (by decide)
    simp [Console.ttyRead, hne, hidx]
  have hcons : (st.exec (.read 1)).console = { st.console with bufferHead := 1 } := by
    change (st.console.ttyRead 1).2 = _
    rw [hone]
  have hreturned : (st.exec (.read 1)).returned = [st.console.stdinBuffer 0] := by
    change st.returned ++ (st.console.ttyRead 1).1 = _
    rw [hone, hret]
    rfl
  have hen : (st.exec (.read 1)).Enabled (.write letter) := by
    refine ⟨by rw [hcons]; exact hawait, ?_⟩
    rw [hreturned]
    change st.written.length < _
    rw [hlen, List.length_singleton]
    omega
  have hroom : ¬ (st.exec (.read 1)).console.Room := by
    rw [hcons]
    rintro (⟨hlt, -⟩ | ⟨-, hend⟩)
    · exact absurd (show st.console.bufferTail < stdinBufferSize from hlt) (by omega)
    · exact absurd (show 1 = stdinBufferSize from hend) (by decide)
  refine ⟨_, (hreach.next (a := .read 1) trivial hread).next
    (a := .write letter) trivial ⟨hen, rfl⟩,
    ?_⟩
  exact (hinv.step (a := .read 1) trivial hread).not_fifo hen hroom

/-- **A character is lost.** After `4096` characters and a read of one of them, the writer is at the
end of the array and the reader is not: the next character is dropped although only `4095` are
unread. -/
theorem character_lost :
    ¬ ∀ st, Transition.Reach Init Step (fun _ _ => True) st → st.Fifo := by
  intro hall
  obtain ⟨hreach, hinv, hsched, -, hhead, htail, hlen, hret⟩ := typed_spec (Nat.le_refl _)
  generalize typed stdinBufferSize = st at hreach hinv hsched hhead htail hlen hret
  have hawait : st.console.sched.awaitingStdin ≠ 0 := by
    rw [hsched]
    decide
  obtain ⟨st', hreach', hnot⟩ := not_fifo_of_full hreach hinv hawait hhead htail hlen hret
  exact hnot (hall st' hreach')

/-- One character typed and read: the stream is in order, and stays so when a line is ended. -/
theorem fifo_iff_room_typed : (typed 1).Fifo ∧ ((typed 1).exec (.write newline)).Fifo := by
  have hreach : Transition.Reach Init Step HasRoom (typed 1) := by
    refine .next (a := .write letter) (.start ⟨rfl, rfl, rfl, rfl⟩) ?_ ⟨⟨by decide, by decide⟩, rfl⟩
    exact show Room _ by decide
  obtain ⟨hfifo, hiff⟩ := fifo_iff_room hreach
  exact ⟨hfifo, (hiff newline ⟨by decide, by decide⟩).mpr (by decide)⟩

end Stream

end AlphaOS
