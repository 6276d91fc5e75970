import AlphaOS.Tty.Readers

set_option relaxedAutoImplicit false
set_option autoImplicit false

/-!
# Lines in the input buffer

`syscall_handler` asks `stdin_buffer_has_line` whether a read can be served, and puts the caller to
sleep if not. The function scans forward from `buffer_head` to `buffer_tail`, while `tty_read` goes
on at the start of the array once `buffer_head` is at its end. The two agree as long as no newline
is stored while the reader is at the end: such a newline lies before `buffer_head`, where the scan
does not look.

## Main definitions

* `AlphaOS.Console.move` — what a call of `write_tty_buffer` or of `tty_read` does to the console.
* `AlphaOS.Console.LineSeen` — the scan finds a newline exactly when a newline is unread.
* `AlphaOS.Console.Served` — a read is not put to sleep while a newline is unread.
* `AlphaOS.Console.Sighted` — a newline is stored only while the reader is not at the end.

## Main results

* `AlphaOS.Console.line_seen_iff_sighted` — in every run of sighted calls the scan is right, and a
  further write keeps it right if and only if it is sighted.
* `AlphaOS.Console.line_unseen` — a line that no read is ever served.
-/

namespace AlphaOS

namespace Console

variable {k k' : Console} {u : List UInt8} {c : UInt8}

/-- What a call does to the console. -/
def move (k : Console) : Stream.Call → Console
  | .write c => k.writeTtyBuffer c
  | .read len => (k.ttyRead len).2
  | .other s => { k with sched := s }

/-- A call is made. -/
def Moves (k : Console) (a : Stream.Call) (k' : Console) : Prop := k' = k.move a

/-- The empty buffer. -/
def Empty (k : Console) : Prop := k.bufferHead = 0 ∧ k.bufferTail = 0

/-- `stdin_buffer_has_line` finds a newline exactly when a newline is among the characters that
reads would return. -/
def LineSeen (k : Console) : Prop :=
  k.stdinBufferHasLine = true ↔ ∃ len, newline ∈ (k.ttyRead len).1

/-- While a newline is among the characters that reads would return, `syscall_handler` serves every
read instead of putting its caller to sleep. -/
def Served (k : Console) : Prop :=
  (∃ len, newline ∈ (k.ttyRead len).1) →
    ∀ n f fd len, k.syscallRead n f fd len = some (k.sysRead fd len).2

/-- A newline is stored only while the reader is not at the end of the array. -/
def Sighted (k : Console) : Stream.Call → Prop
  | .write c => k.sched.awaitingStdin ≠ 0 → c = newline → k.bufferHead ≠ stdinBufferSize
  | .read _ => True
  | .other _ => True

/-! ## The scan and the unread characters -/

/-- The characters that reads would return are the unread ones. -/
lemma Unread.mem_ttyRead_iff (h : k.Unread u) : (∃ len, c ∈ (k.ttyRead len).1) ↔ c ∈ u := by
  constructor
  · rintro ⟨len, hc⟩
    rw [(h.ttyRead len).1] at hc
    exact List.mem_of_mem_take hc
  · intro hc
    refine ⟨u.length, ?_⟩
    rwa [(h.ttyRead u.length).1, List.take_length]

/-- The scan finds the unread newlines that do not lie before `buffer_head`. -/
lemma Unread.stdinBufferHasLine_iff (h : k.Unread u) :
    k.stdinBufferHasLine = true ↔ k.bufferHead ≤ k.bufferTail ∧ newline ∈ u := by
  have hscan : k.stdinBufferHasLine = true ↔
      newline ∈ (List.range' k.bufferHead (k.bufferTail - k.bufferHead)).map k.stdinBuffer := by
    simp [stdinBufferHasLine]
  rcases h with ⟨hle, -, rfl⟩ | ⟨hhead, -, hlt, -⟩
  · rw [hscan]
    exact ⟨fun h => ⟨hle, h⟩, fun h => h.2⟩
  · rw [hscan, show k.bufferTail - k.bufferHead = 0 by omega]
    constructor
    · intro h
      simp at h
    · intro h
      omega

/-- The scan is right unless a newline lies before `buffer_head`. -/
lemma Unread.lineSeen_iff (h : k.Unread u) :
    k.LineSeen ↔ (newline ∈ u → k.bufferHead ≤ k.bufferTail) := by
  unfold LineSeen
  rw [h.stdinBufferHasLine_iff, h.mem_ttyRead_iff]
  tauto

/-- A scan that is right puts no reader to sleep while a newline is unread. -/
lemma LineSeen.served (h : k.LineSeen) : k.Served := by
  intro hline n f fd len
  unfold syscallRead
  rw [if_pos (h.mpr hline)]

/-! ## Calls -/

/-- Only reads move `buffer_head`. -/
@[simp] lemma bufferHead_writeTtyBuffer : (k.writeTtyBuffer c).bufferHead = k.bufferHead := by
  unfold writeTtyBuffer wakeReader storeWrapped Console.store echo
  split_ifs <;> rfl

/-- Where a store leaves `buffer_tail`. -/
lemma bufferTail_store (h : k.bufferTail ≤ stdinBufferSize) :
    ((k.store c).storeWrapped c).bufferTail =
      if k.bufferHead = stdinBufferSize ∧ stdinBufferSize ≤ k.bufferTail + 1 then 1
      else min (k.bufferTail + 1) stdinBufferSize := by
  by_cases hlt : k.bufferTail < stdinBufferSize
  · have hstore : k.store c = { k with
        stdinBuffer := Function.update k.stdinBuffer k.bufferTail c
        bufferTail := k.bufferTail + 1 } := if_pos hlt
    rw [hstore, storeWrapped, apply_ite Console.bufferTail]
    dsimp only
    split_ifs <;> omega
  · have hstore : k.store c = k := if_neg hlt
    rw [hstore, storeWrapped, apply_ite Console.bufferTail]
    dsimp only
    split_ifs <;> omega

/-- The unread characters reach at most to the end of the array. -/
lemma Unread.bufferTail_le (h : k.Unread u) : k.bufferTail ≤ stdinBufferSize := by
  rcases h with ⟨-, hle, -⟩ | ⟨-, -, hlt, -⟩
  · exact hle
  · exact hlt.le

/-- Where a write leaves `buffer_tail` while a reader waits. -/
lemma Unread.bufferTail_writeTtyBuffer (h : k.Unread u) (hawait : k.sched.awaitingStdin ≠ 0) :
    (k.writeTtyBuffer c).bufferTail =
      if k.bufferHead = stdinBufferSize ∧ stdinBufferSize ≤ k.bufferTail + 1 then 1
      else min (k.bufferTail + 1) stdinBufferSize := by
  have hecho : (k.echo c).bufferHead = k.bufferHead ∧ (k.echo c).bufferTail = k.bufferTail := by
    unfold Console.echo
    split_ifs <;> exact ⟨rfl, rfl⟩
  have hstore := bufferTail_store (c := c) (h.echo (c := c)).bufferTail_le
  rw [hecho.1, hecho.2] at hstore
  rw [writeTtyBuffer_of_awaiting hawait, ← hstore]
  unfold Console.wakeReader
  split_ifs <;> rfl

/-- While the reader is at the end of the array, the character written comes last among the unread
ones and lies before `buffer_head`. -/
lemma Unread.write_of_end (h : k.Unread u) (hawait : k.sched.awaitingStdin ≠ 0)
    (hend : k.bufferHead = stdinBufferSize) :
    ∃ u', (k.writeTtyBuffer c).Unread u' ∧ (u' = u ++ [c] ∨ u' = [c]) ∧
      (k.writeTtyBuffer c).bufferTail < stdinBufferSize := by
  have htail : (k.writeTtyBuffer c).bufferTail < stdinBufferSize := by
    rw [h.bufferTail_writeTtyBuffer hawait]
    have hone : 1 < stdinBufferSize := by decide
    split_ifs <;> omega
  have hend' : (k.echo c).bufferHead = stdinBufferSize := by
    rw [← hend]
    unfold Console.echo
    split_ifs <;> rfl
  rw [writeTtyBuffer_of_awaiting hawait] at htail ⊢
  by_cases hroom : (k.echo c).Room
  · exact ⟨u ++ [c], (h.echo.store hroom).wakeReader, .inl rfl, htail⟩
  · obtain ⟨u', hu', -, hlast⟩ := h.echo.store_of_not_room hroom
    exact ⟨u', hu'.wakeReader, .inr (hlast hend'), htail⟩

/-- While the reader is not at the end of the array, a write leaves `buffer_tail` behind it. -/
lemma Unread.write_of_ne_end (h : k.Unread u) (hawait : k.sched.awaitingStdin ≠ 0)
    (hend : k.bufferHead ≠ stdinBufferSize) :
    ∃ u', (k.writeTtyBuffer c).Unread u' ∧ k.bufferHead ≤ (k.writeTtyBuffer c).bufferTail := by
  have htail : k.bufferHead ≤ (k.writeTtyBuffer c).bufferTail := by
    rw [h.bufferTail_writeTtyBuffer hawait, if_neg fun hh => hend hh.1]
    rcases h with ⟨hle, hsize, -⟩ | ⟨hhead, -⟩
    · omega
    · exact absurd hhead hend
  rw [writeTtyBuffer_of_awaiting hawait] at htail ⊢
  by_cases hroom : (k.echo c).Room
  · exact ⟨u ++ [c], (h.echo.store hroom).wakeReader, htail⟩
  · obtain ⟨u', hu', -, -⟩ := h.echo.store_of_not_room hroom
    exact ⟨u', hu'.wakeReader, htail⟩

/-- A write that no reader waits for leaves the buffer alone. -/
lemma Unread.write_of_not_awaiting (h : k.Unread u) (hawait : k.sched.awaitingStdin = 0) :
    (k.writeTtyBuffer c).Unread u ∧ (k.writeTtyBuffer c).bufferTail = k.bufferTail := by
  have heq : k.writeTtyBuffer c = k.echo c := if_pos (by rwa [sched_echo])
  rw [heq]
  refine ⟨h.echo, ?_⟩
  unfold Console.echo
  split_ifs <;> rfl

/-- A read leaves `buffer_tail` where it is, and the reader behind it if it was behind it. -/
lemma ttyRead_le (k : Console) (len : ℕ) (hsize : k.bufferTail ≤ stdinBufferSize) :
    (k.ttyRead len).2.bufferTail = k.bufferTail ∧
      (k.bufferHead ≤ k.bufferTail → (k.ttyRead len).2.bufferHead ≤ k.bufferTail) := by
  induction len generalizing k with
  | zero => exact ⟨rfl, fun h => h⟩
  | succ len ih =>
    rw [ttyRead]
    split_ifs with he
    · exact ⟨rfl, fun h => h⟩
    · obtain ⟨htail, hle⟩ := ih { k with bufferHead := k.readIndex + 1 } hsize
      refine ⟨htail, fun h => hle ?_⟩
      have hidx : k.readIndex = k.bufferHead := if_neg (by omega)
      dsimp only
      omega

/-! ## Runs -/

/-- The invariant: no newline lies before `buffer_head`. -/
def Shown (k : Console) : Prop := ∃ u, k.Unread u ∧ (newline ∈ u → k.bufferHead ≤ k.bufferTail)

/-- With no newline before `buffer_head` lines are seen. -/
lemma Shown.lineSeen (h : k.Shown) : k.LineSeen := by
  obtain ⟨u, hu, hshown⟩ := h
  exact hu.lineSeen_iff.mpr hshown

/-- The empty buffer shows all its newlines. -/
lemma Empty.shown (h : k.Empty) : k.Shown := by
  refine ⟨[], .inl ⟨by rw [h.1, h.2], by rw [h.2]; exact Nat.zero_le _, ?_⟩, by simp⟩
  simp [h.1, h.2]

/-- A sighted write keeps the invariant.

**Proof sketch.** While the reader is not at the end, the characters stay behind it. While it is at
the end, the unread characters get one more, which is no newline, or are replaced by it; those that
were there before lie before `buffer_head` too, or there were none. -/
lemma Shown.write (h : k.Shown) (hok : k.Sighted (.write c)) : (k.writeTtyBuffer c).Shown := by
  obtain ⟨u, hu, hshown⟩ := h
  by_cases hawait : k.sched.awaitingStdin = 0
  · obtain ⟨hu', htail⟩ := hu.write_of_not_awaiting (c := c) hawait
    refine ⟨u, hu', fun hn => ?_⟩
    rw [bufferHead_writeTtyBuffer, htail]
    exact hshown hn
  by_cases hend : k.bufferHead = stdinBufferSize
  · obtain ⟨u', hu', hcase, -⟩ := hu.write_of_end (c := c) hawait hend
    refine ⟨u', hu', fun hn => absurd hn ?_⟩
    have hc : newline ≠ c := fun he => hok hawait he.symm hend
    have hold : newline ∉ u := by
      intro hn'
      have hle := hshown hn'
      rw [hu.eq_nil (by have := hu.bufferTail_le; omega)] at hn'
      simp at hn'
    rcases hcase with rfl | rfl
    · simp [hold, hc]
    · simp [hc]
  · obtain ⟨u', hu', hle⟩ := hu.write_of_ne_end (c := c) hawait hend
    refine ⟨u', hu', fun _ => ?_⟩
    rw [bufferHead_writeTtyBuffer]
    exact hle

/-- A newline stored while the reader is at the end of the array is not seen. -/
lemma Shown.not_lineSeen (h : k.Shown) (hawait : k.sched.awaitingStdin ≠ 0)
    (hend : k.bufferHead = stdinBufferSize) : ¬ (k.writeTtyBuffer newline).LineSeen := by
  obtain ⟨u, hu, -⟩ := h
  obtain ⟨u', hu', hcase, hlt⟩ := hu.write_of_end (c := newline) hawait hend
  rw [hu'.lineSeen_iff, bufferHead_writeTtyBuffer]
  intro hle
  have hmem : newline ∈ u' := by
    rcases hcase with rfl | rfl <;> simp
  have := hle hmem
  omega

/-- A sighted call keeps the invariant. -/
lemma Shown.move {a : Stream.Call} (h : k.Shown) (hok : k.Sighted a) : (k.move a).Shown := by
  cases a with
  | write c => exact h.write hok
  | read len =>
    obtain ⟨u, hu, hshown⟩ := h
    obtain ⟨htail, hle⟩ := k.ttyRead_le len hu.bufferTail_le
    refine ⟨u.drop len, (hu.ttyRead len).2, fun hn => ?_⟩
    change (k.ttyRead len).2.bufferHead ≤ (k.ttyRead len).2.bufferTail
    rw [htail]
    exact hle (hshown (List.mem_of_mem_drop hn))
  | other s =>
    obtain ⟨u, hu, hshown⟩ := h
    exact ⟨u, hu.congr rfl rfl rfl, hshown⟩

/-- **The scan sees every unread line exactly as long as every newline is sighted.** In every run of
writes and reads from the empty buffer, in which a newline is stored only while the reader is not at
the end of the array, `stdin_buffer_has_line` holds exactly when a newline is unread, and
`syscall_handler` puts no reader to sleep while one is; and a further write keeps both if and only
if it is sighted.

**Proof sketch.** The invariant is that no newline lies before `buffer_head`, so that the scan,
which does not wrap around, sees every one that is unread. A newline stored while the reader is at
the end of the array is unread and is not seen. -/
theorem line_seen_iff_sighted {k : Console} (h : Transition.Reach Empty Moves Sighted k) :
    (k.LineSeen ∧ k.Served) ∧
      ∀ c, ((k.writeTtyBuffer c).LineSeen ∧ (k.writeTtyBuffer c).Served) ↔
        k.Sighted (.write c) := by
  have hshown : k.Shown := by
    refine h.invariant (fun _ => Empty.shown) fun s a s' hs hok hmove => ?_
    rw [hmove]
    exact hs.move hok
  refine ⟨⟨hshown.lineSeen, hshown.lineSeen.served⟩, fun c => ⟨?_, fun hok => ?_⟩⟩
  · rintro ⟨hseen, -⟩ hawait rfl hend
    exact hshown.not_lineSeen hawait hend hseen
  · have hseen := (hshown.write hok).lineSeen
    exact ⟨hseen, hseen.served⟩

/-! ## A line that is never read -/

/-- A read of as many characters as there are before `buffer_tail` brings the reader there. -/
lemma ttyRead_to_tail {len : ℕ} (hle : k.bufferHead + len = k.bufferTail)
    (hsize : k.bufferTail ≤ stdinBufferSize) :
    (k.ttyRead len).2.bufferHead = k.bufferTail := by
  induction len generalizing k with
  | zero => exact hle
  | succ len ih =>
    have hidx : k.readIndex = k.bufferHead := if_neg (by omega)
    rw [ttyRead, if_neg (by omega), hidx]
    exact ih (k := { k with bufferHead := k.bufferHead + 1 }) (by dsimp only; omega) hsize

/-- The states of a stream are states of its console. -/
lemma reach_console {st : Stream} {ok : Stream → Stream.Call → Prop}
    (h : Transition.Reach Stream.Init Stream.Step ok st) :
    Transition.Reach Empty Moves (fun _ _ => True) st.console := by
  induction h with
  | start h => exact .start ⟨h.1, h.2.1⟩
  | @next st st' a _ _ hs ih =>
    refine ih.next (a := a) trivial ?_
    rw [hs.2]
    cases a <;> rfl

/-- From a console whose array has one place left and that nothing has been read from: the line is
ended and read, the reader waits again, and the newline that follows is not seen. -/
lemma exists_not_lineSeen (hreach : Transition.Reach Empty Moves (fun _ _ => True) k)
    (hu : k.Unread u) (hawait : k.sched.awaitingStdin ≠ 0) (hhead : k.bufferHead = 0)
    (htail : k.bufferTail + 1 = stdinBufferSize) :
    ∃ k', Transition.Reach Empty Moves (fun _ _ => True) k' ∧ ¬ k'.LineSeen := by
  have hshown : k.Shown := ⟨u, hu, fun _ => by omega⟩
  -- the line is ended
  have hreach₂ := hreach.next (a := .write newline) trivial rfl
  have hshown₂ : (k.move (.write newline)).Shown := hshown.move fun _ _ => by omega
  have htail₂ : (k.move (.write newline)).bufferTail = stdinBufferSize := by
    change (k.writeTtyBuffer newline).bufferTail = _
    rw [hu.bufferTail_writeTtyBuffer hawait, if_neg (by omega)]
    omega
  have hhead₂ : (k.move (.write newline)).bufferHead = 0 := by
    change (k.writeTtyBuffer newline).bufferHead = 0
    rw [bufferHead_writeTtyBuffer, hhead]
  generalize k.move (.write newline) = k₂ at hreach₂ htail₂ hhead₂ hshown₂
  -- it is read
  have hreach₃ := hreach₂.next (a := .read stdinBufferSize) trivial rfl
  have hshown₃ := hshown₂.move (a := .read stdinBufferSize) trivial
  have hend : (k₂.move (.read stdinBufferSize)).bufferHead = stdinBufferSize := by
    rw [← htail₂]
    exact ttyRead_to_tail (by omega) htail₂.le
  generalize k₂.move (.read stdinBufferSize) = k₃ at hreach₃ hend hshown₃
  -- the reader waits again, and the next line is empty
  have hreach₄ := hreach₃.next (a := .other k.sched) trivial rfl
  have hshown₄ := hshown₃.move (a := .other k.sched) trivial
  exact ⟨_, hreach₄.next (a := .write newline) trivial rfl, hshown₄.not_lineSeen hawait hend⟩

/-- **A line is never read.** A line of `4095` letters and its newline fill the array and are read;
the reader waits again and the next key is a newline, which is stored at the start of the array,
before the reader. The reader is woken, finds no line and goes back to sleep. -/
theorem line_unseen :
    ¬ ∀ k, Transition.Reach Empty Moves (fun _ _ => True) k → k.LineSeen ∧ k.Served := by
  intro hall
  obtain ⟨n, hn⟩ : ∃ n, n + 1 = stdinBufferSize := ⟨4095, rfl⟩
  obtain ⟨hreach, ⟨u, hu, -⟩, hsched, -, hhead, htail, -⟩ :=
    Stream.typed_spec (show n ≤ stdinBufferSize by omega)
  have hawait : (Stream.typed n).console.sched.awaitingStdin ≠ 0 := by
    rw [hsched]
    decide
  obtain ⟨k, hk, hnot⟩ :=
    exists_not_lineSeen (reach_console hreach) hu hawait hhead (by rw [htail, hn])
  exact hnot (hall k hk).1

/-- One letter typed while the reader is at the start: the line is seen once it is ended. -/
theorem line_seen_iff_sighted_typed :
    (Stream.typed 1).console.LineSeen ∧
      ((Stream.typed 1).console.writeTtyBuffer newline).LineSeen := by
  have hreach : Transition.Reach Empty Moves Sighted (Stream.typed 1).console := by
    have hempty : Stream.start.console.Empty := ⟨rfl, rfl⟩
    exact (Transition.Reach.start hempty).next (a := .write Stream.letter)
      (fun _ hc => absurd hc (by decide)) rfl
  obtain ⟨hseen, hiff⟩ := line_seen_iff_sighted hreach
  exact ⟨hseen.1, ((hiff newline).mpr fun _ _ => by decide).1⟩

end Console

end AlphaOS
