import AlphaOS.Drivers.Keyboard

set_option relaxedAutoImplicit false
set_option autoImplicit false

/-!
# From the keyboard to the reader

The way of a line from the keys to the task that waits for it, through the interrupts of the
keyboard and the timer, the buffer of the terminal, the wake-up of the reader and the read that it
makes again. While a reader is recorded in `awaiting_stdin` the characters typed are stored; the
newline wakes the reader and takes it off the record, and what is typed from then on until the next
read is echoed but not stored.

## Main definitions

* `AlphaOS.Terminal.Event.sent` — the characters that an event sends to the terminal.
* `AlphaOS.Terminal.Collecting` — a reader waits, and these characters are unread.
* `AlphaOS.Terminal.Holding` — no reader is recorded, and these characters can be read.

## Main results

* `AlphaOS.Terminal.line_delivered` — in every run, the reader that is woken by a newline is served
  the characters that were unread when it went to sleep, and the line typed since.
-/

namespace AlphaOS

namespace Terminal

open Sched Keyboard

variable {t t' : Terminal} {k : Console} {s s' : Sched} {u : List UInt8} {y : Word}
    {n : ℕ} {e : Event}

/-- The characters that an event sends to the terminal. -/
def Event.sent : Event → List UInt8
  | .key code _ => Terminal.sent code
  | _ => []

/-- The event is no read. -/
def Event.quiet : Event → Bool
  | .read _ _ _ => false
  | _ => true

/-- The task at `y` is recorded as the reader, the characters `u` are unread, and the reader's index
is not at the end of the array. -/
structure Collecting (t : Terminal) (y : Word) (u : List UInt8) : Prop where
  awaiting : t.console.sched.awaitingStdin = y
  notNull : y ≠ 0
  unread : t.console.Unread u
  head : t.console.bufferHead ≠ stdinBufferSize

/-- No reader is recorded, the characters `u` are unread, and all of them lie behind the reader's
index. -/
structure Holding (t : Terminal) (u : List UInt8) : Prop where
  awaiting : t.console.sched.awaitingStdin = 0
  unread : t.console.Unread u
  shown : t.console.bufferHead ≤ t.console.bufferTail

/-- A key sends no more than one character. -/
lemma sent_cases (code : BitVec 8) : sent code = [] ∨
    ∃ c, Keyboard.key code = .typed c ∧ c ≠ letterT ∧ sent code = [c] := by
  unfold sent
  cases hkey : Keyboard.key code with
  | typed c =>
    dsimp only
    by_cases hc : c = letterT
    · exact .inl (if_pos hc)
    · exact .inr ⟨c, rfl, hc, if_neg hc⟩
  | released => exact .inl rfl
  | null => exact .inl rfl
  | outside => exact .inl rfl

/-- Only a read and a newline change the record of the reader. -/
lemma awaitingStdin_exec {l d : List Word} {e : Sched.Event} (h : Wf s l d) (hen : s.Enabled e)
    (hs : s.exec n e = some s') (hwake : e ≠ .wake) (hawait : ∀ f, e ≠ .await f) :
    s'.awaitingStdin = s.awaitingStdin := by
  cases e with
  | enqueue g entry type => exact (rouses_enqueueTask hs).1.awaitingStdin
  | tick f => exact (rouses_schedulerTick hs).awaitingStdin
  | await f => exact absurd rfl (hawait f)
  | wake => exact absurd rfl hwake
  | exit => exact (rouses_taskExit hs).awaitingStdin
  | reap => exact (rouses_reaperTaskLoop h hs).awaitingStdin

/-- What an event leaves alone that is no read and sends nothing. -/
lemma Inv.silent {l d : List Word} {v : List UInt8} (h : t.Inv l d v) (hs : t.Step e t')
    (hquiet : e.quiet = true) (hsent : e.sent = []) :
    t'.console.sched.awaitingStdin = t.console.sched.awaitingStdin ∧
      t'.console.stdinBuffer = t.console.stdinBuffer ∧
        t'.console.bufferHead = t.console.bufferHead ∧
      t'.console.bufferTail = t.console.bufferTail ∧ t'.returned = t.returned := by
  obtain ⟨hen, n, hs⟩ := hs
  cases e with
  | key code g =>
    obtain ⟨k, hk, rfl⟩ := Option.map_eq_some_iff.mp hs
    rcases keyboard_cases hk with ⟨-, rfl⟩ | ⟨c, hkey, hc, rfl⟩ | ⟨-, s', henq, rfl⟩
    · exact ⟨rfl, rfl, rfl, rfl, rfl⟩
    · rw [Event.sent, sent_of_typed hkey, if_neg hc] at hsent
      cases hsent
    · exact ⟨(rouses_enqueueTask henq).1.awaitingStdin, rfl, rfl, rfl, rfl⟩
  | read f fd len => cases hquiet
  | ioctl request arg =>
    obtain rfl := Option.some.inj hs
    exact ⟨rfl, rfl, rfl, rfl, rfl⟩
  | sched e =>
    obtain ⟨s', hexec, rfl⟩ := Option.map_eq_some_iff.mp hs
    exact ⟨awaitingStdin_exec h.tasks.wf hen.1 hexec hen.2.1 hen.2.2.1, rfl, rfl, rfl, rfl⟩

/-- What a key does that sends a character. -/
lemma written_of_sent {c : UInt8} (hs : t.Step e t') (hsent : e.sent = [c]) :
    t'.console = t.console.writeTtyBuffer c ∧ t'.returned = t.returned := by
  obtain ⟨-, n, hs⟩ := hs
  cases e with
  | key code g =>
    obtain ⟨k, hk, rfl⟩ := Option.map_eq_some_iff.mp hs
    rcases keyboard_cases hk with ⟨hkey, rfl⟩ | ⟨c', hkey, hc, rfl⟩ | ⟨hkey, s', henq, rfl⟩
    · rw [Event.sent, sent, hkey] at hsent
      cases hsent
    · rw [Event.sent, sent_of_typed hkey, if_neg hc] at hsent
      cases hsent
      exact ⟨rfl, rfl⟩
    · rw [Event.sent, sent_of_typed hkey, if_pos rfl] at hsent
      cases hsent
  | read f fd len => cases hsent
  | ioctl request arg => cases hsent
  | sched e => cases hsent

/-- An event sends nothing, or one character. -/
lemma Event.sent_cases (e : Event) : e.sent = [] ∨ ∃ c, e.sent = [c] := by
  cases e with
  | key code g =>
    rcases Terminal.sent_cases code with h | ⟨c, -, -, h⟩
    · exact .inl h
    · exact .inr ⟨c, h⟩
  | read f fd len => exact .inl rfl
  | ioctl request arg => exact .inl rfl
  | sched e => exact .inl rfl

/-- A character written while there is room before the end of the array. -/
lemma Collecting.write {c : UInt8} (h : t.Collecting y u)
    (hfits : t.console.bufferTail + 1 ≤ stdinBufferSize) :
    (t.console.writeTtyBuffer c).Unread (u ++ [c]) ∧
      (t.console.writeTtyBuffer c).bufferTail = t.console.bufferTail + 1 := by
  have hawait : t.console.sched.awaitingStdin ≠ 0 := h.awaiting ▸ h.notNull
  have hroom : (t.console.echo c).Room := by
    rw [Console.room_echo]
    exact .inl ⟨hfits, fun hend => h.head hend.2⟩
  refine ⟨?_, ?_⟩
  · rw [Console.writeTtyBuffer_of_awaiting hawait]
    exact (h.unread.echo.store hroom).wakeReader
  · rw [h.unread.bufferTail_writeTtyBuffer hawait, if_neg fun hend => h.head hend.1]
    omega

/-- **While the reader waits**, an event that is no read and ends no line adds what it sends to the
unread characters. -/
lemma Collecting.step {l d : List Word} {v : List UInt8} (h : t.Collecting y u) (hinv : t.Inv l d v)
    (hs : t.Step e t') (hquiet : e.quiet = true)
    (hfits : t.console.bufferTail + e.sent.length ≤ stdinBufferSize) (hline : newline ∉ e.sent) :
    t'.Collecting y (u ++ e.sent) ∧ t'.console.bufferTail = t.console.bufferTail + e.sent.length ∧
      t'.returned = t.returned := by
  rcases e.sent_cases with hsent | ⟨c, hsent⟩
  · obtain ⟨hawait, hbuf, hhead, htail, hret⟩ := hinv.silent hs hquiet hsent
    rw [hsent, List.append_nil]
    refine ⟨⟨hawait.trans h.awaiting, h.notNull, h.unread.congr hbuf hhead htail, ?_⟩, htail, hret⟩
    rw [hhead]
    exact h.head
  · obtain ⟨hcons, hret⟩ := written_of_sent hs hsent
    rw [hsent] at hfits hline ⊢
    have hne : c ≠ newline := fun he => hline (by rw [he]; exact List.mem_singleton_self _)
    obtain ⟨hunread, htail⟩ := h.write (c := c) hfits
    rw [hcons]
    refine ⟨⟨?_, h.notNull, hcons ▸ hunread, ?_⟩, htail, hret⟩
    · rw [hcons, Console.sched_writeTtyBuffer, if_neg fun hw => hne hw.2]
      exact h.awaiting
    · rw [hcons, Console.bufferHead_writeTtyBuffer]
      exact h.head

/-- **The newline** wakes the reader. -/
lemma Collecting.newline (h : t.Collecting y u) (hs : t.Step e t') (hsent : e.sent = [newline])
    (hfits : t.console.bufferTail + 1 ≤ stdinBufferSize) :
    t'.Holding (u ++ [AlphaOS.newline]) ∧ t'.console.sched.status y = .ready ∧
      t'.returned = t.returned := by
  obtain ⟨hcons, hret⟩ := written_of_sent hs hsent
  obtain ⟨hunread, htail⟩ := h.write (c := AlphaOS.newline) hfits
  have hsched : t'.console.sched = t.console.sched.wakeStdinTask := by
    rw [hcons, Console.sched_writeTtyBuffer, if_pos ⟨h.awaiting ▸ h.notNull, rfl⟩]
  have hwake : t.console.sched.wakeStdinTask =
      { t.console.sched.setStatus y .ready with awaitingStdin := 0 } := by
    unfold wakeStdinTask
    rw [if_pos (h.awaiting ▸ h.notNull), h.awaiting]
  refine ⟨⟨?_, hcons ▸ hunread, ?_⟩, ?_, hret⟩
  · rw [hsched, hwake]
  · rw [hcons, Console.bufferHead_writeTtyBuffer, htail]
    rcases h.unread with ⟨hle, -⟩ | ⟨hend, -⟩
    · omega
    · exact absurd hend h.head
  · rw [hsched, hwake]
    change (t.console.sched.setStatus y .ready).status y = _
    rw [status_setStatus, Function.update_self]

/-- **While no reader is recorded**, an event that is no read leaves the unread characters as they
are. -/
lemma Holding.step {l d : List Word} {v : List UInt8} (h : t.Holding u) (hinv : t.Inv l d v)
    (hs : t.Step e t') (hquiet : e.quiet = true) : t'.Holding u ∧ t'.returned = t.returned := by
  rcases e.sent_cases with hsent | ⟨c, hsent⟩
  · obtain ⟨hawait, hbuf, hhead, htail, hret⟩ := hinv.silent hs hquiet hsent
    refine ⟨⟨hawait.trans h.awaiting, h.unread.congr hbuf hhead htail, ?_⟩, hret⟩
    rw [hhead, htail]
    exact h.shown
  · obtain ⟨hcons, hret⟩ := written_of_sent hs hsent
    obtain ⟨hunread, htail⟩ := h.unread.write_of_not_awaiting (c := c) h.awaiting
    refine ⟨⟨?_, hcons ▸ hunread, ?_⟩, hret⟩
    · rw [hcons, Console.sched_writeTtyBuffer, if_neg fun hw => hw.1 h.awaiting]
      exact h.awaiting
    · rw [hcons, Console.bufferHead_writeTtyBuffer, htail]
      exact h.shown

/-- The read that finds the line: it delivers as many of the unread characters as it asks for. -/
lemma Holding.read {f : StateFrame} {fd len : ℕ} (h : t.Holding u) (hline : newline ∈ u)
    (hopen : (t.console.sched.file
      ((t.console.sched.task t.console.sched.currentTask).fds fd)).flags &&& ~~~ronlyFlag = 0)
    (hs : t.Step (.read f fd len) t') : t'.returned = t.returned ++ u.take len := by
  obtain ⟨-, n, hs⟩ := hs
  obtain ⟨k, -, rfl⟩ := Option.map_eq_some_iff.mp hs
  change t.returned ++ t.console.delivered fd len = _
  have hseen := h.unread.stdinBufferHasLine_iff.mpr ⟨h.shown, hline⟩
  unfold Console.delivered Console.sysRead
  rw [if_pos hseen, if_neg (by simp [hopen]), Option.getD_some, (h.unread.ttyRead len).1]

/-! ## Whole runs -/

/-- The characters sent by the events from the `i`-th to the `j`-th, the last excluded. -/
def sentBetween (a : ℕ → Event) (i j : ℕ) : List UInt8 :=
  (List.range' i (j - i)).flatMap fun p => (a p).sent

/-- Nothing is sent between an event and itself. -/
lemma sentBetween_self (a : ℕ → Event) (i : ℕ) : sentBetween a i i = [] := by
  simp [sentBetween]

/-- What is sent up to the next event. -/
lemma sentBetween_succ (a : ℕ → Event) {i j : ℕ} (h : i ≤ j) :
    sentBetween a i (j + 1) = sentBetween a i j ++ (a j).sent := by
  have hlen : j + 1 - i = j - i + 1 := by omega
  rw [sentBetween, hlen, List.range'_concat, List.flatMap_append, List.flatMap_singleton,
    show i + 1 * (j - i) = j by omega]
  rfl

/-- What is sent, in two parts. -/
lemma sentBetween_append (a : ℕ → Event) {i p j : ℕ} (hip : i ≤ p) (hpj : p ≤ j) :
    sentBetween a i j = sentBetween a i p ++ sentBetween a p j := by
  unfold sentBetween
  rw [← List.flatMap_append, show j - i = (p - i) + (j - p) by omega, ← List.range'_append_1,
    show i + (p - i) = p by omega]

/-- **A line is delivered.** In every run of keyboard interrupts, ticks, creations, exits, passes of
the reaper and system calls: let a task wait for input with the characters `u` unread, and let no
task read until the `m`-th event. If the `j`-th event is the first newline since and the line has
room before the end of the array, then this newline makes the task ready; and if it reads with the
`m`-th event, from a file opened for reading, it is served the characters of `u`, of the line and
the newline, as many as it asks for and no other.

**Proof sketch.** Until the newline every event adds what it sends to the unread characters
(`Collecting.step`), which wakes the reader and takes it off the record (`Collecting.newline`); from
then on nothing is stored (`Holding.step`), and the reader finds the newline in front of it
(`Holding.read`). -/
theorem line_delivered {N : ℕ} {τ : ℕ → Terminal} {a : ℕ → Event}
    (h : Transition.Run Init Step N τ a)
    {i j m : ℕ} (hij : i ≤ j) (hjm : j < m)
    (hm : m < N) {u : List UInt8} {y : Word} {f : StateFrame}
    {fd len : ℕ} (hwait : (τ i).Collecting y u) (hquiet : ∀ p, i ≤ p → p < m → (a p).quiet = true)
    (hline : newline ∉ sentBetween a i j) (hend : (a j).sent = [newline])
    (hfits : (τ i).console.bufferTail + (sentBetween a i j).length + 1 ≤ stdinBufferSize)
    (hread : a m = .read f fd len)
    (hopen : ((τ m).console.sched.file
      (((τ m).console.sched.task (τ m).console.sched.currentTask).fds fd)).flags &&& ~~~ronlyFlag =
        0) :
    (τ (j + 1)).console.sched.status y = .ready ∧
      (τ (m + 1)).returned = (τ i).returned ++ (u ++ sentBetween a i j ++ [newline]).take len := by
  have hinv : ∀ p ≤ N, ∃ l d v, (τ p).Inv l d v := fun p hp => inv_of_reach (h.reach hp)
  have hcollect : ∀ p, i + p ≤ j → (τ (i + p)).Collecting y (u ++ sentBetween a i (i + p)) ∧
      (τ (i + p)).console.bufferTail = (τ i).console.bufferTail + (sentBetween a i (i + p)).length ∧
      (τ (i + p)).returned = (τ i).returned := by
    intro p
    induction p with
    | zero =>
      intro _
      rw [Nat.add_zero, sentBetween_self, List.append_nil]
      exact ⟨hwait, rfl, rfl⟩
    | succ p ih =>
      intro hp
      obtain ⟨hcol, htail, hret⟩ := ih (by omega)
      obtain ⟨l, d, v, hi⟩ := hinv (i + p) (by omega)
      have hsucc := sentBetween_succ a (show i ≤ i + p by omega)
      have hall := sentBetween_append a (show i ≤ i + p + 1 by omega) (show i + p + 1 ≤ j by omega)
      rw [hsucc] at hall
      have hnew : newline ∉ (a (i + p)).sent := fun hmem => hline (by
        rw [hall]
        exact List.mem_append_left _ (List.mem_append_right _ hmem))
      have hlen := congrArg List.length hall
      rw [List.length_append, List.length_append] at hlen
      obtain ⟨hcol', htail', hret'⟩ := hcol.step hi (h.step (i + p) (by omega))
        (hquiet (i + p) (by omega) (by omega)) (by omega) hnew
      rw [← Nat.add_assoc, hsucc, ← List.append_assoc, List.length_append]
      exact ⟨hcol', by omega, hret'.trans hret⟩
  obtain ⟨hcol, htail, hret⟩ := hcollect (j - i) (by omega)
  rw [show i + (j - i) = j by omega] at hcol htail hret
  obtain ⟨hhold, hready, hretj⟩ := hcol.newline (h.step j (by omega)) hend (by omega)
  refine ⟨hready, ?_⟩
  have hholds : ∀ p, j + 1 + p ≤ m → (τ (j + 1 + p)).Holding (u ++ sentBetween a i j ++ [newline]) ∧
      (τ (j + 1 + p)).returned = (τ i).returned := by
    intro p
    induction p with
    | zero => exact fun _ => ⟨hhold, hretj.trans hret⟩
    | succ p ih =>
      intro hp
      obtain ⟨hh, hr⟩ := ih (by omega)
      obtain ⟨l, d, v, hi⟩ := hinv (j + 1 + p) (by omega)
      obtain ⟨hh', hr'⟩ := hh.step hi (h.step _ (by omega)) (hquiet _ (by omega) (by omega))
      exact ⟨hh', hr'.trans hr⟩
  obtain ⟨hh, hr⟩ := hholds (m - (j + 1)) (by omega)
  rw [show j + 1 + (m - (j + 1)) = m by omega] at hh hr
  have hstep := h.step m hm
  rw [hread] at hstep
  rw [hh.read (by simp) hopen hstep, hr]

/-- The run in which a line is typed and read. -/
theorem line_delivered_states : (Line.states 5).console.sched.status 0x3000#32 = .ready ∧
    (Line.states 7).returned = [97, newline] := by
  have hwait : (Line.states 3).Collecting 0x3000#32 [] :=
    ⟨by decide +kernel, by decide +kernel,
      .inl ⟨by decide +kernel, by decide +kernel, by decide +kernel⟩,
      by decide +kernel⟩
  have hsent : sentBetween Line.events 3 4 = [97] := by decide +kernel
  obtain ⟨hready, hret⟩ :=
    line_delivered Line.run_states (i := 3) (j := 4) (m := 6) (by decide) (by decide)
    (by decide) hwait (fun p h₁ h₂ => by
      obtain rfl | rfl | rfl : p = 3 ∨ p = 4 ∨ p = 5 := by omega
      all_goals rfl) (by rw [hsent]; decide) (by decide +kernel) (by rw [hsent]; decide +kernel) rfl
    (by decide +kernel)
  refine ⟨hready, ?_⟩
  rw [hret, hsent]
  decide +kernel

end Terminal

end AlphaOS
