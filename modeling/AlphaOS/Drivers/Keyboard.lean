import AlphaOS.Sched.Reaping
import AlphaOS.Syscall.Files
import AlphaOS.Tty.Lines

set_option relaxedAutoImplicit false
set_option autoImplicit false

/-!
# The keyboard

`drivers/keyboard.c` in front of the terminal and the scheduler. The handler of the keyboard
interrupt looks the scancode of a pressed key up in a table of strings: the key of the letter `t`
creates a task, and any other key is written to the terminal. The table has `NULL` for many keys and
ends at the space bar, and the handler looks at the first character of the string without a test. No
other function of the kernel creates tasks after `init_scheduler`.

## Main definitions

* `AlphaOS.Keyboard.scancodes`, `AlphaOS.Console.keyboardInterruptHandler` — the table and the
  handler.
* `AlphaOS.Terminal` — the console with a record of the keys, of the bytes read, and of the tasks
  created and exited.

## Main results

* `AlphaOS.Terminal.read_of_typed` — what is read are characters typed, in order, each at most once,
  and never the letter `t`.
* `AlphaOS.Terminal.tasks_of_keys` — the user tasks are those created by the key of `t` and not yet
  exited, and all of them run in ring 3.
-/

namespace AlphaOS

namespace Sched

open Linked List

variable {s s' : Sched} {l d : List Word} {n : ℕ} {e : Event} {g : Grant} {entry : Word}
    {type : TaskType}

/-- Only `create_task` sets the type of a task. -/
lemma Keeps.taskType (h : Keeps s s') (x : Word) : (s'.task x).type = (s.task x).type := by
  have hfix := h.fixed x
  simp only [Task.fixed, Prod.mk.injEq] at hfix
  exact hfix.2.2.2.2

/-- `create_task` sets the type of the new task only. -/
lemma type_createTask (s : Sched) (g : Grant) (entry : Word) (type : TaskType) (x : Word) :
    ((s.createTask g entry type).task x).type = if x = g.task then type else (s.task x).type := by
  by_cases hx : x = g.task
  · subst hx
    simp [createTask, newTask]
  · simp [createTask, hx]

/-- What an event does to the tasks when it does not create one: it takes the running task off the
ring when that exits, and creates or changes no other. -/
structure Retains (s s' : Sched) (l d l' d' : List Word) (e : Event) : Prop where
  mem : ∀ x ∈ s'.currentTask :: l' ++ d', x ∈ s.currentTask :: l ++ d
  type : ∀ x, (s'.task x).type = (s.task x).type
  total : s'.taskTotal + (if e = .exit then 1 else 0) = s.taskTotal
  idleTask : s'.idleTask = s.idleTask
  reaperTask : s'.reaperTask = s.reaperTask

/-- The number of tasks counted follows the length of the ring. -/
lemma Wf.total_of_perm {l' d' : List Word} (h : Wf s l d) (h' : Wf s' l' d')
    (hp : (s'.currentTask :: l') ~ (s.currentTask :: l)) : s'.taskTotal = s.taskTotal := by
  have htotal := h.core.total
  have htotal' := h'.core.total
  have hlen := hp.length_eq
  omega

/-- **One event** that does not create a task. -/
lemma Wf.step_retains (h : Wf s l d) (hs : s.Step e s')
    (hne : ∀ g entry type, e ≠ .enqueue g entry type) :
    ∃ l' d', Wf s' l' d' ∧ Retains s s' l d l' d' e := by
  obtain ⟨hen, n, hs⟩ := hs
  cases e with
  | enqueue g entry type => exact absurd rfl (hne g entry type)
  | tick f =>
    have hkeeps : Keeps s s' := (still_schedulerTick hs).elim Still.toKeeps And.left
    have hids := rouses_schedulerTick hs
    rcases h.schedulerTick hs with ⟨-, hcur, hwf⟩ | ⟨-, l₁, l₂, hpass, hwf⟩
    · refine ⟨l, d, hwf, ?_, hkeeps.taskType, ?_, hids.idleTask, hids.reaperTask⟩
      · rw [hcur]
        exact fun _ hx => hx
      · exact h.total_of_perm hwf (hcur ▸ List.Perm.refl _)
    · refine ⟨_, d, hwf, ?_, hkeeps.taskType, ?_, hids.idleTask, hids.reaperTask⟩
      · exact fun x hx => (hpass.perm.append_right d).mem_iff.mp hx
      · exact h.total_of_perm hwf hpass.perm
  | await f =>
    obtain ⟨l₁, l₂, hpass, hwf⟩ := h.awaitStdin hen hs
    have hkeeps : Keeps s s' := (still_awaitPrepare s).toKeeps.trans (keeps_loadContext hs).1
    have hload := rouses_loadContext hs
    have hidle : s.awaitPrepare.idleTask = s.idleTask := by
      unfold Sched.awaitPrepare
      split_ifs <;> rfl
    have hreaper : s.awaitPrepare.reaperTask = s.reaperTask := by
      unfold Sched.awaitPrepare
      split_ifs <;> rfl
    refine ⟨_, d, hwf, ?_, hkeeps.taskType, ?_, hload.idleTask.trans hidle,
      hload.reaperTask.trans hreaper⟩
    · exact fun x hx => (hpass.perm.append_right d).mem_iff.mp hx
    · exact h.total_of_perm hwf hpass.perm
  | wake =>
    obtain rfl : s.wakeStdinTask = s' := by simpa [exec] using hs
    have hcur := currentTask_wakeStdinTask s
    have hidle : s.wakeStdinTask.idleTask = s.idleTask := by
      unfold Sched.wakeStdinTask
      split_ifs <;> rfl
    have hreaper : s.wakeStdinTask.reaperTask = s.reaperTask := by
      unfold Sched.wakeStdinTask
      split_ifs <;> rfl
    refine ⟨l, d, h.wakeStdinTask, ?_, (still_wakeStdinTask s).taskType, ?_, hidle, hreaper⟩
    · rw [hcur]
      exact fun _ hx => hx
    · exact h.total_of_perm h.wakeStdinTask (hcur ▸ List.Perm.refl _)
  | exit =>
    obtain ⟨l₁, l₂, hpass, hwf⟩ := h.taskExit hen hs
    have hids := rouses_taskExit hs
    refine ⟨_, _, hwf, ?_, (keeps_taskExit hs).1.taskType, ?_, hids.idleTask, hids.reaperTask⟩
    · intro x hx
      rw [hpass.split]
      simp only [List.mem_cons, List.mem_append, List.cons_append] at hx ⊢
      tauto
    · have htotal := h.core.total
      have htotal' := hwf.core.total
      rw [hpass.split] at htotal
      simp only [List.length_cons, List.length_append] at htotal htotal'
      rw [if_pos rfl]
      omega
  | reap =>
    obtain ⟨l₁, l₂, hpass, hwf⟩ := h.reaperTaskLoop hen hs
    have hids := rouses_reaperTaskLoop h hs
    refine ⟨_, _, hwf, ?_, ?_, ?_, hids.idleTask, hids.reaperTask⟩
    · intro x hx
      rw [List.append_nil] at hx
      exact List.mem_append_left _ (hpass.perm.mem_iff.mp hx)
    · simp only [exec, Sched.reaperTaskLoop, Option.bind_eq_bind, Option.bind_eq_some_iff] at hs
      obtain ⟨s₁, h₁, hs⟩ := hs
      obtain ⟨-, heq⟩ := h.drainDeadQueue h₁
      intro x
      rw [(keeps_loadContext hs).1.taskType, Sched.sleepReaperTask,
        (still_setStatus s₁ _ _).taskType, heq]
    · exact h.total_of_perm hwf hpass.perm

/-- The tasks `l` and `d` beside the current one: so many created and so many exited since
`init_scheduler`; the user tasks run in ring 3 and the two tasks of the kernel in ring 0. -/
structure Tasks (s : Sched) (l d : List Word) (created exits : ℕ) : Prop where
  wf : Wf s l d
  count : s.taskTotal + exits = created
  ring3 : ∀ x ∈ s.currentTask :: l ++ d, s.IsUser x → (s.task x).type = .ring3
  ring0 : (s.task s.idleTask).type = .ring0 ∧ (s.task s.reaperTask).type = .ring0

/-- An event that creates no task keeps the count. -/
lemma Tasks.step {a b : ℕ} (h : Tasks s l d a b) (hs : s.Step e s')
    (hne : ∀ g entry type, e ≠ .enqueue g entry type) :
    ∃ l' d', Tasks s' l' d' a (b + if e = .exit then 1 else 0) := by
  obtain ⟨l', d', hwf, hret⟩ := h.wf.step_retains hs hne
  refine ⟨l', d', hwf, ?_, ?_, ?_⟩
  · have htotal := hret.total
    have hcount := h.count
    omega
  · intro x hx hu
    unfold IsUser at hu
    rw [hret.idleTask, hret.reaperTask] at hu
    rw [hret.type]
    exact h.ring3 x (hret.mem x hx) hu
  · rw [hret.type, hret.type, hret.idleTask, hret.reaperTask]
    exact h.ring0

/-- The creation of a task that runs in ring 3. -/
lemma Tasks.enqueue {a b : ℕ} (h : Tasks s l d a b) (hf : s.Fresh g)
    (hs : s.enqueueTask n g entry .ring3 = some s') : Tasks s' (l ++ [g.task]) d (a + 1) b := by
  have hwf := h.wf.enqueueTask hf hs
  have hnew := h.wf.core.fresh_notMem hf
  have hcur := currentTask_enqueueTask hs
  obtain ⟨p, -, rfl⟩ := Option.map_eq_some_iff.mp hs
  have htype : ∀ x, (((s.createTask g entry .ring3).linkNew p g.task).task x).type =
      if x = g.task then .ring3 else (s.task x).type := by
    intro x
    rw [((s.createTask g entry .ring3).still_linkNew p g.task).taskType, type_createTask]
  have hold : ∀ x ∈ s.currentTask :: l ++ d, x ≠ g.task := fun x hx he => hnew (he ▸ hx)
  refine ⟨hwf, ?_, ?_, ?_⟩
  · have htotal := h.wf.core.total
    have htotal' := hwf.core.total
    have hcount := h.count
    simp only [List.length_cons, List.length_append, List.length_nil] at htotal htotal'
    omega
  · intro x hx hu
    rw [htype]
    split_ifs with hxg
    · rfl
    · refine h.ring3 x ?_ hu
      rw [hcur] at hx
      simp only [List.mem_cons, List.mem_append, List.not_mem_nil, or_false] at hx ⊢
      tauto
  · change (((s.createTask g entry .ring3).linkNew p g.task).task s.idleTask).type = _ ∧
      (((s.createTask g entry .ring3).linkNew p g.task).task s.reaperTask).type = _
    rw [htype, htype, if_neg (hold _ (List.mem_append_left _ h.wf.core.idle_mem)),
      if_neg (hold _ (List.mem_append_left _ h.wf.core.reaper_mem))]
    exact h.ring0

/-- After `init_scheduler` there are the two tasks of the kernel. -/
lemma tasks_of_init (h : Init s) : ∃ l d, Tasks s l d 0 0 := by
  obtain ⟨s₀, g₁, g₂, htotal, hpid, hdead, hawait, h₁, h₂, rfl⟩ := h
  have hwf := wf_initScheduler htotal hpid hdead hawait h₁ h₂
  have hne : g₁.task ≠ g₂.task := by
    have hnd := hwf.ring.1
    rw [show (s₀.initScheduler g₁ g₂).currentTask = g₁.task from rfl] at hnd
    simpa using hnd
  have htype : ∀ x, ((s₀.initScheduler g₁ g₂).task x).type =
      if x = g₂.task then .ring0 else if x = g₁.task then .ring0 else (s₀.task x).type := by
    intro x
    have hkeeps :
        Keeps ((s₀.createIdle g₁).createTask g₂ (s₀.createIdle g₁).layout.reaperTaskLoop .ring0)
        (s₀.initScheduler g₁ g₂) := by
      generalize hs :
        (s₀.createIdle g₁).createTask g₂ (s₀.createIdle g₁).layout.reaperTaskLoop .ring0 = s₂
      have hst :=
        ((s₂.still_setStatus g₂.task .sleep).trans (still_setNext _ g₁.task g₂.task)).trans
        (still_setNext _ g₂.task g₁.task)
      subst hs
      exact ⟨hst.fixed, rfl, rfl, rfl⟩
    have hidle : ((s₀.createIdle g₁).task x).type =
        ((s₀.createTask g₁ s₀.layout.idleTaskLoop .ring0).task x).type :=
      (still_setStatus _ g₁.task .schedulerIdle).taskType x
    rw [hkeeps.taskType, type_createTask, hidle, type_createTask]
  refine ⟨_, _, hwf, htotal, ?_, ?_⟩
  · intro x hx hu
    change x ∈ g₁.task :: [g₂.task] ++ [] at hx
    have hcases : x = g₁.task ∨ x = g₂.task := by simpa using hx
    exact absurd hcases (not_or.mpr hu)
  · change ((s₀.initScheduler g₁ g₂).task g₁.task).type = _ ∧
      ((s₀.initScheduler g₁ g₂).task g₂.task).type = _
    rw [htype, htype, if_neg hne, if_pos rfl, if_pos rfl]
    exact ⟨rfl, rfl⟩

end Sched

namespace Keyboard

/-- Entries of the table for keys that type a character. -/
def keys (cs : List Char) : List (Option UInt8) := cs.map fun c => some c.toUInt8

/-- `scancodes`: for each string of the table its first character, and `none` for `NULL`. -/
def scancodes : List (Option UInt8) :=
  List.replicate 16 none ++ keys ['q', 'w', 'e', 'r', 't', 'y', 'u', 'i', 'o', 'p'] ++
    [none, none, some newline, none] ++ keys ['a', 's', 'd', 'f', 'g', 'h', 'j', 'k', 'l'] ++
    List.replicate 5 none ++ keys ['z', 'x', 'c', 'v', 'b', 'n', 'm', ','] ++
      List.replicate 5 none ++
    keys [' ']

/-- The character `'t'`. -/
def letterT : UInt8 := 116

/-- What the handler finds for a scancode. -/
inductive Key
  /-- The key has been released. -/
  | released
  /-- The string of the key starts with this character. -/
  | typed (c : UInt8)
  /-- The entry is `NULL`. -/
  | null
  /-- The code is behind the table, whose entries end with the space bar. What is read there is
  undefined. -/
  | outside
deriving DecidableEq, Repr

/-- `scancodes[scancode]`, unless the key has been released. -/
def key (scancode : BitVec 8) : Key :=
  if scancode &&& 0x80#8 ≠ 0#8 then .released
  else match scancodes[scancode.toNat]? with
    | none => .outside
    | some none => .null
    | some (some c) => .typed c

/-- The characters that the keys type. -/
def characters : List UInt8 := scancodes.filterMap id

/-- A key types a character of the table. -/
lemma mem_characters_of_key {code : BitVec 8} {c : UInt8} (h : key code = .typed c) :
    c ∈ characters := by
  unfold key at h
  split_ifs at h
  cases hentry : scancodes[code.toNat]? with
  | none => rw [hentry] at h; cases h
  | some entry =>
    rw [hentry] at h
    cases entry with
    | none => cases h
    | some c' =>
      cases h
      exact List.mem_filterMap.mpr ⟨_, List.mem_of_getElem? hentry, rfl⟩

end Keyboard

namespace Console

open Keyboard

/-- `keyboard_interrupt_handler` with the scancode read from the port; `g` are the blocks
`create_task` obtains. There is no result where the handler looks at the first character of `NULL`.
There is none for a code behind the table either: the source reads whatever lies there, a run with
such a key is not followed any further. -/
def keyboardInterruptHandler (n : ℕ) (scancode : BitVec 8) (g : Grant) (k : Console) :
    Option Console :=
  match key scancode with
  | .released => some k
  | .typed c =>
    if c = letterT then (k.sched.enqueueTask n g 0 .ring3).map fun s => { k with sched := s }
    else some (k.writeTtyBuffer c)
  | .null => none
  | .outside => none

/-- The bytes that `syscall_handler` delivers for `SYS_READ`: none when the caller goes to sleep or
the call fails. -/
def delivered (k : Console) (fd len : ℕ) : List UInt8 :=
  if k.stdinBufferHasLine then (k.sysRead fd len).1.getD [] else []

end Console

/-! ## The terminal in use -/

/-- The console with a record of its use. -/
structure Terminal where
  console : Console
  /-- The characters written to the terminal by keys, in order. -/
  typed : List UInt8
  /-- The bytes delivered to the tasks that read, in order. -/
  returned : List UInt8
  /-- The number of tasks created. -/
  created : ℕ
  /-- The number of tasks that have exited. -/
  exits : ℕ

namespace Terminal

open Sched Keyboard Linked

/-- What can happen: a keyboard interrupt, a read or an `ioctl` of the running task, or another
event of the scheduler. -/
inductive Event
  | key (scancode : BitVec 8) (g : Grant)
  | read (f : StateFrame) (fd len : ℕ)
  | ioctl (request arg : Word)
  | sched (e : Sched.Event)

/-- When an event can happen: a key that creates a task gets fresh blocks, system calls are made by
user tasks, and tasks are created, sleep and wake through keys and reads only. -/
def Enabled (t : Terminal) : Event → Prop
  | .key code g => Keyboard.key code = .typed letterT → t.console.sched.Fresh g
  | .read _ _ _ => t.console.sched.IsUser t.console.sched.currentTask
  | .ioctl _ _ => t.console.sched.IsUser t.console.sched.currentTask
  | .sched e => t.console.sched.Enabled e ∧ e ≠ .wake ∧ (∀ f, e ≠ .await f) ∧
      ∀ g entry type, e ≠ .enqueue g entry type

/-- The characters a scancode sends to the terminal. -/
def sent (code : BitVec 8) : List UInt8 :=
  match Keyboard.key code with
  | .typed c => if c = letterT then [] else [c]
  | _ => []

/-- What an event does, each loop of the scheduler running at most `n` times. -/
def exec (n : ℕ) (t : Terminal) : Event → Option Terminal
  | .key code g => (t.console.keyboardInterruptHandler n code g).map fun k =>
    { t with
      console := k
      typed := t.typed ++ sent code
      created := t.created + if Keyboard.key code = .typed letterT then 1 else 0 }
  | .read f fd len => (t.console.syscallRead n f fd len).map fun k =>
    { t with console := k, returned := t.returned ++ t.console.delivered fd len }
  | .ioctl request arg => some
    { t with console := { t.console with flags := Ring0.ioctlFlags t.console.flags request arg } }
  | .sched e => (t.console.sched.exec n e).map fun s =>
    { t with
      console := { t.console with sched := s }, exits := t.exits + if e = .exit then 1 else 0 }

/-- An enabled event happens and all its loops return. -/
def Step (t : Terminal) (e : Event) (t' : Terminal) : Prop :=
  t.Enabled e ∧ ∃ n, t.exec n e = some t'

/-- The state after `init_scheduler`, with an empty buffer. -/
def Init (t : Terminal) : Prop :=
  t.console.Init ∧ t.typed = [] ∧ t.returned = [] ∧ t.created = 0 ∧ t.exits = 0

variable {t t' : Terminal} {k k' : Console} {s s' : Sched} {l d : List Word}
    {u : List UInt8} {c : UInt8}
  {n : ℕ} {code : BitVec 8} {g : Grant} {e : Event}

/-! ## One key -/

/-- What a key sends that types a character: `'t'` creates a task instead. -/
lemma sent_of_typed (h : Keyboard.key code = .typed c) :
    sent code = if c = letterT then [] else [c] := by
  unfold sent
  rw [h]

/-- **What the handler does** when it returns. -/
lemma keyboard_cases (h : k.keyboardInterruptHandler n code g = some k') :
    (Keyboard.key code = .released ∧ k' = k) ∨
      (∃ c, Keyboard.key code = .typed c ∧ c ≠ letterT ∧ k' = k.writeTtyBuffer c) ∨
      Keyboard.key code = .typed letterT ∧
        ∃ s', k.sched.enqueueTask n g 0 .ring3 = some s' ∧ k' = { k with sched := s' } := by
  unfold Console.keyboardInterruptHandler at h
  cases hkey : Keyboard.key code with
  | released =>
    rw [hkey] at h
    exact .inl ⟨rfl, (Option.some.inj h).symm⟩
  | typed c =>
    rw [hkey] at h
    dsimp only at h
    split_ifs at h with hc
    · obtain ⟨s', hs, rfl⟩ := Option.map_eq_some_iff.mp h
      exact .inr (.inr ⟨by rw [hc], s', hs, rfl⟩)
    · exact .inr (.inl ⟨c, rfl, hc, (Option.some.inj h).symm⟩)
  | null =>
    rw [hkey] at h
    cases h
  | outside =>
    rw [hkey] at h
    cases h

/-- Writing a character leaves the unread ones or drops some of them, and the new character comes
last if it is stored. -/
lemma exists_unread_write (h : k.Unread u) (c : UInt8) :
    ∃ u', (k.writeTtyBuffer c).Unread u' ∧ u'.Sublist (u ++ [c]) := by
  by_cases hawait : k.sched.awaitingStdin = 0
  · exact ⟨u, (h.write_of_not_awaiting hawait).1, List.sublist_append_left u [c]⟩
  · rw [Console.writeTtyBuffer_of_awaiting hawait]
    by_cases hroom : (k.echo c).Room
    · exact ⟨u ++ [c], (h.echo.store hroom).wakeReader, List.Sublist.refl _⟩
    · by_cases hend : (k.echo c).bufferHead = stdinBufferSize
      · obtain ⟨u', hu', -, hlast⟩ := h.echo.store_of_not_room (c := c) hroom
        rw [hlast hend] at hu'
        exact ⟨[c], hu'.wakeReader, List.sublist_append_right u [c]⟩
      · -- the writer is at the end of the array and the reader is not: the character is dropped
        have hfull : ¬(k.echo c).bufferTail < stdinBufferSize := by
          unfold Console.Room at hroom
          tauto
        have hstore : (k.echo c).store c = k.echo c := if_neg hfull
        have hwrapped : (k.echo c).storeWrapped c = k.echo c := by
          refine if_neg fun hboth => ?_
          have := h.echo (c := c).bufferTail_le
          omega
        rw [hstore, hwrapped]
        exact ⟨u, h.echo.wakeReader, List.sublist_append_left u [c]⟩

/-! ## The invariant -/

/-- The invariant: the tasks, the unread characters, and what the record says. -/
structure Inv (t : Terminal) (l d : List Word) (u : List UInt8) : Prop where
  tasks : Tasks t.console.sched l d t.created t.exits
  unread : t.console.Unread u
  order : (t.returned ++ u).Sublist t.typed
  alphabet : ∀ c ∈ t.typed, c ∈ characters ∧ c ≠ letterT

/-- The scheduler's part of a write: the reader is woken, or nothing changes. -/
lemma Tasks.write {a b : ℕ} (h : Tasks k.sched l d a b) (c : UInt8) :
    ∃ l' d', Tasks (k.writeTtyBuffer c).sched l' d' a b := by
  rw [Console.sched_writeTtyBuffer]
  split_ifs
  · exact h.step (e := .wake) ⟨trivial, 0, rfl⟩ nofun
  · exact ⟨l, d, h⟩

/-- **A keyboard interrupt** keeps the invariant. -/
lemma Inv.key (h : t.Inv l d u) (hen : t.Enabled (.key code g))
    (hs : t.exec n (.key code g) = some t') : ∃ l' d' u', t'.Inv l' d' u' := by
  obtain ⟨k, hk, rfl⟩ := Option.map_eq_some_iff.mp hs
  rcases keyboard_cases hk with ⟨hkey, rfl⟩ | ⟨c, hkey, hc, rfl⟩ | ⟨hkey, s', henq, rfl⟩
  · have hsent : sent code = [] := by
      unfold sent
      rw [hkey]
    refine ⟨l, d, u, ?_, h.unread, ?_, ?_⟩
    · rw [hkey, if_neg (by simp)]
      exact h.tasks
    · rw [hsent, List.append_nil]
      exact h.order
    · rw [hsent, List.append_nil]
      exact h.alphabet
  · -- a character is written, which may wake the reader
    have hsent : sent code = [c] := (sent_of_typed hkey).trans (if_neg hc)
    obtain ⟨u', hu', hsub⟩ := exists_unread_write h.unread c
    obtain ⟨l', d', htasks⟩ := Tasks.write h.tasks c
    refine ⟨l', d', u', ?_, hu', ?_, ?_⟩
    · rw [hkey, if_neg (by simpa using hc)]
      exact htasks
    · rw [hsent]
      refine (hsub.append_left t.returned).trans ?_
      rw [← List.append_assoc]
      exact h.order.append_right [c]
    · intro c' hc'
      rw [hsent] at hc'
      rcases List.mem_append.mp hc' with hc' | hc'
      · exact h.alphabet c' hc'
      · rw [List.mem_singleton.mp hc']
        exact ⟨mem_characters_of_key hkey, hc⟩
  · have hsent : sent code = [] := (sent_of_typed hkey).trans (if_pos rfl)
    refine ⟨l ++ [g.task], d, u, ?_, h.unread.congr rfl rfl rfl, ?_, ?_⟩
    · rw [if_pos hkey]
      exact h.tasks.enqueue (hen hkey) henq
    · rw [hsent, List.append_nil]
      exact h.order
    · rw [hsent, List.append_nil]
      exact h.alphabet

/-- The bytes delivered are the oldest unread characters, and the others stay unread. -/
lemma exists_unread_read (h : k.Unread u) {f : StateFrame} {fd len : ℕ}
    (hs : k.syscallRead n f fd len = some k') : ∃ u', k'.Unread u' ∧ k.delivered fd len ++ u' = u ∧
      (k'.sched = k.sched ∨ k.sched.awaitStdin n f = some k'.sched) := by
  unfold Console.syscallRead at hs
  unfold Console.delivered
  split_ifs at hs ⊢ with hline
  · obtain rfl := Option.some.inj hs
    unfold Console.sysRead
    split_ifs
    · exact ⟨u, h, rfl, .inl rfl⟩
    · obtain ⟨hout, hrest⟩ := h.ttyRead len
      refine ⟨_, hrest, ?_, .inl (Console.sched_ttyRead k len)⟩
      rw [Option.getD_some, hout, List.take_append_drop]
  · obtain ⟨s', hawait, rfl⟩ := Option.map_eq_some_iff.mp hs
    exact ⟨u, h.congr rfl rfl rfl, rfl, .inr hawait⟩

/-- A read keeps the invariant. -/
lemma Inv.read {f : StateFrame} {fd len : ℕ} (h : t.Inv l d u) (hen : t.Enabled (.read f fd len))
    (hs : t.exec n (.read f fd len) = some t') : ∃ l' d' u', t'.Inv l' d' u' := by
  obtain ⟨k, hk, rfl⟩ := Option.map_eq_some_iff.mp hs
  obtain ⟨u', hu', hall, hsched⟩ := exists_unread_read h.unread hk
  have horder : ((t.returned ++ t.console.delivered fd len) ++ u').Sublist t.typed := by
    rw [List.append_assoc, hall]
    exact h.order
  rcases hsched with heq | hawait
  · exact ⟨l, d, u', heq ▸ h.tasks, hu', horder, h.alphabet⟩
  · obtain ⟨l', d', htasks⟩ := h.tasks.step (e := .await f) ⟨hen, n, hawait⟩ nofun
    exact ⟨l', d', u', htasks, hu', horder, h.alphabet⟩

/-- **Every event keeps the invariant.** -/
theorem Inv.step {e : Event} (h : t.Inv l d u) (hs : t.Step e t') :
    ∃ l' d' u', t'.Inv l' d' u' := by
  obtain ⟨hen, n, hs⟩ := hs
  cases e with
  | key code g => exact h.key hen hs
  | read f fd len => exact h.read hen hs
  | ioctl request arg =>
    obtain rfl := Option.some.inj hs
    exact ⟨l, d, u, h.tasks, h.unread.congr rfl rfl rfl, h.order, h.alphabet⟩
  | sched e =>
    obtain ⟨s', hexec, rfl⟩ := Option.map_eq_some_iff.mp hs
    obtain ⟨l', d', htasks⟩ := h.tasks.step ⟨hen.1, n, hexec⟩ hen.2.2.2
    exact ⟨l', d', u, htasks, h.unread.congr rfl rfl rfl, h.order, h.alphabet⟩

/-- The invariant holds in every state that can be reached. -/
lemma inv_of_reach (h : Transition.Reach Init Step (fun _ _ => True) t) : ∃ l d u, t.Inv l d u := by
  refine h.invariant (I := fun t => ∃ l d u, t.Inv l d u) ?_ ?_
  · rintro t ⟨⟨hinit, hhead, htail⟩, htyped, hreturned, hcreated, hexits⟩
    obtain ⟨l, d, htasks⟩ := tasks_of_init hinit
    refine ⟨l, d, [], ?_, .inl ⟨by omega, by omega, ?_⟩, ?_, ?_⟩
    · rw [hcreated, hexits]
      exact htasks
    · simp [hhead, htail]
    · simp [hreturned]
    · simp [htyped]
  · rintro t e t' ⟨l, d, u, hinv⟩ - hs
    exact hinv.step hs

/-! ## Whole runs -/

/-- **What is read was typed.** In every state reached by keyboard interrupts, reads and `ioctl`
calls of any user tasks, ticks, exits and passes of the reaper: the bytes delivered so far, followed
by the unread characters, are a subsequence of the characters typed. So nothing is delivered twice,
out of order or without having been typed, whichever task reads; and no task ever reads the letter
`t`. -/
theorem read_of_typed {t : Terminal} (h : Transition.Reach Init Step (fun _ _ => True) t) :
    ∃ u, t.console.Unread u ∧ (t.returned ++ u).Sublist t.typed ∧
      ∀ c ∈ t.returned ++ u, c ∈ characters ∧ c ≠ letterT := by
  obtain ⟨l, d, u, hinv⟩ := inv_of_reach h
  exact ⟨u, hinv.unread, hinv.order, fun c hc => hinv.alphabet c (hinv.order.subset hc)⟩

/-- **The tasks are those of the key of `t`.** In every such state the user tasks counted in
`task_total` together with those that have exited are as many as the times the key of `t` has
created one, and of the tasks of the ring and of the dead queue exactly the user tasks run in ring
3. -/
theorem tasks_of_keys {t : Terminal} (h : Transition.Reach Init Step (fun _ _ => True) t) :
    t.console.sched.taskTotal + t.exits = t.created ∧
      ∃ l d, Ring t.console.sched.next t.console.sched.currentTask l ∧
        Lseg t.console.sched.next t.console.sched.deadQueue d 0 ∧
        (t.console.sched.currentTask :: l).length = t.console.sched.taskTotal + 2 ∧
        ∀ x ∈ t.console.sched.currentTask :: l ++ d,
          ((t.console.sched.task x).type = .ring3 ↔ t.console.sched.IsUser x) := by
  obtain ⟨l, d, u, hinv⟩ := inv_of_reach h
  have hwf := hinv.tasks.wf
  refine ⟨hinv.tasks.count, l, d, hwf.ring, hwf.core.dead, hwf.core.total, fun x hx => ?_⟩
  refine ⟨fun htype => ⟨?_, ?_⟩, hinv.tasks.ring3 x hx⟩
  · rintro rfl
    rw [hinv.tasks.ring0.1] at htype
    cases htype
  · rintro rfl
    rw [hinv.tasks.ring0.2] at htype
    cases htype

/-! ## A line typed and read -/

namespace Line

/-- The state an event leads to, its loops running at most `n` times. -/
def after (n : ℕ) (t : Terminal) (e : Event) : Terminal := (t.exec n e).getD t

/-- An enabled event whose loops return within `n` rounds. -/
lemma step_after {n : ℕ} {t : Terminal} {e : Event} (hen : t.Enabled e)
    (h : (t.exec n e).isSome = true) :
    t.Step e (after n t e) := by
  obtain ⟨t', ht'⟩ := Option.isSome_iff_exists.mp h
  exact ⟨hen, n, by rw [after, ht', Option.getD_some]⟩

/-- The key of `t` creates a task, the timer dispatches it, and it reads; the letter `a` and a
newline are typed; the timer dispatches the reader again, and it reads the line. -/
def events : ℕ → Event
  | 0 => .key 0x14#8 (Hang.grantAt 0x3000#32 0x7000#32)
  | 1 => .sched (.tick default)
  | 2 => .read default 0 5
  | 3 => .key 0x1E#8 default
  | 4 => .key 0x1C#8 default
  | 5 => .sched (.tick default)
  | _ => .read default 0 5

/-- The states of the run, from the one after `init_scheduler`. -/
def states : ℕ → Terminal
  | 0 => ⟨Hang.console Hang.s₀, [], [], 0, 0⟩
  | i + 1 => after 5 (states i) (events i)

/-- The run is one of the terminal. -/
lemma run_states : Transition.Run Init Step 7 states events where
  start := ⟨⟨Hang.init_s₀, rfl, rfl⟩, rfl, rfl, rfl, rfl⟩
  step := by
    intro i hi
    obtain rfl | rfl | rfl | rfl | rfl | rfl | rfl : i = 0 ∨ i = 1 ∨ i = 2 ∨ i = 3 ∨ i = 4 ∨
        i = 5 ∨ i = 6 := by
      omega
    · exact step_after (fun _ => Hang.fresh_s₀) (by decide +kernel)
    · exact step_after ⟨trivial, nofun, nofun, nofun⟩ (by decide +kernel)
    · exact step_after ⟨by decide +kernel, by decide +kernel⟩ (by decide +kernel)
    · exact step_after (fun h => absurd h (by decide)) (by decide +kernel)
    · exact step_after (fun h => absurd h (by decide)) (by decide +kernel)
    · exact step_after ⟨trivial, nofun, nofun, nofun⟩ (by decide +kernel)
    · exact step_after ⟨by decide +kernel, by decide +kernel⟩ (by decide +kernel)

end Line

/-- The line is read as it was typed. -/
theorem read_of_typed_states :
    (Line.states 7).returned = [97, 10] ∧ ∃ u, (Line.states 7).console.Unread u ∧
    ((Line.states 7).returned ++ u).Sublist (Line.states 7).typed := by
  obtain ⟨u, hu, hsub, -⟩ := read_of_typed (Line.run_states.reach (Nat.le_refl 7))
  exact ⟨by decide +kernel, u, hu, hsub⟩

/-- One task has been created. -/
theorem tasks_of_keys_states :
    (Line.states 7).console.sched.taskTotal + (Line.states 7).exits = 1 := by
  have hcreated : (Line.states 7).created = 1 := by decide +kernel
  rw [← hcreated]
  exact (tasks_of_keys (Line.run_states.reach (Nat.le_refl 7))).1

end Terminal

end AlphaOS
