import AlphaOS.Sched.Progress

set_option relaxedAutoImplicit false
set_option autoImplicit false

/-!
# When the idle task is dispatched

The idle task sits on the same ring as every other task and `next_task` stops at it as soon as it
is awake, whether or not a ready task comes later on the ring. What keeps it from running is only
that it sleeps. `enqueue_task` puts it to sleep; but `scheduler_tick` makes the task it interrupts
ready, also the idle task that has just been put to sleep, and nothing puts it to sleep again when
a waiting reader is woken. This file says exactly which events dispatch the idle task while
another task is ready.

## Main definitions

* `AlphaOS.Sched.LoadsIn` — the state in which an event's `load_context` chooses a task.
* `AlphaOS.Sched.IdleAlone` — if the event dispatches the idle task, no other task is ready.
* `AlphaOS.Sched.Yields` — the condition on the state before the event: the idle task sleeps and is
  not woken by the event, or a ready task comes before it on the ring, or there is no ready task.

## Main results

* `AlphaOS.Sched.idle_dispatched_alone_iff` — along every run, the idle task is dispatched only when
  no other task is ready if and only if every event of the run meets `Yields`.
* `AlphaOS.Sched.idle_dispatched_beside_ready` — one creation and two ticks after `init_scheduler`,
  the idle task is dispatched while the created task is ready.
-/

namespace AlphaOS

namespace Sched

open Linked

variable {s s' c : Sched} {r l d : List Word} {t : Word} {n : ℕ} {e : Event}

/-! ## The property and the condition -/

/-- `LoadsIn s e c`: from `s`, the event `e` calls `load_context`, whose `next_task` is called in
the state `c`. -/
inductive LoadsIn : Sched → Event → Sched → Prop
  | tick {s : Sched} (f : StateFrame) {n : ℕ} {t : Word} (h : nextTask n s.wakeIdleIfAlone = some t)
      (hne : t ≠ s.currentTask) :
      LoadsIn s (.tick f) (s.wakeIdleIfAlone.tickSuspend.saveContext (some f))
  | await {s : Sched} (f : StateFrame) :
      LoadsIn s (.await f) (s.awaitPrepare.saveContext (some (awaitFrame f)))
  | exit {s s' : Sched} {n : ℕ} (h : s.exitPrepare n = some s') : LoadsIn s .exit s'
  | reap {s s' : Sched} {n : ℕ} (h : drainDeadQueue n s = some s') :
      LoadsIn s .reap s'.sleepReaperTask

/-- The task at `t` is on the ring that `next_task` walks. -/
def OnWalk (c : Sched) (t : Word) : Prop := ∃ k, c.next^[k] (c.next c.currentTask) = t

/-- In the state `c`, if `next_task` returns the idle task then no other task of the ring is
ready. -/
def ChosenAlone (c : Sched) : Prop :=
  ∀ n, nextTask n c = some c.idleTask → ∀ t, c.OnWalk t → t ≠ c.idleTask → c.status t ≠ .ready

/-- If the event dispatches the idle task, no other task of the ring is ready. -/
def IdleAlone (s : Sched) (e : Event) : Prop := ∀ c, LoadsIn s e c → c.ChosenAlone

/-- Following the ring from the current task, a ready task comes before the idle task. -/
def ReadyBefore (s : Sched) : Prop :=
  ∃ l, Lseg s.next (s.next s.currentTask) l s.idleTask ∧ s.idleTask ∉ l ∧
    ∃ t ∈ l, s.status t = .ready

/-- A task of the ring that is neither the current one nor the idle task is ready. -/
def UserReady (s : Sched) : Prop :=
  ∃ t, s.OnRing t ∧ t ≠ s.currentTask ∧ t ≠ s.idleTask ∧ s.status t = .ready

/-- The idle task stands back at the event: it is the task the tick interrupts; or it sleeps and the
event's test of `task_total` does not wake it; or a ready task comes before it on the ring; or,
where the event does not itself make the interrupted task ready, there is no ready task. -/
def Yields (s : Sched) : Event → Prop
  | .enqueue _ _ _ => True
  | .wake => True
  | .tick _ => s.currentTask = s.idleTask ∨ s.taskTotal ≠ 0 ∧ s.status s.idleTask = .sleep ∨
      s.ReadyBefore
  | .await _ => s.taskTotal ≠ 1 ∧ s.status s.idleTask = .sleep ∨ s.ReadyBefore ∨ ¬ s.UserReady
  | .exit => s.taskTotal ≠ 1 ∧ s.status s.idleTask = .sleep ∨ s.ReadyBefore ∨ ¬ s.UserReady
  | .reap => s.status s.idleTask = .sleep ∨ s.ReadyBefore ∨ ¬ s.UserReady

/-! ## One call of `next_task` -/

/-- A task of the ring other than the idle task is selectable only when it is ready. -/
lemma Core.selectable_eq_false (h : Core s r d) (ht : t ∈ r) (hne : t ≠ s.idleTask)
    (hst : s.status t ≠ .ready) : selectable (s.status t) = false := by
  cases hs : s.status t with
  | ready => exact absurd hs hst
  | schedulerIdle => exact absurd (h.only_idle t ht hs) hne
  | running => rfl
  | sleep => rfl

/-- The idle task is selectable unless it sleeps. -/
lemma Core.idle_selectable (h : Core s r d) (hst : s.status s.idleTask ≠ .sleep) :
    selectable (s.status s.idleTask) = true := by
  have hrun := h.idle_status
  cases hs : s.status s.idleTask with
  | ready => rfl
  | schedulerIdle => rfl
  | running => exact absurd hs hrun
  | sleep => exact absurd hs hst

/-- **When the idle task is chosen alone.** The ring ahead is `l₁`, the idle task, and `l₂`: the
idle task is chosen beside a ready task if and only if it is awake, no task of `l₁` is ready and
some task of `l₂` is.

**Proof sketch.** With no ready task in `l₁` the walk of `next_task` passes over `l₁` and stops at
the idle task. Conversely the tasks the walk passes over are the tasks of `l₁`, since the idle task
occurs once on the ring. -/
lemma Core.chosenAlone_iff {l₁ l₂ : List Word} (hring : Ring c.next (c.next c.currentTask) l)
    (hcore : Core c (c.next c.currentTask :: l) d)
    (hr : c.next c.currentTask :: l = l₁ ++ c.idleTask :: l₂) :
    c.ChosenAlone ↔ c.status c.idleTask = .sleep ∨ (∃ t ∈ l₁, c.status t = .ready) ∨
      ∀ t ∈ l₂, c.status t ≠ .ready := by
  have hnd : (l₁ ++ c.idleTask :: l₂).Nodup := hr ▸ hring.1
  have hne₁ : ∀ t ∈ l₁, t ≠ c.idleTask :=
    fun t ht => (List.nodup_append.mp hnd).2.2 t ht _ List.mem_cons_self
  have hne₂ : ∀ t ∈ l₂, t ≠ c.idleTask := by
    rintro t ht rfl
    exact (List.nodup_cons.mp (List.nodup_append.mp hnd).2.1).1 ht
  have hmem : ∀ t, c.OnWalk t ↔ t ∈ l₁ ++ c.idleTask :: l₂ := by
    intro t
    rw [← hr]
    exact ⟨fun ⟨k, hk⟩ => hk ▸ hring.iterate_mem k, hring.2.exists_iterate t⟩
  constructor
  · intro halone
    by_contra hcon
    push Not at hcon
    obtain ⟨hawake, hskip, t, ht, hready⟩ := hcon
    have hfalse : ∀ b ∈ l₁, selectable (c.status b) = false := by
      intro b hb
      have hbr : b ∈ c.next c.currentTask :: l := by
        rw [hr]
        exact List.mem_append_left _ hb
      exact hcore.selectable_eq_false hbr (hne₁ b hb) (hskip b hb)
    have hwalk : nextTask (l₁.length + 1) c = some c.idleTask :=
      walk_of_lseg (hr ▸ hring.2) hfalse (hcore.idle_selectable hawake) (Nat.lt_succ_self _)
    exact halone _ hwalk t ((hmem t).mpr (by simp [ht])) (hne₂ t ht) hready
  · intro hor n hn t ht hne hready
    obtain ⟨hin, hsel⟩ := mem_of_nextTask hring hn
    obtain ⟨m₁, m₂, hm, hskip⟩ := walk_first hring.2 hn hin hsel
    have heq : l₁ = m₁ := ((List.append_cons_inj_of_notMem (fun hi => hne₁ _ hi rfl)
      fun hi => hne₂ _ hi rfl).mp (hr.symm.trans hm)).1
    have hpass : ∀ u ∈ l₁, c.status u ≠ .ready := by
      intro u hu hru
      have := hskip u (heq ▸ hu)
      simp [hru, selectable] at this
    rcases hor with hsleep | ⟨u, hu, hru⟩ | hlate
    · simp [hsleep, selectable] at hsel
    · exact hpass u hu hru
    · rcases List.mem_append.mp ((hmem t).mp ht) with h₁ | h₂
      · exact hpass t h₁ hready
      · exact hlate t ((List.mem_cons.mp h₂).resolve_left hne) hready

/-! ## What an event does before its `load_context` -/

/-- Between the state `s` before an event and the state `c` of its `load_context` only two statuses
change: the current task's, and the idle task's, which is woken if `w` holds. -/
structure Prepared (s c : Sched) (w : Prop) : Prop where
  idleTask : c.idleTask = s.idleTask
  idle : c.status s.idleTask = .sleep ↔ ¬ w ∧ s.status s.idleTask = .sleep
  others : ∀ u, u ≠ s.idleTask → u ≠ s.currentTask → c.status u = s.status u

/-- The ring of a state, when the idle task is not the current one, split at the idle task. -/
lemma Wf.exists_split (h : Wf s l d) (hne : s.currentTask ≠ s.idleTask) :
    ∃ l₁ l₂, l = l₁ ++ s.idleTask :: l₂ :=
  List.append_of_mem ((List.mem_cons.mp h.core.idle_mem).resolve_left hne.symm)

/-- A ready task comes before the idle task if and only if it is among the tasks between the current
one and the idle task. -/
lemma Wf.readyBefore_iff {l₁ l₂ : List Word} (h : Wf s (l₁ ++ s.idleTask :: l₂) d) :
    s.ReadyBefore ↔ ∃ t ∈ l₁, s.status t = .ready := by
  have hnd := (List.nodup_cons.mp h.ring.1).2
  have hl₁ : s.idleTask ∉ l₁ :=
    fun hi => (List.nodup_append.mp hnd).2.2 _ hi _ List.mem_cons_self rfl
  have hseg : Lseg s.next (s.next s.currentTask) l₁ s.idleTask := by
    obtain ⟨z, hz, hidle⟩ := lseg_append.mp h.ring.2.2
    exact hidle.eq_head ▸ hz
  constructor
  · rintro ⟨l', hl', hnot, t, ht, hready⟩
    exact ⟨t, hseg.eq_of_notMem hl₁ hl' hnot ▸ ht, hready⟩
  · rintro ⟨t, ht, hready⟩
    exact ⟨l₁, hseg, hl₁, t, ht, hready⟩

/-- A task other than the current one and the idle task is ready if and only if it is among the
tasks before or after the idle task. -/
lemma Wf.userReady_iff {l₁ l₂ : List Word} (h : Wf s (l₁ ++ s.idleTask :: l₂) d) :
    s.UserReady ↔ ∃ t ∈ l₁ ++ l₂, s.status t = .ready := by
  have hnd := (List.nodup_cons.mp h.ring.1).2
  simp only [UserReady, h.onRing_iff]
  constructor
  · rintro ⟨t, ht, hcur, hidle, hready⟩
    refine ⟨t, ?_, hready⟩
    rcases List.mem_append.mp ((List.mem_cons.mp ht).resolve_left hcur) with h₁ | h₂
    · exact List.mem_append_left _ h₁
    · exact List.mem_append_right _ ((List.mem_cons.mp h₂).resolve_left hidle)
  · rintro ⟨t, ht, hready⟩
    have hin : t ∈ l₁ ++ s.idleTask :: l₂ := by
      rcases List.mem_append.mp ht with h₁ | h₂
      · exact List.mem_append_left _ h₁
      · exact List.mem_append_right _ (List.mem_cons_of_mem _ h₂)
    refine ⟨t, List.mem_cons_of_mem _ hin, h.ne_current hin, ?_, hready⟩
    rintro rfl
    exact (List.nodup_middle.mp hnd).notMem ht

/-- **An event that leaves no ready task behind the ring's end**, in terms of the state before it:
the tasks of the ring ahead are those of the ring before, followed by tasks `q` none of which is
ready. -/
lemma Prepared.chosenAlone_iff {w : Prop} {l₁ l₂ q d' : List Word} (hp : Prepared s c w)
    (h : Wf s (l₁ ++ s.idleTask :: l₂) d) (hring : Ring c.next (c.next c.currentTask) l)
    (hcore : Core c (c.next c.currentTask :: l) d')
    (hr : c.next c.currentTask :: l = l₁ ++ s.idleTask :: (l₂ ++ q))
    (hq : ∀ t ∈ q, c.status t ≠ .ready) :
    c.ChosenAlone ↔ ¬ w ∧ s.status s.idleTask = .sleep ∨ s.ReadyBefore ∨ ¬ s.UserReady := by
  have hnd := List.nodup_middle.mp (List.nodup_cons.mp h.ring.1).2
  have hst : ∀ t ∈ l₁ ++ l₂, c.status t = s.status t := by
    intro t ht
    refine hp.others t (fun he => hnd.notMem (he ▸ ht)) (h.ne_current ?_)
    rcases List.mem_append.mp ht with h₁ | h₂
    · exact List.mem_append_left _ h₁
    · exact List.mem_append_right _ (List.mem_cons_of_mem _ h₂)
  rw [hcore.chosenAlone_iff hring (hp.idleTask.symm ▸ hr), hp.idleTask, hp.idle, h.readyBefore_iff,
    h.userReady_iff]
  refine or_congr_right ?_
  constructor
  · rintro (⟨t, ht, hready⟩ | hlate)
    · exact .inl ⟨t, ht, hst t (List.mem_append_left _ ht) ▸ hready⟩
    · by_cases hex : ∃ t ∈ l₁, s.status t = .ready
      · exact .inl hex
      · refine .inr fun ⟨t, ht, hready⟩ => ?_
        rcases List.mem_append.mp ht with h₁ | h₂
        · exact hex ⟨t, h₁, hready⟩
        · exact hlate t (List.mem_append_left _ h₂) ((hst t ht).trans hready)
  · rintro (⟨t, ht, hready⟩ | hnone)
    · exact .inl ⟨t, ht, (hst t (List.mem_append_left _ ht)).trans hready⟩
    · refine .inr fun t ht hready => ?_
      rcases List.mem_append.mp ht with h₂ | h₃
      · exact hnone ⟨t, List.mem_append_right _ h₂,
          (hst t (List.mem_append_right _ h₂)).symm.trans hready⟩
      · exact hq t h₃ hready

/-- A saved context changes nothing that decides which task is chosen. -/
lemma chosenAlone_saveContext (f : Option StateFrame) :
    (c.saveContext f).ChosenAlone ↔ c.ChosenAlone := by
  have hidle : (c.saveContext f).idleTask = c.idleTask := by
    cases f with
    | none => rfl
    | some f => rfl
  simp only [ChosenAlone, OnWalk, nextTask, next_saveContext, status_saveContext,
    currentTask_saveContext, hidle]

/-- The ring of a suspended state, from the successor of the current task on. -/
lemma Suspended.ahead (h : Suspended c l d) :
    ∃ l', c.next c.currentTask :: l' = l ++ [c.currentTask] ∧
      Ring c.next (c.next c.currentTask) l' ∧ Core c (c.next c.currentTask :: l') d := by
  obtain ⟨l', hl', hring⟩ := h.ring.rotate_next
  refine ⟨l', hl', hring, h.core.perm ?_⟩
  rw [hl']
  exact (List.perm_append_comm : ([c.currentTask] ++ l).Perm (l ++ [c.currentTask]))

/-! ## The events -/

/-- The test of `task_total` made by a tick. -/
lemma prepared_wakeIdleIfAlone (s : Sched) : Prepared s s.wakeIdleIfAlone (s.taskTotal = 0) where
  idleTask := by
    unfold wakeIdleIfAlone
    split_ifs <;> rfl
  idle := by
    unfold wakeIdleIfAlone
    split_ifs with h0
    · rw [wakeIdleTask, status_setStatus, Function.update_self]
      simp [h0]
    · simp [h0]
  others := by
    intro u hu _
    unfold wakeIdleIfAlone
    split_ifs
    · rw [wakeIdleTask, status_setStatus, Function.update_of_ne hu]
    · rfl

/-- A tick that suspends leaves the idle task in place. -/
lemma idleTask_tickSuspend (s : Sched) : s.tickSuspend.idleTask = s.idleTask := by
  unfold tickSuspend
  split_ifs <;> rfl

/-- A tick that interrupts the idle task does not dispatch it. -/
lemma Wf.tick_of_idle (h : Wf s l d) (hcur : s.currentTask = s.idleTask)
    (ht : nextTask n s.wakeIdleIfAlone = some t) (hne : t ≠ s.currentTask) :
    s.wakeIdleIfAlone.tickSuspend.ChosenAlone := by
  have hwf := h.wakeIdleIfAlone
  obtain ⟨l₀, hl₀, hring₀⟩ := hwf.ring.rotate_next
  obtain ⟨hmem, hsel⟩ := mem_of_nextTask hring₀ ht
  rw [hl₀, currentTask_wakeIdleIfAlone] at hmem
  have htl : t ∈ l := by simpa [hne] using hmem
  obtain ⟨l', hl', hring', -⟩ := hwf.tickSuspend.ahead
  rw [currentTask_tickSuspend, currentTask_wakeIdleIfAlone] at hl'
  have hidle : s.wakeIdleIfAlone.tickSuspend.idleTask = s.currentTask := by
    rw [idleTask_tickSuspend, (prepared_wakeIdleIfAlone s).idleTask, hcur]
  intro m hm
  exfalso
  obtain ⟨l₁, hturn, -⟩ := turn_of_nextTask hring' hm
  rw [currentTask_tickSuspend, currentTask_wakeIdleIfAlone, hl'] at hturn
  refine hturn.ne_last (List.nodup_cons.mp h.ring.1).1 htl ?_ hidle
  rw [status_tickSuspend_of_ne (by rwa [currentTask_wakeIdleIfAlone])]
  exact hsel

/-- A tick that interrupts another task makes that task ready, so it dispatches the idle task only
at fault: when the idle task is awake and no ready task comes before it. -/
lemma Wf.tick_chosenAlone_iff (h : Wf s l d) (hcur : s.currentTask ≠ s.idleTask) :
    s.wakeIdleIfAlone.tickSuspend.ChosenAlone ↔
      s.taskTotal ≠ 0 ∧ s.status s.idleTask = .sleep ∨ s.ReadyBefore := by
  obtain ⟨l₁, l₂, rfl⟩ := h.exists_split hcur
  have hp := prepared_wakeIdleIfAlone s
  have hwf := h.wakeIdleIfAlone
  set c := s.wakeIdleIfAlone.tickSuspend with hc
  have hsus : Suspended c _ d := hwf.tickSuspend
  have hcc : c.currentTask = s.currentTask := by
    rw [hc, currentTask_tickSuspend, currentTask_wakeIdleIfAlone]
  have hst : ∀ u, u ≠ s.currentTask → c.status u = s.wakeIdleIfAlone.status u :=
    fun u hu => status_tickSuspend_of_ne (by rwa [currentTask_wakeIdleIfAlone])
  have hidle : c.idleTask = s.idleTask := (idleTask_tickSuspend _).trans hp.idleTask
  -- the interrupted task is not idling, so the tick makes it ready
  have hready : c.status s.currentTask = .ready := by
    have hnot : s.wakeIdleIfAlone.status s.wakeIdleIfAlone.currentTask ≠ .schedulerIdle := by
      intro he
      have := hwf.core.only_idle _ List.mem_cons_self he
      rw [currentTask_wakeIdleIfAlone, hp.idleTask] at this
      exact hcur this
    rw [hc, Sched.tickSuspend, if_pos hnot, status_setStatus, currentTask_wakeIdleIfAlone,
      Function.update_self]
  obtain ⟨l', hl', hring, hcore⟩ := hsus.ahead
  rw [hcc, List.append_assoc, List.cons_append] at hl'
  rw [hcore.chosenAlone_iff hring (by rw [hcc, hidle]; exact hl'), hidle, hst _ hcur.symm, hp.idle,
    h.readyBefore_iff]
  have hsame : ∀ t ∈ l₁, c.status t = s.status t := by
    intro t ht
    have htl : t ∈ l₁ ++ s.idleTask :: l₂ := List.mem_append_left _ ht
    have hti : t ≠ s.idleTask := by
      rintro rfl
      exact (List.nodup_middle.mp (List.nodup_cons.mp h.ring.1).2).notMem
        (List.mem_append_left _ ht)
    rw [hst t (h.ne_current htl), hp.others t hti (h.ne_current htl)]
  refine or_congr Iff.rfl ?_
  constructor
  · rintro (⟨t, ht, hr⟩ | hlate)
    · exact ⟨t, ht, hsame t ht ▸ hr⟩
    · exact absurd hready (hlate _ (by simp))
  · rintro ⟨t, ht, hr⟩
    exact .inl ⟨t, ht, (hsame t ht).trans hr⟩

/-- `await_stdin` puts the caller to sleep, and wakes the idle task if the caller is the only one.
-/
lemma Wf.await_chosenAlone_iff (h : Wf s l d) (huser : s.IsUser s.currentTask) :
    s.awaitPrepare.ChosenAlone ↔
      s.taskTotal ≠ 1 ∧ s.status s.idleTask = .sleep ∨ s.ReadyBefore ∨ ¬ s.UserReady := by
  obtain ⟨l₁, l₂, rfl⟩ := h.exists_split huser.1
  have hidle : s.awaitPrepare.idleTask = s.idleTask := by
    unfold Sched.awaitPrepare
    split_ifs <;> rfl
  have hp : Prepared s s.awaitPrepare (s.taskTotal = 1) := by
    refine ⟨hidle, ?_, fun u hu hcur => ?_⟩
    · by_cases h1 : s.taskTotal = 1
      · have hst : s.awaitPrepare.status s.idleTask = .schedulerIdle := by
          rw [Sched.awaitPrepare, if_pos h1]
          exact (congrFun (status_setStatus (s.setStatus s.currentTask .sleep) s.idleTask
            .schedulerIdle) _).trans (Function.update_self _ _ _)
        simp [hst, h1]
      · have hst : s.awaitPrepare.status s.idleTask = s.status s.idleTask := by
          rw [Sched.awaitPrepare, if_neg h1]
          exact (congrFun (status_setStatus s s.currentTask .sleep) _).trans
            (Function.update_of_ne huser.1.symm _ _)
        simp [hst, h1]
    · unfold Sched.awaitPrepare
      split_ifs
      · change (s.setStatus s.currentTask .sleep).wakeIdleTask.status u = _
        rw [wakeIdleTask, status_setStatus, status_setStatus,
          Function.update_of_ne (show u ≠ (s.setStatus s.currentTask .sleep).idleTask from hu),
          Function.update_of_ne hcur]
      · change (s.setStatus s.currentTask .sleep).status u = _
        rw [status_setStatus, Function.update_of_ne hcur]
  obtain ⟨l', hl', hring, hcore⟩ := (h.awaitPrepare huser).ahead
  refine hp.chosenAlone_iff h hring hcore (q := [s.currentTask]) ?_ ?_
  · rw [hl', currentTask_awaitPrepare, List.append_assoc, List.cons_append]
  · intro t ht
    obtain rfl := List.mem_singleton.mp ht
    rcases status_awaitPrepare huser s.currentTask with ⟨-, hs⟩ | ⟨hne, -⟩
    · rw [hs]
      simp
    · exact absurd rfl hne

/-- `task_exit` takes the caller off the ring, and wakes the idle task if the caller was the last.
-/
lemma Wf.exit_chosenAlone_iff (h : Wf s l d) (huser : s.IsUser s.currentTask)
    (hs : s.exitPrepare n = some c) :
    c.ChosenAlone ↔
      s.taskTotal ≠ 1 ∧ s.status s.idleTask = .sleep ∨ s.ReadyBefore ∨ ¬ s.UserReady := by
  obtain ⟨l₁, l₂, rfl⟩ := h.exists_split huser.1
  obtain ⟨-, -, -, l', hl, hring, hcore, -⟩ := h.exitPrepare huser hs
  obtain ⟨s₁, rfl, htot, hst, hidle, hcur⟩ := h.exitPrepare_countOut huser hs
  have hpos := h.taskTotal_pos huser
  have hw := prepared_wakeIdleIfAlone s₁
  have h1 : s.taskTotal - 1 = 0 ↔ s.taskTotal = 1 := by omega
  have hp : Prepared s s₁.wakeIdleIfAlone (s.taskTotal = 1) := by
    refine ⟨hw.idleTask.trans hidle, ?_, fun u hu hne => ?_⟩
    · rw [← h1, ← htot, ← hst, ← hidle]
      exact hw.idle
    · rw [hw.others u (hidle ▸ hu) (hcur ▸ hne), hst]
  refine hp.chosenAlone_iff h hring (hl ▸ hcore) (q := []) ?_ (by simp)
  rw [← hl, List.append_nil]

/-- The reaper goes to sleep once the dead queue is empty. -/
lemma Wf.reap_chosenAlone_iff (h : Wf s l d) (hcur : s.currentTask = s.reaperTask)
    (hs : Sched.drainDeadQueue n s = some s') :
    s'.sleepReaperTask.ChosenAlone ↔
      s.status s.idleTask = .sleep ∨ s.ReadyBefore ∨ ¬ s.UserReady := by
  have hidle : s.currentTask ≠ s.idleTask := hcur ▸ h.core.idle_ne_reaper.symm
  obtain ⟨l₁, l₂, rfl⟩ := h.exists_split hidle
  obtain ⟨hwf, rfl⟩ := h.drainDeadQueue hs
  generalize s.heap.diff (d.flatMap s.kfreed) = hp, s.spaces.diff (d.flatMap s.directory) = sp
    at hwf
  have hsus := hwf.sleepReaperTask hcur
  set s₁ : Sched := { s with deadQueue := 0, heap := hp, spaces := sp } with hs₁
  have hst : s₁.sleepReaperTask.status = Function.update s.status s.currentTask .sleep := by
    rw [hcur, Sched.sleepReaperTask, status_setStatus]
    rfl
  have hprep : Prepared s s₁.sleepReaperTask False := by
    refine ⟨rfl, ?_, fun u _ hne => ?_⟩
    · rw [hst, Function.update_of_ne hidle.symm]
      simp
    · rw [hst, Function.update_of_ne hne]
  obtain ⟨l', hl', hring, hcore⟩ := hsus.ahead
  have hiff := hprep.chosenAlone_iff h hring hcore (q := [s.currentTask]) (by
    rw [hl', List.append_assoc, List.cons_append]
    rfl) (by
    intro t ht
    obtain rfl := List.mem_singleton.mp ht
    rw [hst, Function.update_self]
    simp)
  simpa using hiff

/-! ## Runs -/

/-- A tick that interrupts another task while the idle task is awake, or is woken, switches tasks.
-/
lemma Wf.exists_tick_loads (h : Wf s l d) (hcur : s.currentTask ≠ s.idleTask)
    (hawake : s.taskTotal = 0 ∨ s.status s.idleTask ≠ .sleep) :
    ∃ n t, nextTask n s.wakeIdleIfAlone = some t ∧ t ≠ s.currentTask := by
  have hp := prepared_wakeIdleIfAlone s
  have hwf := h.wakeIdleIfAlone
  obtain ⟨n, t, ht⟩ := h.tick_returns_iff.mpr (hawake.imp_right .inl)
  refine ⟨n, t, ht, ?_⟩
  obtain ⟨l', hl', hring⟩ := hwf.ring.rotate_next
  obtain ⟨l₁, hturn, -⟩ := turn_of_nextTask hring ht
  rw [hl', currentTask_wakeIdleIfAlone] at hturn
  have hidle : s.idleTask ∈ l := (List.mem_cons.mp h.core.idle_mem).resolve_left hcur.symm
  refine hturn.ne_last (List.nodup_cons.mp h.ring.1).1 hidle ?_
  rw [← hp.idleTask]
  refine hwf.core.idle_selectable ?_
  rw [hp.idleTask]
  intro hsleep
  obtain ⟨h0, hst⟩ := hp.idle.mp hsleep
  exact hawake.elim h0 fun hne => hne hst

/-- **When a tick dispatches the idle task alone.** -/
lemma Wf.tick_idleAlone_iff (h : Wf s l d) (f : StateFrame) :
    s.IdleAlone (.tick f) ↔ s.Yields (.tick f) := by
  by_cases hcur : s.currentTask = s.idleTask
  · refine ⟨fun _ => .inl hcur, fun _ c hc => ?_⟩
    cases hc with
    | tick _ ht hne => exact (chosenAlone_saveContext _).mpr (h.tick_of_idle hcur ht hne)
  · have hiff := h.tick_chosenAlone_iff hcur
    constructor
    · intro halone
      refine .inr ?_
      by_contra hcon
      have hawake : s.taskTotal = 0 ∨ s.status s.idleTask ≠ .sleep := by
        by_contra hno
        push Not at hno
        exact hcon (.inl hno)
      obtain ⟨n, t, ht, hne⟩ := h.exists_tick_loads hcur hawake
      exact hcon (hiff.mp ((chosenAlone_saveContext _).mp (halone _ (.tick f ht hne))))
    · intro hy c hc
      cases hc with
      | tick _ ht hne =>
        exact (chosenAlone_saveContext _).mpr (hiff.mpr (hy.resolve_left hcur))

/-- **When an event dispatches the idle task alone.** In every reachable state, an enabled event
dispatches the idle task only when no other task is ready if and only if it meets `Yields`. -/
lemma idleAlone_iff_yields (h : Transition.Reach Init Step (fun _ _ => True) s)
    (hen : s.Enabled e) : s.IdleAlone e ↔ s.Yields e := by
  obtain ⟨l, d, hwf⟩ := wf_of_reach h
  cases e with
  | enqueue g entry type => exact ⟨fun _ => trivial, fun _ c hc => by cases hc⟩
  | wake => exact ⟨fun _ => trivial, fun _ c hc => by cases hc⟩
  | tick f => exact hwf.tick_idleAlone_iff f
  | await f =>
    have hiff := hwf.await_chosenAlone_iff hen
    refine ⟨fun hall => hiff.mp ((chosenAlone_saveContext _).mp (hall _ (.await f))),
      fun hy c hc => ?_⟩
    cases hc with
    | await => exact (chosenAlone_saveContext _).mpr (hiff.mpr hy)
  | exit =>
    obtain ⟨n, s', hs⟩ := hwf.exists_exitPrepare
    refine ⟨fun hall => (hwf.exit_chosenAlone_iff hen hs).mp (hall _ (.exit hs)), fun hy c hc => ?_⟩
    cases hc with
    | exit hs' => exact (hwf.exit_chosenAlone_iff hen hs').mpr hy
  | reap =>
    obtain ⟨n, s', hs⟩ := hwf.exists_drainDeadQueue
    refine ⟨fun hall => (hwf.reap_chosenAlone_iff hen hs).mp (hall _ (.reap hs)), fun hy c hc => ?_⟩
    cases hc with
    | reap hs' => exact (hwf.reap_chosenAlone_iff hen hs').mpr hy

/-- **When the idle task is dispatched only alone.** Along every run from `init_scheduler`, each
event dispatches the idle task only when no other task on the ring is ready if and only if each
event meets `Yields` in the state it happens in.

**Proof sketch.** The state before each event is reachable, and for each kind of event its walk
along the ring is known, so the two conditions agree event by event. -/
theorem idle_dispatched_alone_iff {N : ℕ} {τ : ℕ → Sched} {a : ℕ → Event}
    (h : Transition.Run Init Step N τ a) :
    (∀ i < N, (τ i).IdleAlone (a i)) ↔ ∀ i < N, (τ i).Yields (a i) := by
  refine forall_congr' fun i => forall_congr' fun hi => ?_
  exact idleAlone_iff_yields (h.reach (Nat.le_of_lt hi)) (h.step i hi).1

namespace Hang

/-- The second tick after the first creation interrupts the created task and dispatches the idle
task, which the first tick made ready. -/
def s₂' : Sched := (s₂.wakeIdleIfAlone.tickSuspend.saveContext (some default)).dispatch 0x1000#32

/-- The second tick leads from `s₂` to `s₂'`. -/
lemma step_s₂' : Step s₂ (.tick default) s₂' :=
  step_tick (n := 4) (t := 0x1000#32) (by decide +kernel) rfl rfl

/-- The states of a creation and two ticks. -/
def idleStates : ℕ → Sched
  | 0 => s₀
  | 1 => s₁
  | 2 => s₂
  | _ => s₂'

/-- A creation and two ticks. -/
def idleEvents : ℕ → Event
  | 0 => .enqueue (grantAt 0x3000#32 0x7000#32) 0 .ring3
  | _ => .tick default

/-- These states and events are a run. -/
lemma run_idleStates : Transition.Run Init Step 3 idleStates idleEvents := by
  refine ⟨init_s₀, fun i hi => ?_⟩
  match i, hi with
  | 0, _ => exact step_enqueue (n := 4) fresh_s₀ rfl
  | 1, _ => exact step_s₂
  | 2, _ => exact step_s₂'

end Hang

/-- **The idle task is dispatched beside a ready task**: one creation and two ticks after
`init_scheduler`. The creation puts the idle task to sleep while it is the current task, the first
tick makes it ready, and the second tick dispatches it while the created task, just interrupted, is
ready. -/
theorem idle_dispatched_beside_ready :
    ¬ ∀ s, Transition.Reach Init Step (fun _ _ => True) s → ∀ e, s.Enabled e → s.IdleAlone e := by
  intro hall
  have hreach : Transition.Reach Init Step (fun _ _ => True) Hang.s₂ :=
    Hang.reach_s₁.next trivial Hang.step_s₂
  have halone := hall Hang.s₂ hreach (.tick default) trivial _
    (.tick (n := 4) (t := 0x1000#32) default rfl (by decide +kernel))
  exact halone 4 rfl 0x3000#32 ⟨2, rfl⟩ (by decide +kernel) rfl

/-- The theorem on a concrete run: a creation and two ticks. -/
theorem idle_dispatched_alone_iff_states :
    (∀ i < 3, (Hang.idleStates i).IdleAlone (Hang.idleEvents i)) ↔
      ∀ i < 3, (Hang.idleStates i).Yields (Hang.idleEvents i) :=
  idle_dispatched_alone_iff Hang.run_idleStates

end Sched

end AlphaOS
