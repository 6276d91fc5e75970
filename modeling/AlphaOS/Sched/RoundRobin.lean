import AlphaOS.Sched.Progress

set_option relaxedAutoImplicit false
set_option autoImplicit false

/-!
# The ring and its order

What the task blocks look like in every reachable state, and in which order a run dispatches the
tasks. `next_task` starts behind the running task, `enqueue_task` links a new task in just before
it, and `task_exit` unlinks the running task itself, so that a ready task is never overtaken.

## Main definitions

* `AlphaOS.Sched.Ahead` — between the running task and one task of the ring, another one does not
  come.

## Main results

* `AlphaOS.Sched.links_of_reach` — the ring, the dead queue, the waiting task and the running task
  of every reachable state.
* `AlphaOS.Sched.dead_task_running` — an exited task keeps the status `TASK_RUNNING`.
* `AlphaOS.Sched.round_robin` — between two dispatches of a task every task that stays ready is
  dispatched.
-/

namespace AlphaOS

namespace Sched

open Linked

variable {s s' : Sched} {l d : List Word} {t x y : Word} {n : ℕ} {e : Event}

/-! ## The links of a reachable state -/

/-- The ring of a well-formed state is the idle task, the reaper and `task_total` user tasks. -/
lemma Wf.users (h : Wf s l d) : ∃ us : List Word,
    (s.currentTask :: l).Perm (s.idleTask :: s.reaperTask :: us) ∧ us.length = s.taskTotal ∧
      ∀ u ∈ us, s.IsUser u := by
  have hnd := h.ring.1
  obtain ⟨us₁, hp₁⟩ : ∃ us, (s.currentTask :: l).Perm (s.idleTask :: us) :=
    ⟨_, List.perm_cons_erase h.core.idle_mem⟩
  have hreaper : s.reaperTask ∈ us₁ := by
    have := hp₁.mem_iff.mp h.core.reaper_mem
    exact (List.mem_cons.mp this).resolve_left h.core.idle_ne_reaper.symm
  obtain ⟨us, hp₂⟩ : ∃ us, us₁.Perm (s.reaperTask :: us) := ⟨_, List.perm_cons_erase hreaper⟩
  have hp := hp₁.trans (hp₂.cons _)
  have hnd' := hp.nodup_iff.mp hnd
  refine ⟨us, hp, ?_, fun u hu => ⟨?_, ?_⟩⟩
  · have hlen := hp.length_eq
    rw [h.core.total] at hlen
    simpa using hlen.symm
  · rintro rfl
    simp [hu] at hnd'
  · rintro rfl
    simp [hu] at hnd'

/-- **The links of every reachable state.** Following `next` from `current_task` gives one cycle
without repetition, made of the idle task, the reaper and `task_total` user tasks; the dead queue
is a null-terminated list without repetition, disjoint from the cycle; the task waiting for input
is on the cycle; and no task of the cycle but the current one is running. -/
theorem links_of_reach {s : Sched} (h : Transition.Reach Init Step (fun _ _ => True) s) :
    ∃ l d us : List Word, Ring s.next s.currentTask l ∧
      (s.currentTask :: l).Perm (s.idleTask :: s.reaperTask :: us) ∧ us.length = s.taskTotal ∧
      (∀ u ∈ us, s.IsUser u) ∧
      Lseg s.next s.deadQueue d 0 ∧ d.Nodup ∧ 0 ∉ d ∧ (∀ t ∈ d, t ∉ s.currentTask :: l) ∧
      (s.awaitingStdin = 0 ∨ s.awaitingStdin ∈ s.currentTask :: l) ∧
      ∀ t ∈ s.currentTask :: l, s.status t = .running → t = s.currentTask := by
  obtain ⟨l, d, hwf⟩ := wf_of_reach h
  obtain ⟨us, hperm, hlen, huser⟩ := hwf.users
  refine ⟨l, d, us, hwf.ring, hperm, hlen, huser, hwf.core.dead, ?_, ?_, hwf.core.dead_disjoint,
    ?_, ?_⟩
  · exact (List.nodup_append.mp hwf.core.nodup).2.1
  · exact fun h0 => hwf.core.notNull 0 (List.mem_append_right _ h0) rfl
  · exact hwf.core.awaiting.imp_right And.left
  · intro t ht hrun
    rcases List.mem_cons.mp ht with rfl | ht
    · rfl
    · exact absurd hrun (hwf.others t ht)

/-- `t` is a task of the scheduler: on the ring or in the dead queue. -/
def IsTask (s : Sched) (t : Word) : Prop :=
  s.OnRing t ∨ ∃ d, Lseg s.next s.deadQueue d 0 ∧ 0 ∉ d ∧ t ∈ d

namespace Hang

/-- From `s₂` the only user task exits and the idle task is dispatched. -/
def exited : Sched :=
  wakeReaperTask { (((s₂.countOut.wakeIdleIfAlone.setNext 0x2000#32 0x1000#32).saveContext
    none).dispatch 0x1000#32).setNext 0x3000#32 0 with deadQueue := 0x3000#32 }

/-- A tick leads from `s₁` to `s₂`. -/
lemma step_s₁ : Step s₁ (.tick default) s₂ :=
  step_tick (n := 4) (t := 0x3000#32) (by decide +kernel) rfl rfl

/-- The exit leads from `s₂` to `exited`. -/
lemma step_exited : Step s₂ .exit exited :=
  ⟨⟨by decide +kernel, by decide +kernel⟩, 4, rfl⟩

/-- `exited` is reachable. -/
lemma reach_exited : Transition.Reach Init Step (fun _ _ => True) exited :=
  (reach_s₁.next trivial step_s₁).next trivial step_exited

end Hang

/-- **An exited task keeps the status `TASK_RUNNING`** until the reaper frees it: in `Hang.exited`
the task at `0x3000` is in the dead queue with that status while the idle task is the current
one. -/
theorem dead_task_running :
    ¬ ∀ s, Transition.Reach Init Step (fun _ _ => True) s →
      ∀ t, s.IsTask t → s.status t = .running → t = s.currentTask := by
  intro hall
  have hdead : Hang.exited.IsTask 0x3000#32 := .inr ⟨[0x3000#32], ⟨rfl, rfl⟩, by decide, by decide⟩
  have hcur := hall Hang.exited Hang.reach_exited 0x3000#32 hdead rfl
  exact absurd hcur (by decide +kernel)

/-- The links in a state with a task in the dead queue. -/
theorem links_of_reach_exited : ∃ l d us : List Word,
    Ring Hang.exited.next Hang.exited.currentTask l ∧
      (Hang.exited.currentTask :: l).Perm (Hang.exited.idleTask :: Hang.exited.reaperTask :: us) ∧
      us.length = Hang.exited.taskTotal ∧ (∀ u ∈ us, Hang.exited.IsUser u) ∧
      Lseg Hang.exited.next Hang.exited.deadQueue d 0 ∧ d.Nodup ∧ 0 ∉ d ∧
      (∀ t ∈ d, t ∉ Hang.exited.currentTask :: l) ∧
      (Hang.exited.awaitingStdin = 0 ∨ Hang.exited.awaitingStdin ∈ Hang.exited.currentTask :: l) ∧
      ∀ t ∈ Hang.exited.currentTask :: l, Hang.exited.status t = .running →
        t = Hang.exited.currentTask :=
  links_of_reach Hang.reach_exited

/-! ## No overtaking -/

/-- `y` is on the ring behind the current task, and `x` does not come between the two. -/
def Ahead (s : Sched) (x y : Word) : Prop :=
  ∃ l d l₁ l₂, Wf s l d ∧ l = l₁ ++ y :: l₂ ∧ x ∉ l₁

/-- A dispatch that passes over no ready task comes to the ready task `y` or to a task before
it. -/
lemma Passes.before {l₁ l₂ m₁ m₂ : List Word} (h : Passes s l t m₁ m₂) (hl : l = l₁ ++ y :: l₂)
    (hy : s.status y = .ready) (hne : t ≠ y) : ∃ m, l₁ = m₁ ++ t :: m ∧ m₂ = m ++ y :: l₂ := by
  have heq : m₁ ++ t :: m₂ = l₁ ++ y :: l₂ := h.split.symm.trans hl
  rcases List.append_eq_append_iff.mp heq with ⟨as, hl₁, has⟩ | ⟨bs, hm₁, hbs⟩
  · cases as with
    | nil => exact absurd (List.cons.inj has).1 hne
    | cons a m =>
      obtain ⟨rfl, rfl⟩ := List.cons.inj has
      exact ⟨m, hl₁, rfl⟩
  · cases bs with
    | nil => exact absurd (List.cons.inj hbs).1.symm hne
    | cons b bs =>
      obtain ⟨rfl, -⟩ := List.cons.inj hbs
      exact absurd hy (h.skipped y (by simp [hm₁]))

/-- A dispatch of `x` makes every other task of the ring come before `x`. -/
lemma Wf.ahead_of_dispatched (h : Wf s l d) (hx : s.currentTask = x) (hy : s.OnRing y)
    (hne : x ≠ y) : s.Ahead x y := by
  have hmem : y ∈ l := by
    have := h.onRing_iff.mp hy
    rw [hx] at this
    exact (List.mem_cons.mp this).resolve_left hne.symm
  obtain ⟨l₁, l₂, rfl⟩ := List.append_of_mem hmem
  refine ⟨_, d, l₁, l₂, h, rfl, fun hxl => ?_⟩
  exact h.ne_current (List.mem_append_left _ hxl) hx.symm

/-- **One event** does not bring `x` before the ready task `y`, and does not dispatch `x`, unless it
dispatches `y`.

**Proof sketch.** By the four effects of an event on the ring. A new task is linked in behind `y`. A
dispatched task other than `y` comes before `y` on the ring, so it is not `x`, and the tasks
between it and `y` were already there. -/
lemma Ahead.step (h : s.Ahead x y) (hs : s.Step e s') (hy : s.status y = .ready)
    (hno : ¬ s.Dispatches e s' y) : s'.Ahead x y ∧ ¬ s.Dispatches e s' x := by
  obtain ⟨l, d, l₁, l₂, hwf, hl, hx⟩ := h
  obtain ⟨l', d', hwf', heff⟩ := hwf.step hs
  cases heff with
  | @link g _ _ _ hcur =>
    exact ⟨⟨_, d, l₁, l₂ ++ [g.task], hwf', by simp [hl], hx⟩, fun hd => hd.1⟩
  | stay hload hcur => exact ⟨⟨_, d, l₁, l₂, hwf', hl, hx⟩, fun hd => hload hd.1⟩
  | turn hload hdead hpass =>
    obtain ⟨m, rfl, rfl⟩ := hpass.before hl hy fun he => hno ⟨hload, he⟩
    simp only [List.mem_append, List.mem_cons, not_or] at hx
    rw [List.append_assoc, List.cons_append] at hwf'
    exact ⟨⟨_, _, m, _, hwf', rfl, hx.2.2⟩, fun hd => hx.2.1 hd.2.symm⟩
  | leave hpass =>
    obtain ⟨m, rfl, rfl⟩ := hpass.before hl hy fun he => hno ⟨trivial, he⟩
    simp only [List.mem_append, List.mem_cons, not_or] at hx
    rw [List.append_assoc, List.cons_append] at hwf'
    exact ⟨⟨_, _, m, _, hwf', rfl, hx.2.2⟩, fun hd => hx.2.1 hd.2.symm⟩

/-- **Round robin.** In every run, between two dispatches of a task `x`, every other task `y` that
is on the ring with status `TASK_READY`, until it is dispatched, is dispatched.

**Proof sketch.** If `y` is not dispatched in between, it stays ready, so by induction over the
events it stays ahead of `x` (`Ahead.step`), and then the last event does not dispatch `x`. -/
theorem round_robin {N : ℕ} {τ : ℕ → Sched} {a : ℕ → Event}
    (h : Transition.Run Init Step N τ a) {x y : Word} (hxy : x ≠ y) {i j : ℕ} (hij : i < j)
    (hj : j < N) (hi : (τ i).Dispatches (a i) (τ (i + 1)) x)
    (hjx : (τ j).Dispatches (a j) (τ (j + 1)) x)
    (hy : ∀ k, i < k → k ≤ j → (∀ m, i < m → m < k → ¬ (τ m).Dispatches (a m) (τ (m + 1)) y) →
      (τ k).OnRing y ∧ (τ k).status y = .ready) :
    ∃ k, i < k ∧ k < j ∧ (τ k).Dispatches (a k) (τ (k + 1)) y := by
  by_contra hnone
  have hno : ∀ m, i < m → m < j → ¬ (τ m).Dispatches (a m) (τ (m + 1)) y :=
    fun m h₁ h₂ hd => hnone ⟨m, h₁, h₂, hd⟩
  have hready : ∀ k, i < k → k ≤ j → (τ k).OnRing y ∧ (τ k).status y = .ready :=
    fun k h₁ h₂ => hy k h₁ h₂ fun m h₃ h₄ => hno m h₃ (by omega)
  have hahead : ∀ k, i + 1 + k ≤ j → (τ (i + 1 + k)).Ahead x y := by
    intro k
    induction k with
    | zero =>
      intro hk
      obtain ⟨l, d, hwf⟩ := wf_of_reach (h.reach (i := i + 1) (by omega))
      exact hwf.ahead_of_dispatched hi.2 (hready (i + 1) (by omega) hk).1 hxy
    | succ k ih =>
      intro hk
      exact ((ih (by omega)).step (h.step _ (by omega)) (hready _ (by omega) (by omega)).2
        (hno _ (by omega) (by omega))).1
  obtain ⟨k, rfl⟩ : ∃ k, j = i + 1 + k := ⟨j - (i + 1), by omega⟩
  have hlast :=
    (hahead k (Nat.le_refl _)).step (h.step _ hj) (hready _ (by omega) (Nat.le_refl _)).2
  refine (hlast fun hd => ?_).2 hjx
  exact hxy (hjx.2.symm.trans hd.2)

namespace Hang

/-- A second task is created behind the first one, before any tick. -/
def both : Sched :=
  (s₁.createTask (grantAt 0x4000#32 0x8000#32) 0 .ring3).linkNew 0x3000#32 0x4000#32

/-- The tick from `s`, dispatching `t`. -/
def ticked (s : Sched) (t : Word) : Sched :=
  (s.wakeIdleIfAlone.tickSuspend.saveContext (some default)).dispatch t

/-- Two creations, then four ticks: the first task, the second one, the idle task, which the first
tick has left ready, and the first task again. -/
def states : ℕ → Sched
  | 0 => s₀
  | 1 => s₁
  | 2 => both
  | 3 => ticked both 0x3000#32
  | 4 => ticked (ticked both 0x3000#32) 0x4000#32
  | 5 => ticked (ticked (ticked both 0x3000#32) 0x4000#32) 0x1000#32
  | _ => ticked (ticked (ticked (ticked both 0x3000#32) 0x4000#32) 0x1000#32) 0x3000#32

/-- The events of the run. -/
def events : ℕ → Event
  | 0 => .enqueue (grantAt 0x3000#32 0x7000#32) 0 .ring3
  | 1 => .enqueue (grantAt 0x4000#32 0x8000#32) 0 .ring3
  | _ => .tick default

/-- The run is one of the scheduler. -/
lemma run_states : Transition.Run Init Step 6 states events where
  start := init_s₀
  step := by
    have hfresh : s₁.Fresh (grantAt 0x4000#32 0x8000#32) := by
      refine fresh_of_disjoint (by decide) ?_ (by decide) (by decide +kernel) (by decide +kernel)
      rw [show s₁.heap = [0x3040#32, 0x3030#32, 0x3020#32, 0x3010#32, 0x3000#32] ++
        s₀.heap from rfl,
        heap_s₀]
      simp [grantAt, Grant.blocks]
    intro i hi
    obtain rfl | rfl | rfl | rfl | rfl | rfl : i = 0 ∨ i = 1 ∨ i = 2 ∨ i = 3 ∨ i = 4 ∨ i = 5 := by
      omega
    · exact step_enqueue (n := 4) fresh_s₀ rfl
    · exact step_enqueue (n := 4) hfresh rfl
    · exact step_tick (n := 5) (t := 0x3000#32) (by decide +kernel) rfl rfl
    · exact step_tick (n := 5) (t := 0x4000#32) (by decide +kernel) rfl rfl
    · exact step_tick (n := 5) (t := 0x1000#32) (by decide +kernel) rfl rfl
    · exact step_tick (n := 5) (t := 0x3000#32) (by decide +kernel) rfl rfl

/-- The third event dispatches the first task, the fourth the second one and the sixth the first one
again. -/
lemma dispatches_states : (states 2).Dispatches (events 2) (states 3) 0x3000#32 ∧
    (states 3).Dispatches (events 3) (states 4) 0x4000#32 ∧
    (states 5).Dispatches (events 5) (states 6) 0x3000#32 :=
  ⟨⟨⟨5, 0x3000#32, rfl, by decide +kernel⟩, rfl⟩, ⟨⟨5, 0x4000#32, rfl, by decide +kernel⟩, rfl⟩,
    ⟨⟨5, 0x3000#32, rfl, by decide +kernel⟩, rfl⟩⟩

end Hang

/-- Between the two dispatches of the task at `0x3000` the task at `0x4000` is dispatched. -/
theorem round_robin_states : ∃ k, 2 < k ∧ k < 5 ∧
    (Hang.states k).Dispatches (Hang.events k) (Hang.states (k + 1)) 0x4000#32 := by
  obtain ⟨h₂, h₃, h₅⟩ := Hang.dispatches_states
  refine round_robin Hang.run_states (by decide) (by decide) (by decide) h₂ h₅ fun k h₁ hk hno => ?_
  by_cases hk3 : k = 3
  · subst hk3
    exact ⟨⟨1, rfl⟩, rfl⟩
  · exact absurd h₃ (hno 3 (by decide) (by omega))

end Sched

end AlphaOS
