import AlphaOS.Sched.Scheduler

set_option relaxedAutoImplicit false
set_option autoImplicit false

/-!
# The scheduler's invariant

In every reachable state the task blocks linked from `current_task` form one ring holding the
idle task, the reaper and `task_total` user tasks; the dead queue is a null-terminated list off
the ring; and the blocks of all these tasks are distinct and allocated.

## Main definitions

* `AlphaOS.Sched.Core` — the part of the invariant that does not name the running task; it
  also holds while an event is between suspending one task and dispatching the next.
* `AlphaOS.Sched.Wf` — the invariant between two events.

## Main results

* `AlphaOS.Sched.nextTaskReturns_iff` — `next_task` returns if and only if some task of the
  ring it walks is selectable.
* `AlphaOS.Sched.Wf.loadContext` — a completed `load_context` dispatches a selectable task of
  the ring and restores the invariant.
* `AlphaOS.Sched.wf_of_reach` — every reachable state is well formed.
-/

namespace AlphaOS

namespace Sched

open Linked

variable {s s' : Sched} {r r' l d : List Word} {t : Word} {n : ℕ}

/-! ## What the helpers leave alone -/

/-- Saving the context changes no link. -/
@[simp] lemma next_saveContext (s : Sched) (f : Option StateFrame) :
    (s.saveContext f).next = s.next := by
  cases f <;> simp [saveContext]

/-- Saving the context changes no status. -/
@[simp] lemma status_saveContext (s : Sched) (f : Option StateFrame) :
    (s.saveContext f).status = s.status := by
  cases f <;> simp [saveContext]

/-- Saving the context does not switch tasks. -/
@[simp] lemma currentTask_saveContext (s : Sched) (f : Option StateFrame) :
    (s.saveContext f).currentTask = s.currentTask := by
  cases f <;> rfl

/-- Dispatching a task changes no link. -/
@[simp] lemma next_dispatch (s : Sched) (t : Word) : (s.dispatch t).next = s.next := by
  change (s.markRunning t).next = s.next
  unfold markRunning
  split_ifs <;> simp

/-- Dispatching a task changes no pid. -/
@[simp] lemma pid_dispatch (s : Sched) (t : Word) : (s.dispatch t).pid = s.pid := by
  change (s.markRunning t).pid = s.pid
  unfold markRunning
  split_ifs <;> simp

/-- Dispatching a task changes no blocks. -/
@[simp] lemma blocks_dispatch (s : Sched) (t : Word) : (s.dispatch t).blocks = s.blocks := by
  change (s.markRunning t).blocks = s.blocks
  unfold markRunning
  split_ifs <;> simp

/-- A task that is dispatched is running, but for the one with the pid `0`. -/
lemma status_dispatch (s : Sched) (t : Word) : (s.dispatch t).status =
    if s.pid t ≠ 0 then Function.update s.status t .running else s.status := by
  change (s.markRunning t).status = _
  unfold markRunning
  split_ifs <;> simp

/-- Dispatching changes, of the fields the invariant reads, only the running task. -/
lemma fields_dispatch (s : Sched) (t : Word) :
    (s.dispatch t).currentTask = t ∧ (s.dispatch t).idleTask = s.idleTask ∧
      (s.dispatch t).reaperTask = s.reaperTask ∧ (s.dispatch t).deadQueue = s.deadQueue ∧
      (s.dispatch t).awaitingStdin = s.awaitingStdin ∧ (s.dispatch t).taskTotal = s.taskTotal ∧
      (s.dispatch t).heap = s.heap := by
  unfold dispatch markRunning
  split_ifs <;> exact ⟨rfl, rfl, rfl, rfl, rfl, rfl, rfl⟩

/-! ## The invariant -/

/-- The part of the invariant about the tasks `r` of the ring and `d` of the dead queue that
does not depend on which task is running. -/
structure Core (s : Sched) (r d : List Word) : Prop where
  idle_mem : s.idleTask ∈ r
  reaper_mem : s.reaperTask ∈ r
  idle_ne_reaper : s.idleTask ≠ s.reaperTask
  total : r.length = s.taskTotal + 2
  dead : Lseg s.next s.deadQueue d 0
  notNull : ∀ t ∈ r ++ d, t ≠ 0
  awaiting : s.awaitingStdin = 0 ∨
    s.awaitingStdin ∈ r ∧ s.IsUser s.awaitingStdin ∧ s.status s.awaitingStdin = .sleep
  idle_pid : s.pid s.idleTask = 0
  idle_status : s.status s.idleTask ≠ .running
  only_idle : ∀ t ∈ r, s.status t = .schedulerIdle → t = s.idleTask
  owned_nodup : ((r ++ d).flatMap s.blocks).Nodup
  owned_heap : ∀ b ∈ (r ++ d).flatMap s.blocks, b ∈ s.heap

/-- The invariant between two events: `current_task` and `l` are the ring, no task but
`current_task` has status `TASK_RUNNING`, and a current task that sleeps is the idle task. -/
structure Wf (s : Sched) (l d : List Word) : Prop where
  ring : Ring s.next s.currentTask l
  core : Core s (s.currentTask :: l) d
  others : ∀ t ∈ l, s.status t ≠ .running
  awake : s.status s.currentTask = .sleep → s.currentTask = s.idleTask

/-- The invariant inside an event, when the current task has been suspended but is still on the
ring: no task of the ring is running. -/
structure Suspended (s : Sched) (l d : List Word) : Prop where
  ring : Ring s.next s.currentTask l
  core : Core s (s.currentTask :: l) d
  none_running : ∀ t ∈ s.currentTask :: l, s.status t ≠ .running

/-- Every task owns its own block. -/
lemma mem_blocks_self (s : Sched) (t : Word) : t ∈ s.blocks t := by simp [blocks]

/-- A node of a list is a node of the blocks its tasks own. -/
lemma mem_flatMap_blocks (ht : t ∈ r) : t ∈ r.flatMap s.blocks :=
  List.mem_flatMap.mpr ⟨t, ht, s.mem_blocks_self t⟩

/-- The order of the ring does not matter to the core of the invariant. -/
lemma Core.perm (h : Core s r d) (hp : r.Perm r') : Core s r' d where
  idle_mem := hp.mem_iff.mp h.idle_mem
  reaper_mem := hp.mem_iff.mp h.reaper_mem
  idle_ne_reaper := h.idle_ne_reaper
  total := hp.length_eq ▸ h.total
  dead := h.dead
  notNull := fun t ht => h.notNull t ((hp.append_right d).mem_iff.mpr ht)
  awaiting := h.awaiting.imp_right fun ⟨hm, hs⟩ => ⟨hp.mem_iff.mp hm, hs⟩
  idle_pid := h.idle_pid
  idle_status := h.idle_status
  only_idle := fun t ht => h.only_idle t (hp.mem_iff.mpr ht)
  owned_nodup := ((hp.append_right d).flatMap_right s.blocks).nodup_iff.mp h.owned_nodup
  owned_heap := fun b hb =>
    h.owned_heap b (((hp.append_right d).flatMap_right s.blocks).mem_iff.mpr hb)

/-- The tasks of the dead queue are not on the ring. -/
lemma Core.dead_disjoint (h : Core s r d) : ∀ t ∈ d, t ∉ r := by
  intro t ht hr
  have hn := h.owned_nodup
  rw [List.flatMap_append] at hn
  exact (List.nodup_append.mp hn).2.2 t (mem_flatMap_blocks hr) t (mem_flatMap_blocks ht) rfl

/-- No task is twice on the ring or in the dead queue. -/
lemma Core.nodup (h : Core s r d) : (r ++ d).Nodup := by
  have hn := h.owned_nodup
  generalize r ++ d = q at hn
  induction q with
  | nil => simp
  | cons a q ih =>
    rw [List.flatMap_cons] at hn
    obtain ⟨-, h₂, h₃⟩ := List.nodup_append.mp hn
    refine List.nodup_cons.mpr ⟨fun ha => ?_, ih h₂⟩
    exact h₃ a (s.mem_blocks_self a) a (mem_flatMap_blocks ha) rfl

/-- The idle task does not wait for input. -/
lemma Core.idle_ne_awaiting (h : Core s r d) : s.idleTask ≠ s.awaitingStdin := by
  intro he
  rcases h.awaiting with ha | ⟨-, hu, -⟩
  · exact h.notNull _ (List.mem_append_left _ h.idle_mem) (he.trans ha)
  · exact hu.1 he.symm

/-- The reaper does not wait for input. -/
lemma Core.reaper_ne_awaiting (h : Core s r d) : s.reaperTask ≠ s.awaitingStdin := by
  intro he
  rcases h.awaiting with ha | ⟨-, hu, -⟩
  · exact h.notNull _ (List.mem_append_left _ h.reaper_mem) (he.trans ha)
  · exact hu.2 he.symm

/-- A task of the ring that does not sleep does not wait for input. -/
lemma Core.ne_awaiting (h : Core s r d) (ht : t ∈ r) (hst : s.status t ≠ .sleep) :
    t ≠ s.awaitingStdin := by
  rintro rfl
  rcases h.awaiting with ha | ⟨-, -, hs⟩
  · exact h.notNull _ (List.mem_append_left _ ht) ha
  · exact hst hs

/-- Rewriting only statuses and `awaiting_stdin` keeps the core, as long as the new statuses
respect the idle task's and the waiting task's. -/
lemma Core.of_status (h : Core s r d) (hnext : s'.next = s.next) (hpid : s'.pid = s.pid)
    (hblocks : s'.blocks = s.blocks) (hheap : s'.heap = s.heap)
    (hidle : s'.idleTask = s.idleTask) (hreaper : s'.reaperTask = s.reaperTask)
    (hdead : s'.deadQueue = s.deadQueue) (htotal : s'.taskTotal = s.taskTotal)
    (hawait : s'.awaitingStdin = 0 ∨ s'.awaitingStdin ∈ r ∧ s.IsUser s'.awaitingStdin ∧
      s'.status s'.awaitingStdin = .sleep)
    (hrun : s'.status s.idleTask ≠ .running)
    (honly : ∀ t ∈ r, s'.status t = .schedulerIdle → t = s.idleTask) : Core s' r d where
  idle_mem := hidle ▸ h.idle_mem
  reaper_mem := hreaper ▸ h.reaper_mem
  idle_ne_reaper := by rw [hidle, hreaper]; exact h.idle_ne_reaper
  total := htotal ▸ h.total
  dead := by rw [hnext, hdead]; exact h.dead
  notNull := h.notNull
  awaiting := by unfold IsUser at hawait ⊢; rw [hidle, hreaper]; exact hawait
  idle_pid := by rw [hpid, hidle]; exact h.idle_pid
  idle_status := by rw [hidle]; exact hrun
  only_idle := by rw [hidle]; exact honly
  owned_nodup := by rw [hblocks]; exact h.owned_nodup
  owned_heap := by rw [hblocks, hheap]; exact h.owned_heap

/-- Setting the status of one task keeps the core, if the idle task is not made running, only
the idle task is made idle and the waiting task stays asleep. -/
lemma Core.setStatus (h : Core s r d) (t : Word) (st : TaskStatus)
    (hrun : t = s.idleTask → st ≠ .running) (hidle : st = .schedulerIdle → t = s.idleTask)
    (hawait : t = s.awaitingStdin → st = .sleep) : Core (s.setStatus t st) r d := by
  refine h.of_status (by simp) (by simp) (by simp) rfl rfl rfl rfl rfl ?_ ?_ ?_
  · refine h.awaiting.imp_right fun ⟨hm, hu, hs⟩ => ⟨hm, hu, ?_⟩
    rw [status_setStatus, Function.update_apply]
    split_ifs with ha
    · exact hawait ha.symm
    · exact hs
  · rw [status_setStatus, Function.update_apply]
    split_ifs with hi
    · exact hrun hi.symm
    · exact h.idle_status
  · intro u hu
    rw [status_setStatus, Function.update_apply]
    split_ifs with hut
    · exact fun hst => hut.trans (hidle hst)
    · exact h.only_idle u hu

/-- Saving a context keeps the core. -/
lemma Core.saveContext (h : Core s r d) (f : Option StateFrame) : Core (s.saveContext f) r d := by
  cases f with
  | none => exact h
  | some f =>
    exact h.of_status (by simp) (by simp [Sched.saveContext]) (by simp [Sched.saveContext]) rfl rfl
      rfl rfl rfl (by rw [status_saveContext]; exact h.awaiting) (by simpa using h.idle_status)
      (by simpa using h.only_idle)

/-! ## Choosing and dispatching -/

/-- What `next_task` returns is a selectable task of the ring. -/
lemma mem_of_nextTask (h : Ring s.next (s.next s.currentTask) l) (ht : nextTask n s = some t) :
    t ∈ s.next s.currentTask :: l ∧ selectable (s.status t) = true := by
  obtain ⟨hsel, k, hk⟩ := walk_eq_some ht
  exact ⟨hk ▸ h.iterate_mem k, hsel⟩

/-- **`next_task` returns if and only if some task of the ring it walks is selectable.**

**Proof sketch.** What it returns is an iterate of `next`, hence on the ring. Conversely, split
the ring at its first selectable task: the walk along the ring stops there. -/
theorem nextTaskReturns_iff (h : Ring s.next (s.next s.currentTask) l) :
    s.NextTaskReturns ↔ ∃ t ∈ s.next s.currentTask :: l, selectable (s.status t) = true := by
  constructor
  · rintro ⟨n, t, ht⟩
    exact ⟨t, mem_of_nextTask h ht⟩
  · rintro ⟨t, ht, hsel⟩
    obtain ⟨a, n, ha⟩ := walk_of_lseg_exists (p := fun t => selectable (s.status t)) h.2 ht hsel
    exact ⟨n, a, ha⟩

/-- Dispatching a selectable task of the ring when no task of it is running restores the
invariant. -/
lemma Core.dispatch (hring : Ring s.next t l) (hcore : Core s (t :: l) d)
    (hrun : ∀ u ∈ t :: l, s.status u ≠ .running) (hsel : selectable (s.status t) = true) :
    Wf (s.dispatch t) l d := by
  obtain ⟨hcur, hidle, hreaper, hdead, hawait, htotal, hheap⟩ := s.fields_dispatch t
  have hsleep : s.status t ≠ .sleep := by
    intro h
    simp [h, selectable] at hsel
  have hother : ∀ u, u ≠ t → (s.dispatch t).status u = s.status u := by
    intro u hu
    rw [status_dispatch]
    split_ifs
    · exact Function.update_of_ne hu _ _
    · rfl
  have hself : (s.dispatch t).status t = .running ∧ s.pid t ≠ 0 ∨
      (s.dispatch t).status t = s.status t := by
    rw [status_dispatch]
    split_ifs with hp
    · exact .inl ⟨Function.update_self _ _ _, hp⟩
    · exact .inr rfl
  refine ⟨by rw [next_dispatch, hcur]; exact hring, ?_, ?_, ?_⟩
  · rw [hcur]
    refine hcore.of_status (by simp) (by simp) (by simp) hheap hidle hreaper hdead htotal ?_ ?_ ?_
    · rw [hawait, hother _ (hcore.ne_awaiting List.mem_cons_self hsleep).symm]
      exact hcore.awaiting
    · by_cases hi : s.idleTask = t
      · rcases hself with ⟨-, hp⟩ | hst
        · exact absurd (hi ▸ hcore.idle_pid) hp
        · rw [hi, hst]; exact hrun t List.mem_cons_self
      · rw [hother _ hi]; exact hcore.idle_status
    · intro u hu hst
      by_cases hut : u = t
      · subst hut
        rcases hself with ⟨h, -⟩ | h
        · rw [h] at hst; simp at hst
        · exact hcore.only_idle u hu (h ▸ hst)
      · exact hcore.only_idle u hu (hother u hut ▸ hst)
  · intro u hu
    have hut : u ≠ t := fun h => (List.nodup_cons.mp hring.1).1 (h ▸ hu)
    rw [hother u hut]
    exact hrun u (List.mem_cons_of_mem _ hu)
  · rw [hcur]
    intro hst
    rcases hself with ⟨h, -⟩ | h
    · rw [h] at hst; simp at hst
    · exact absurd (h ▸ hst) hsleep

/-- What one call of `next_task` does: along `r`, the tasks before `t` are not selectable in the
state `s` and `t` is, and the ring read on from `t` is `l'`. -/
structure Turn (s : Sched) (r : List Word) (t : Word) (l' : List Word) : Prop where
  selected : selectable (s.status t) = true
  split : ∃ l₁ l₂, r = l₁ ++ t :: l₂ ∧ l' = l₂ ++ l₁ ∧ ∀ u ∈ l₁, selectable (s.status u) = false

/-- A turn keeps the tasks of the ring. -/
lemma Turn.perm {l' : List Word} (h : Turn s r t l') : (t :: l').Perm r := by
  obtain ⟨l₁, l₂, rfl, rfl, -⟩ := h.split
  have hcomm : (t :: l₂ ++ l₁).Perm (l₁ ++ t :: l₂) := List.perm_append_comm
  exact hcomm

/-- Of the tasks `l` that follow the current one, `t` comes after `l₁` and before `l₂`, and none of
the tasks passed over is ready in the state `s`. -/
structure Passes (s : Sched) (l : List Word) (t : Word) (l₁ l₂ : List Word) : Prop where
  split : l = l₁ ++ t :: l₂
  skipped : ∀ u ∈ l₁, s.status u ≠ .ready

/-- Turning the ring keeps its tasks. -/
lemma Passes.perm {c : Word} {l₁ l₂ : List Word} (h : Passes s l t l₁ l₂) :
    (t :: (l₂ ++ c :: l₁)).Perm (c :: l) := by
  rw [h.split]
  have hcomm : (t :: l₂ ++ c :: l₁).Perm (c :: l₁ ++ t :: l₂) := List.perm_append_comm
  exact hcomm

/-- A task that is not selectable, when at most the idle task has been woken since the state `s`,
was not ready in `s`. -/
lemma ne_ready_of_skipped {u : Word}
    (hst : s'.status u = .schedulerIdle ∨ s'.status u = s.status u)
    (h : selectable (s'.status u) = false) : s.status u ≠ .ready := by
  intro hready
  rcases hst with he | he
  · simp [he, selectable] at h
  · simp [he, hready, selectable] at h

/-- A turn along the tasks `r` passes over no task that was ready in `s`. -/
lemma Turn.passes {l' : List Word} (h : Turn s' r t l')
    (hst : ∀ u ∈ r, s'.status u = .schedulerIdle ∨ s'.status u = s.status u) :
    ∃ l₁ l₂, Passes s r t l₁ l₂ ∧ l' = l₂ ++ l₁ := by
  obtain ⟨l₁, l₂, rfl, rfl, hskip⟩ := h.split
  refine ⟨l₁, l₂, ⟨rfl, fun u hu => ?_⟩, rfl⟩
  exact ne_ready_of_skipped (hst u (List.mem_append_left _ hu)) (hskip u hu)

/-- A list with a last node `c`, split at one of its nodes: that node is `c`, or `c` is the last
node after it. -/
lemma append_singleton_split {c : Word} {l₁ l₂ : List Word} (h : l ++ [c] = l₁ ++ t :: l₂) :
    t = c ∧ l = l₁ ∨ ∃ l₃, l₂ = l₃ ++ [c] ∧ l = l₁ ++ t :: l₃ := by
  rcases List.eq_nil_or_concat l₂ with rfl | ⟨l₃, b, rfl⟩
  · obtain ⟨rfl, hc⟩ := List.append_inj' h rfl
    exact .inl ⟨by simpa using hc.symm, rfl⟩
  · rw [List.concat_eq_append, ← List.cons_append, ← List.append_assoc] at h
    obtain ⟨rfl, hb⟩ := List.append_inj' h rfl
    obtain rfl : c = b := by simpa using hb
    exact .inr ⟨l₃, by simp, rfl⟩

/-- A turn comes round to the last task of the ring only when no other is selectable. -/
lemma Turn.ne_last {c u : Word} {l' : List Word} (h : Turn s (l ++ [c]) t l') (hc : c ∉ l)
    (hu : u ∈ l) (hsel : selectable (s.status u) = true) : t ≠ c := by
  rintro rfl
  obtain ⟨l₁, l₂, hl, -, hskip⟩ := h.split
  rcases append_singleton_split hl with ⟨-, rfl⟩ | ⟨l₃, -, rfl⟩
  · rw [hskip u hu] at hsel
    exact Bool.false_ne_true hsel
  · simp at hc

/-- A turn that comes round to another task than the current one, the last of the ring, leaves the
current task behind the tasks it passes over. -/
lemma Turn.passes_of_ne {c : Word} {l' : List Word} (h : Turn s' (l ++ [c]) t l') (hne : t ≠ c)
    (hst : ∀ u ∈ l, s'.status u = .schedulerIdle ∨ s'.status u = s.status u) :
    ∃ l₁ l₂, Passes s l t l₁ l₂ ∧ l' = l₂ ++ c :: l₁ := by
  obtain ⟨l₁, l₂, hl, rfl, hskip⟩ := h.split
  rcases append_singleton_split hl with ⟨rfl, -⟩ | ⟨l₃, rfl, rfl⟩
  · exact absurd rfl hne
  · refine ⟨l₁, l₃, ⟨rfl, fun u hu => ?_⟩, by simp⟩
    exact ne_ready_of_skipped (hst u (List.mem_append_left _ hu)) (hskip u hu)

/-- What `next_task` returns is the first selectable task after the current one. -/
lemma turn_of_nextTask (h : Ring s.next (s.next s.currentTask) l) (ht : nextTask n s = some t) :
    ∃ l', Turn s (s.next s.currentTask :: l) t l' ∧ Ring s.next t l' := by
  obtain ⟨hmem, hsel⟩ := mem_of_nextTask h ht
  obtain ⟨l₁, l₂, hl, hskip⟩ := walk_first h.2 ht hmem hsel
  exact ⟨l₂ ++ l₁, ⟨hsel, l₁, l₂, hl, rfl, hskip⟩, h.rotate_split hl⟩

/-- **A completed `load_context`**, called when no task of the ring is running, dispatches the
first selectable task of the ring and restores the invariant. -/
lemma Core.loadContext {f : Option StateFrame} (hring : Ring s.next (s.next s.currentTask) l)
    (hcore : Core s (s.next s.currentTask :: l) d)
    (hrun : ∀ u ∈ s.next s.currentTask :: l, s.status u ≠ .running)
    (h : loadContext n f s = some s') :
    ∃ t l', Turn s (s.next s.currentTask :: l) t l' ∧ s' = (s.saveContext f).dispatch t ∧
      Wf s' l' d := by
  simp only [Sched.loadContext, Option.map_eq_some_iff] at h
  obtain ⟨t, ht, rfl⟩ := h
  have ht' : nextTask n s = some t := by
    simpa only [nextTask, next_saveContext, status_saveContext, currentTask_saveContext] using ht
  obtain ⟨l', hturn, hring'⟩ := turn_of_nextTask hring ht'
  refine ⟨t, l', hturn, rfl, ?_⟩
  refine Core.dispatch (by simpa using hring') ((hcore.saveContext f).perm hturn.perm.symm) ?_
    (by simpa using hturn.selected)
  intro u hu
  rw [status_saveContext]
  exact hrun u (hturn.perm.mem_iff.mp hu)

/-- The ring of a suspended state, seen from the successor of the current task. -/
lemma Suspended.loadContext {f : Option StateFrame} (hsus : Suspended s l d)
    (h : Sched.loadContext n f s = some s') :
    ∃ t l', Turn s (l ++ [s.currentTask]) t l' ∧ s' = (s.saveContext f).dispatch t ∧
      Wf s' l' d := by
  obtain ⟨l₁, hl₁, hring₁⟩ := hsus.ring.rotate_next
  have hperm : (s.next s.currentTask :: l₁).Perm (s.currentTask :: l) :=
    hl₁ ▸ List.perm_append_comm
  obtain ⟨t, l', hturn, hs', hwf⟩ := Core.loadContext hring₁ (hsus.core.perm hperm.symm)
    (fun u hu => hsus.none_running u (hperm.mem_iff.mp hu)) h
  exact ⟨t, l', hl₁ ▸ hturn, hs', hwf⟩

end Sched

end AlphaOS
