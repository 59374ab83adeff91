import Planetoid.Task.Ticks

namespace Planetoid.Task

open Planetoid Program Links Arch

/-! What comes on the cleanup list, and what is freed from it. -/

structure SameCleanup (before after : State) : Prop where
  links : cleanupOf after = cleanupOf before
  head : after.pendingCleanupHead = before.pendingCleanupHead
  tail : after.pendingCleanupTail = before.pendingCleanupTail
  kfreed : after.kfreed = before.kfreed

section

variable {first second third : State}

theorem SameCleanup.trans (left : SameCleanup first second)
    (right : SameCleanup second third) : SameCleanup first third where
  links := right.links.trans left.links
  head := right.head.trans left.head
  tail := right.tail.trans left.tail
  kfreed := right.kfreed.trans left.kfreed

theorem SameLinks.sameCleanup (same : SameLinks first second) :
    SameCleanup first second :=
  ⟨same.cleanup, same.pendingHead, same.pendingTail, same.kfreed⟩

theorem SameButNext.sameCleanup (same : SameButNext first second) :
    SameCleanup first second :=
  ⟨same.cleanup, same.pendingHead, same.pendingTail, same.kfreed⟩

theorem SameButWait.sameCleanup (same : SameButWait first second) :
    SameCleanup first second :=
  ⟨same.cleanup, same.pendingHead, same.pendingTail, same.kfreed⟩

end

theorem finishEffect_sameCleanup (entry : Entry) (result : Exit × State) :
    SameCleanup result.2 (finishEffect entry result) := by
  unfold finishEffect
  split
  · exact (SameLinks.refl _).sameCleanup
  · exact (switchState_sameLinks ..).sameCleanup

namespace Scheduler

theorem switchEffect_sameCleanup (state : State) (layout : Layout)
    (previous idle : TaskRef) :
    SameCleanup state (switchEffect state layout previous idle).2 := by
  simp only [switchEffect]
  split
  · exact (dispatch_sameLinks ..).sameCleanup
  · exact (dispatch_sameLinks ..).sameCleanup

theorem yieldEffect_sameCleanup (state : State) (layout : Layout)
    (current : TaskRef) :
    SameCleanup state (yieldEffect state layout current).2 := by
  have paused : SameLinks state (state.masked.withState current .ready) :=
    (state.withDaif_sameLinks _).trans (State.withState_sameLinks ..)
  simp only [yieldEffect]
  split
  · exact (SameLinks.refl state).sameCleanup
  · exact (paused.trans (dispatch_sameLinks ..)).sameCleanup

theorem addTaskEffect_sameCleanup (state : State) (task : TaskRef) :
    SameCleanup state (addTaskEffect state task) := by
  have readied : SameLinks state (state.masked.withState task .ready) :=
    (state.withDaif_sameLinks _).trans (State.withState_sameLinks ..)
  have linked := (linkIn_same (state.masked.withState task .ready)
    task).sameCleanup
  exact (readied.sameCleanup.trans linked).trans
    (State.withDaif_sameLinks ..).sameCleanup

end Scheduler

/-- The operations that neither add to the cleanup list nor free from it. -/
def Operation.SparesCleanup : Operation → Prop
  | .preempt _ | .terminateCurrent => False
  | _ => True

theorem Effect.sameCleanup {history : History} {layout : Layout}
    {entry : Entry} {operation : Operation} {ring : List TaskRef}
    {after : State} (effect : Effect history layout entry operation ring after)
    (spares : operation.SparesCleanup) : SameCleanup history.state after := by
  cases effect with
  | addTask addable => exact Scheduler.addTaskEffect_sameCleanup ..
  | start unstarted hidle =>
      have chosen := dispatch_sameLinks history.state
      exact (chosen _).sameCleanup.trans (finishEffect_sameCleanup entry
        (Scheduler.startEffect history.state layout _ _))
  | yield hcurrent member =>
      exact (Scheduler.yieldEffect_sameCleanup ..).trans
        (finishEffect_sameCleanup ..)
  | preempt => exact spares.elim
  | rest => exact (SameLinks.refl _).sameCleanup
  | sleep hcurrent member hidle positive =>
      have asleep := Scheduler.asleep_sameLinks history.state
      exact ((asleep _ _).sameCleanup.trans
        (Scheduler.switchEffect_sameCleanup ..)).trans
          (finishEffect_sameCleanup ..)
  | updateSleepingTasks =>
      exact (Scheduler.foldl_wakeSleeper_sameLinks _ _ _).1.sameCleanup
  | blockCurrent hcurrent member hidle =>
      exact ((WaitQueue.join_same ..).sameCleanup.trans
        (Scheduler.switchEffect_sameCleanup ..)).trans
          (finishEffect_sameCleanup ..)
  | wakeOne => exact (WaitQueue.wakeOneEffect_same ..).1.sameCleanup
  | wakeAll => exact (WaitQueue.wakeAllEffect_same ..).1.sameCleanup
  | terminateCurrent => exact spares.elim

namespace Scheduler

theorem retire_links {state : State} {pending : List TaskRef}
    {task other : TaskRef}
    (queue : Queue (cleanupOf state) state.pendingCleanupHead
      state.pendingCleanupTail pending) (hne : other ≠ task)
    (hother : other ∉ pending) :
    cleanupOf (retire state task) other = cleanupOf state other := by
  have cleared : cleanupOf (state.withCleanup task none) other =
      cleanupOf state other := by
    rw [cleanupOf_withCleanup, Function.update_of_ne hne]
  unfold retire
  cases htail : state.pendingCleanupTail with
  | none => exact cleared
  | some tail =>
      have hlast : tail ∈ pending :=
        List.mem_of_getLast? (queue.tail_eq.symm.trans htail)
      have hdistinct : other ≠ tail := by
        rintro rfl
        exact hother hlast
      show cleanupOf ((state.withCleanup task none).withCleanup tail
        (some task)) other = cleanupOf state other
      rw [cleanupOf_withCleanup, Function.update_of_ne hdistinct]
      exact cleared

theorem terminateEffect_sameCleanup {state : State} {layout : Layout}
    {current idle : TaskRef} {exit : Option Exit} {after : State}
    (h : terminateEffect state layout current idle = (exit, after)) :
    SameCleanup (retire state current) after := by
  obtain rfl := (Prod.mk.inj h).2
  exact (unlink_same ..).sameCleanup.trans (dispatch_sameLinks ..).sameCleanup

end Scheduler

theorem Effect.retires {history : History} {layout : Layout} {entry : Entry}
    {ring : List TaskRef} {after : State} {task : TaskRef}
    (effect : Effect history layout entry .terminateCurrent ring after)
    (current : history.state.currentTask = some task) :
    SameCleanup (Scheduler.retire history.state task) after := by
  cases effect with
  | terminateCurrent hcurrent member hidle terminated =>
      rename_i exit after
      obtain rfl := Option.some.inj (hcurrent.symm.trans current)
      exact (Scheduler.terminateEffect_sameCleanup terminated).trans
        (finishEffect_sameCleanup entry (exit, after))

def allocations (base : TaskRef → Nat) (task : TaskRef) : List Freed :=
  [.state task, .stack (base task)]

namespace Scheduler

theorem preemptEffect_sameCleanup (state : State) (layout : Layout)
    (context : ExceptionContext) {current : TaskRef}
    (hcurrent : state.currentTask = some current) :
    SameCleanup (cleanupEffect state layout.pending)
      (preemptEffect state layout context).2 := by
  simp only [preemptEffect, hcurrent]
  generalize cleanupEffect state layout.pending = cleaned
  have paused := paused_sameLinks cleaned current context
  split
  · unfold preemptIdle
    split
    · exact (SameLinks.refl _).sameCleanup
    · exact (dispatch_sameLinks ..).sameCleanup
  · simp only [preemptTask]
    split
    · exact (paused.trans (State.withState_sameLinks ..)).sameCleanup
    · exact (paused.trans (dispatch_sameLinks ..)).sameCleanup

theorem wakeSleepers_stackBase (state : State) (ring : List TaskRef)
    (task : TaskRef) :
    ((wakeSleepers state ring).tasks task).stackBase =
      (state.tasks task).stackBase := by
  unfold wakeSleepers
  generalize state.systemTicks = tick
  induction ring generalizing state with
  | nil => rfl
  | cons first rest ih =>
      have woken : ((wakeSleeper tick state first).tasks task).stackBase =
          (state.tasks task).stackBase := by
        unfold wakeSleeper
        split
        · exact congrFun (@view_setTask _ TaskState.stackBase state first
            (fun fields => { fields with state := .ready })
            fun _ => rfl) task
        · rfl
      exact (ih (wakeSleeper tick state first)).trans woken

theorem awake_sameCleanup (state : State) (layout : Layout) :
    SameCleanup state (wakeSleepers state.ticked layout.ring) := by
  have ticked : SameCleanup state state.ticked := ⟨rfl, rfl, rfl, rfl⟩
  exact ticked.trans (foldl_wakeSleeper_sameLinks _ _ _).1.sameCleanup

theorem awake_currentTask (state : State) (layout : Layout) :
    (wakeSleepers state.ticked layout.ring).currentTask = state.currentTask :=
  (foldl_wakeSleeper_sameLinks _ _ _).2

theorem cleanupEffect_kfreed (state : State) (pending : List TaskRef) :
    (cleanupEffect state pending).kfreed =
      (pending.take 1).flatMap (allocations fun task =>
        (state.tasks task).stackBase) ++ state.kfreed := by
  cases pending <;> rfl

/-- Before `start` a timer interrupt only counts and wakes. -/
theorem interruptEffect_unstarted {state : State} (layout : Layout)
    (context : ExceptionContext) (hcurrent : state.currentTask = none) :
    (interruptEffect state layout context).2 =
      wakeSleepers state.ticked layout.ring := by
  simp only [interruptEffect, preemptEffect, awake_currentTask, hcurrent]

theorem interruptEffect_sameCleanup {state : State} (layout : Layout)
    (context : ExceptionContext) {current : TaskRef}
    (hcurrent : state.currentTask = some current) :
    SameCleanup (cleanupEffect (wakeSleepers state.ticked layout.ring)
      layout.pending) (interruptEffect state layout context).2 :=
  preemptEffect_sameCleanup _ layout context
    ((awake_currentTask state layout).trans hcurrent)

/-- A timer interrupt frees what the first task of the list has. -/
theorem interruptEffect_frees {state : State} (layout : Layout)
    (context : ExceptionContext) {current : TaskRef}
    (hcurrent : state.currentTask = some current) :
    (interruptEffect state layout context).2.kfreed =
      (layout.pending.take 1).flatMap (allocations fun task =>
        (state.tasks task).stackBase) ++ state.kfreed := by
  have same := interruptEffect_sameCleanup layout context hcurrent
  have freed := same.kfreed.trans (cleanupEffect_kfreed ..)
  simp only [wakeSleepers_stackBase] at freed
  rw [(awake_sameCleanup state layout).kfreed] at freed
  exact freed

theorem interruptEffect_pending {state : State} {layout : Layout}
    (queue : Queue (cleanupOf state) state.pendingCleanupHead
      state.pendingCleanupTail layout.pending) (context : ExceptionContext)
    {current : TaskRef} (hcurrent : state.currentTask = some current) :
    Queue (cleanupOf (interruptEffect state layout context).2)
      (interruptEffect state layout context).2.pendingCleanupHead
      (interruptEffect state layout context).2.pendingCleanupTail
      layout.pending.tail := by
  have same := interruptEffect_sameCleanup layout context hcurrent
  have awake := awake_sameCleanup state layout
  rw [same.links, same.head, same.tail]
  refine cleanupEffect_pending ?_
  rw [awake.links, awake.head, awake.tail]
  exact queue

/-- A timer interrupt writes no link of a task outside the list. -/
theorem interruptEffect_links (state : State) (layout : Layout)
    (context : ExceptionContext) {task : TaskRef}
    (h : task ∉ layout.pending) :
    cleanupOf (interruptEffect state layout context).2 task =
      cleanupOf state task := by
  have awake := awake_sameCleanup state layout
  cases hcurrent : state.currentTask with
  | none =>
      rw [interruptEffect_unstarted layout context hcurrent, awake.links]
  | some current =>
      rw [(interruptEffect_sameCleanup layout context hcurrent).links,
        ← awake.links]
      cases hpending : layout.pending with
      | nil => rfl
      | cons first rest =>
          rw [hpending] at h
          show cleanupOf ((State.withPending _ _ _).withCleanup first none)
            task = _
          rw [cleanupOf_withCleanup,
            Function.update_of_ne (List.ne_of_not_mem_cons h)]
          rfl

end Scheduler

/-- Every terminated task is on the cleanup list, or its two allocations were
freed, each once. -/
structure Accounted (base : TaskRef → Nat) (history : History)
    (layout : Layout) (reaped : List TaskRef) : Prop
    extends Consistent history layout where
  freedOf : history.state.kfreed = reaped.flatMap (allocations base)
  reaped_nodup : reaped.Nodup
  terminated_iff : ∀ task, task ∈ history.terminated ↔
    task ∈ layout.pending ∨ task ∈ reaped

section

variable {base : TaskRef → Nat} {reaped : List TaskRef} {task : TaskRef}

theorem state_mem_allocations :
    Freed.state task ∈ reaped.flatMap (allocations base) ↔ task ∈ reaped := by
  simp [allocations]

theorem stack_mem_allocations (distinct : Function.Injective base) :
    Freed.stack (base task) ∈ reaped.flatMap (allocations base) ↔
      task ∈ reaped := by
  simp [allocations, distinct.eq_iff]

theorem allocations_nodup (distinct : Function.Injective base)
    (nodup : reaped.Nodup) : (reaped.flatMap (allocations base)).Nodup := by
  induction reaped with
  | nil => exact List.nodup_nil
  | cons first rest ih =>
      obtain ⟨hfirst, hrest⟩ := List.nodup_cons.mp nodup
      have hstate : Freed.state first ∉ rest.flatMap (allocations base) :=
        fun hmem => hfirst (state_mem_allocations.mp hmem)
      have hstack : Freed.stack (base first) ∉
          rest.flatMap (allocations base) :=
        fun hmem => hfirst ((stack_mem_allocations distinct).mp hmem)
      refine List.nodup_cons.mpr ⟨?_, List.nodup_cons.mpr ⟨hstack, ih hrest⟩⟩
      rintro (_ | ⟨_, hmem⟩)
      exact hstate hmem

end

section

variable {base : TaskRef → Nat} {history after : History}
  {layout next : Layout} {reaped : List TaskRef}

theorem Accounted.freed_iff (accounted : Accounted base history layout reaped)
    (task : TaskRef) :
    Freed.state task ∈ history.state.kfreed ↔ task ∈ reaped := by
  rw [accounted.freedOf]
  exact state_mem_allocations

theorem Consistent.not_pending (consistent : Consistent history layout)
    {task : TaskRef} (live : task ∈ history.live) : task ∉ layout.pending :=
  fun hpending => consistent.wellFormed.pending_ring task hpending
    ((consistent.live_iff task).mpr live)

theorem Accounted.spared (accounted : Accounted base history layout reaped)
    (consistent : Consistent after next)
    (same : SameCleanup history.state after.state)
    (terminated : after.terminated = history.terminated) :
    Accounted base after next reaped := by
  have hpending := consistent.wellFormed.pending.linked
  rw [same.links, same.head] at hpending
  have pending : next.pending = layout.pending :=
    hpending.unique accounted.wellFormed.pending.linked
  refine ⟨consistent, same.kfreed.trans accounted.freedOf,
    accounted.reaped_nodup, fun task => ?_⟩
  rw [terminated, pending]
  exact accounted.terminated_iff task

theorem WellFormed.withCleanup {state : State}
    (wellFormed : WellFormed state layout) {task : TaskRef}
    (fresh : task ∉ layout.pending) :
    WellFormed (state.withCleanup task none) layout := by
  have hnext : nextOf (state.withCleanup task none) = nextOf state :=
    nextOf_withCleanup ..
  have hwait : waitOf (state.withCleanup task none) = waitOf state :=
    waitOf_withCleanup ..
  have hstates : stateOf (state.withCleanup task none) = stateOf state :=
    stateOf_withCleanup ..
  refine ⟨⟨?_, wellFormed.ring_nodup, ?_, wellFormed.pending_ring, ?_,
    wellFormed.waiting_unique, wellFormed.waiting_ring, ?_, wellFormed.idle,
    wellFormed.valid_ring, wellFormed.valid_pending⟩, ?_,
    wellFormed.current, ?_⟩
  · rw [hnext]
    exact wellFormed.ring
  · refine wellFormed.pending.congr fun other hmem => ?_
    rw [cleanupOf_withCleanup, Function.update_of_ne]
    rintro rfl
    exact fresh hmem
  · rw [hwait]
    exact wellFormed.waiting
  · rw [hstates]
    exact wellFormed.blocked_iff
  · rw [hstates]
    exact wellFormed.running_iff
  · unfold isReady
    rw [hstates]
    exact wellFormed.unstarted

theorem Accounted.withCleanup
    (accounted : Accounted base history layout reaped) {task : TaskRef}
    (live : task ∈ history.live) :
    Accounted base { history with
      state := history.state.withCleanup task none } layout reaped where
  wellFormed := accounted.wellFormed.withCleanup (accounted.not_pending live)
  live_iff := accounted.live_iff
  live_nodup := accounted.live_nodup
  waiting := accounted.waiting
  pending := accounted.pending
  freed := accounted.freed
  started := accounted.started
  unstarted := accounted.unstarted
  freedOf := accounted.freedOf
  reaped_nodup := accounted.reaped_nodup
  terminated_iff := accounted.terminated_iff

theorem Accounted.retired (accounted : Accounted base history layout reaped)
    {task : TaskRef} (live : task ∈ history.live)
    (consistent : Consistent after next)
    (same : SameCleanup (Scheduler.retire history.state task) after.state)
    (terminated : after.terminated = task :: history.terminated) :
    Accounted base after next reaped := by
  have retired := Scheduler.retire_pending accounted.wellFormed.pending
    (accounted.not_pending live)
  have hpending := consistent.wellFormed.pending.linked
  rw [same.links, same.head] at hpending
  have pending : next.pending = layout.pending ++ [task] :=
    hpending.unique retired.linked
  have kfreed := same.kfreed.trans (Scheduler.retire_kfreed ..)
  refine ⟨consistent, kfreed.trans accounted.freedOf,
    accounted.reaped_nodup, fun other => ?_⟩
  rw [terminated, pending, List.mem_cons, accounted.terminated_iff,
    List.mem_append, List.mem_singleton]
  tauto

theorem Accounted.interrupted
    (accounted : Accounted base history layout reaped)
    (bases : ∀ task, (history.state.tasks task).stackBase = base task)
    (context : ExceptionContext) :
    ∃ next reaped, Accounted base { history with
      state := (Scheduler.interruptEffect history.state layout context).2 }
        next reaped := by
  have consistent := accounted.ticked.awakened.preempted context
  have awake := Scheduler.awake_sameCleanup history.state layout
  cases hcurrent : history.state.currentTask with
  | none =>
      refine ⟨_, reaped, accounted.spared consistent ?_ rfl⟩
      rw [Scheduler.interruptEffect_unstarted layout context hcurrent]
      exact awake
  | some current =>
      cases hpending : layout.pending with
      | nil =>
          have same := Scheduler.interruptEffect_sameCleanup layout context
            hcurrent
          rw [hpending] at same
          exact ⟨_, reaped, accounted.spared consistent (awake.trans same)
            rfl⟩
      | cons first rest =>
          have valid : first ∉ reaped := by
            rw [← accounted.freed_iff]
            exact accounted.wellFormed.valid_pending first
              (hpending ▸ List.mem_cons_self)
          have pending : (Scheduler.preemptLayout (Scheduler.wakeSleepers
              history.state.ticked layout.ring) layout).pending = rest := by
            unfold Scheduler.preemptLayout
            rw [if_neg]
            · exact congrArg List.tail hpending
            · rw [Scheduler.awake_currentTask, hcurrent]
              exact nofun
          refine ⟨_, first :: reaped, consistent, ?_,
            List.nodup_cons.mpr ⟨valid, accounted.reaped_nodup⟩, ?_⟩
          · have freed := Scheduler.interruptEffect_frees layout context
              hcurrent
            rw [funext bases, hpending, accounted.freedOf] at freed
            exact freed
          · intro task
            rw [pending, accounted.terminated_iff, hpending, List.mem_cons,
              List.mem_cons]
            tauto

end

end Planetoid.Task
