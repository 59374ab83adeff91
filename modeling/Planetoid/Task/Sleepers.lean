import Planetoid.Task.Ticks

namespace Planetoid.Task

open Planetoid Program Links Arch

/-! How long a sleeping task sleeps. -/

def wakeTickOf (state : State) (task : TaskRef) : Nat :=
  (state.tasks task).wakeTick

structure KeepsAsleep (before after : State) (task : TaskRef) : Prop where
  asleep : stateOf before task = .sleeping → stateOf after task = .sleeping
  wakeTick : wakeTickOf after task = wakeTickOf before task

theorem KeepsAsleep.refl (state : State) (task : TaskRef) :
    KeepsAsleep state state task :=
  ⟨fun h => h, rfl⟩

theorem KeepsAsleep.trans {first second third : State} {task : TaskRef}
    (left : KeepsAsleep first second task)
    (right : KeepsAsleep second third task) : KeepsAsleep first third task :=
  ⟨fun h => right.asleep (left.asleep h), right.wakeTick.trans left.wakeTick⟩

theorem keepsAsleep_of_eq {before after : State}
    (states : stateOf after = stateOf before)
    (wakeTicks : wakeTickOf after = wakeTickOf before) (task : TaskRef) :
    KeepsAsleep before after task := by
  refine ⟨?_, congrFun wakeTicks task⟩
  intro h
  rw [states]
  exact h

theorem setTask_keepsAsleep (state : State) {changed task : TaskRef}
    (update : TaskState → TaskState) (h : task ≠ changed) :
    KeepsAsleep state (state.setTask changed update) task := by
  have hsame := state.setTask_of_ne changed task update h
  constructor
  · unfold stateOf
    rw [hsame]
    exact fun h => h
  · unfold wakeTickOf
    rw [hsame]

/-! The links and the contexts are kept elsewhere. -/

section

variable (state : State) (task : TaskRef) (value : Option TaskRef)

theorem wakeTickOf_withNext :
    wakeTickOf (state.withNext task value) = wakeTickOf state :=
  view_setTask fun _ => rfl

theorem wakeTickOf_withWait :
    wakeTickOf (state.withWait task value) = wakeTickOf state :=
  view_setTask fun _ => rfl

theorem wakeTickOf_withCleanup :
    wakeTickOf (state.withCleanup task value) = wakeTickOf state :=
  view_setTask fun _ => rfl

theorem wakeTickOf_withState (value : EState) :
    wakeTickOf (state.withState task value) = wakeTickOf state :=
  view_setTask fun _ => rfl

theorem wakeTickOf_withContext (context : ExceptionContext) :
    wakeTickOf (Scheduler.withContext state task context) =
      wakeTickOf state :=
  view_setTask fun _ => rfl

theorem wakeTickOf_switchState (resume : Nat) (registers : Registers) :
    wakeTickOf (switchState resume registers state task) =
      wakeTickOf state :=
  @view_setTask _ TaskState.wakeTick state task
    (fun fields => { fields with
      cpuContext := switchedContext resume registers fields.cpuContext })
    fun _ => rfl

theorem wakeTickOf_linkIn :
    wakeTickOf (Scheduler.linkIn state task) = wakeTickOf state := by
  unfold Scheduler.linkIn
  split
  · exact wakeTickOf_withNext ..
  · exact (wakeTickOf_withNext ..).trans (wakeTickOf_withNext ..)

theorem wakeTickOf_unlink (ring : List TaskRef) :
    wakeTickOf (Scheduler.unlink state ring task) = wakeTickOf state := by
  unfold Scheduler.unlink
  split
  · rfl
  · split
    · exact wakeTickOf_withNext ..
    · exact wakeTickOf_withNext ..

theorem wakeTickOf_retire :
    wakeTickOf (Scheduler.retire state task) = wakeTickOf state := by
  unfold Scheduler.retire
  split
  · exact wakeTickOf_withCleanup ..
  · exact (wakeTickOf_withCleanup ..).trans (wakeTickOf_withCleanup ..)

theorem wakeTickOf_cleanupEffect (pending : List TaskRef) :
    wakeTickOf (Scheduler.cleanupEffect state pending) =
      wakeTickOf state := by
  unfold Scheduler.cleanupEffect
  split
  · rfl
  · exact wakeTickOf_withCleanup ..

theorem wakeTickOf_wake (queue : QueueRef) :
    wakeTickOf (WaitQueue.wake state queue task) = wakeTickOf state :=
  (wakeTickOf_withState ..).trans (wakeTickOf_withWait ..)

theorem wakeTickOf_join (queue : QueueRef) :
    wakeTickOf (WaitQueue.join state queue task) = wakeTickOf state := by
  have blocked := (wakeTickOf_withWait (state.withState task .blocked) task
    none).trans (wakeTickOf_withState state task .blocked)
  unfold WaitQueue.join
  split
  · exact blocked
  · exact (wakeTickOf_withWait ..).trans blocked

end

theorem wakeTickOf_wakeSleepers (state : State) (tasks : List TaskRef) :
    wakeTickOf (Scheduler.wakeSleepers state tasks) = wakeTickOf state := by
  unfold Scheduler.wakeSleepers
  generalize state.systemTicks = tick
  induction tasks generalizing state with
  | nil => rfl
  | cons first rest ih =>
      refine (ih _).trans ?_
      funext task
      exact Scheduler.wakeTick_wakeSleeper tick state first task

theorem firstReady_cases (state : State) (nodes : List TaskRef)
    (stop : TaskRef) :
    firstReady state nodes stop = stop ∨
      isReady state (firstReady state nodes stop) = true := by
  unfold firstReady
  cases hfind : nodes.find? (isReady state) with
  | none => exact .inl rfl
  | some next => exact .inr (List.find?_some hfind)

theorem ne_of_asleep {state : State} {task other : TaskRef}
    (asleep : stateOf state task = .sleeping)
    (ready : isReady state other = true) : task ≠ other := by
  intro heq
  subst heq
  rw [show stateOf state task = .ready from isReady_iff.mp ready] at asleep
  cases asleep

namespace Scheduler

variable {state : State} {layout : Layout} {task current idle : TaskRef}

theorem dispatch_keepsAsleep (state : State) {next : TaskRef}
    (h : task ≠ next) : KeepsAsleep state (dispatch state next) task := by
  obtain ⟨asleep, wakeTick⟩ := setTask_keepsAsleep state
    (fun fields => { fields with state := .running }) h
  exact ⟨asleep, wakeTick⟩

theorem withState_keepsAsleep (state : State) (value : EState)
    (h : task ≠ current) :
    KeepsAsleep state (state.withState current value) task :=
  setTask_keepsAsleep state _ h

theorem masked_keepsAsleep (state : State) (task : TaskRef) :
    KeepsAsleep state state.masked task :=
  ⟨fun h => h, rfl⟩

theorem yieldEffect_keepsAsleep (asleep : stateOf state task = .sleeping)
    (h : task ≠ current) :
    KeepsAsleep state (yieldEffect state layout current).2 task := by
  simp only [yieldEffect]
  split
  · exact KeepsAsleep.refl ..
  · rename_i hnext
    have ready := (firstReady_cases ..).resolve_left hnext
    exact ((masked_keepsAsleep state task).trans
      (withState_keepsAsleep _ _ h)).trans
        (dispatch_keepsAsleep _ (ne_of_asleep asleep ready))

theorem switchEffect_keepsAsleep (asleep : stateOf state task = .sleeping)
    (hidle : task ≠ idle) :
    KeepsAsleep state (switchEffect state layout current idle).2 task := by
  simp only [switchEffect]
  split
  · exact dispatch_keepsAsleep _ hidle
  · rename_i hnext
    have ready := (firstReady_cases ..).resolve_left hnext
    exact dispatch_keepsAsleep _ (ne_of_asleep asleep ready)

theorem asleep_keepsAsleep (state : State) (ticks : Nat)
    (h : task ≠ current) :
    KeepsAsleep state (asleep state current ticks) task := by
  have masked := masked_keepsAsleep state task
  have deadline := masked.trans (setTask_keepsAsleep _ (fun fields =>
    { fields with
      wakeTick := (state.systemTicks + ticks) % Timer.ticksModulus }) h)
  exact deadline.trans (withState_keepsAsleep _ _ h)

theorem addTaskEffect_keepsAsleep (state : State) {added : TaskRef}
    (h : task ≠ added) :
    KeepsAsleep state (addTaskEffect state added) task := by
  refine ⟨?_, congrFun ((wakeTickOf_linkIn ..).trans
    (wakeTickOf_withState ..)) task⟩
  intro asleep
  rw [stateOf_addTaskEffect, if_neg h]
  exact asleep

theorem terminateEffect_keepsAsleep (asleep : stateOf state task = .sleeping)
    (hidle : task ≠ idle) :
    KeepsAsleep state (terminateEffect state layout current idle).2 task := by
  have states := retired_states state layout current
  have left : KeepsAsleep state (retired state layout current) task :=
    keepsAsleep_of_eq states
      ((wakeTickOf_unlink ..).trans (wakeTickOf_retire ..)) task
  simp only [terminateEffect]
  cases hfind : (layout.ring.erase current).find?
      (isReady (retired state layout current)) with
  | none => exact left.trans (dispatch_keepsAsleep _ hidle)
  | some next =>
      exact left.trans (dispatch_keepsAsleep _
        (ne_of_asleep (left.asleep asleep) (List.find?_some hfind)))

theorem cleanupEffect_keepsAsleep (state : State) (pending : List TaskRef)
    (task : TaskRef) :
    KeepsAsleep state (cleanupEffect state pending) task :=
  keepsAsleep_of_eq (cleanupEffect_same ..).states
    (wakeTickOf_cleanupEffect ..) task

theorem preemptIdle_keepsAsleep (asleep : stateOf state task = .sleeping)
    (ring : List TaskRef) (context : ExceptionContext) :
    KeepsAsleep state (preemptIdle state ring context).2 task := by
  unfold preemptIdle
  split
  · exact KeepsAsleep.refl ..
  · rename_i hfind
    exact dispatch_keepsAsleep _ (ne_of_asleep asleep (List.find?_some hfind))

theorem preemptTask_keepsAsleep (asleep : stateOf state task = .sleeping)
    (ring : List TaskRef) (h : task ≠ current) (context : ExceptionContext) :
    KeepsAsleep state (preemptTask state ring current context).2 task := by
  have saved : KeepsAsleep state (paused state current context) task := by
    refine ⟨?_, congrFun ((wakeTickOf_withState ..).trans
      (wakeTickOf_withContext ..)) task⟩
    intro asleep
    rw [stateOf_paused, if_neg h]
    exact asleep
  simp only [preemptTask]
  split
  · exact saved.trans (withState_keepsAsleep _ _ h)
  · rename_i hnext
    have ready := (firstReady_cases ..).resolve_left hnext
    exact saved.trans (dispatch_keepsAsleep _
      (ne_of_asleep (saved.asleep asleep) ready))

theorem preemptEffect_keepsAsleep (asleep : stateOf state task = .sleeping)
    (h : state.currentTask ≠ some task) (context : ExceptionContext) :
    KeepsAsleep state (preemptEffect state layout context).2 task := by
  have cleaned := cleanupEffect_keepsAsleep state layout.pending task
  unfold preemptEffect
  split
  · exact KeepsAsleep.refl ..
  · rename_i current hcurrent
    simp only
    split
    · exact cleaned.trans
        (preemptIdle_keepsAsleep (cleaned.asleep asleep) _ context)
    · refine cleaned.trans
        (preemptTask_keepsAsleep (cleaned.asleep asleep) _ ?_ context)
      rintro rfl
      exact h hcurrent

theorem wakeSleepers_keepsAsleep (state : State) (tasks : List TaskRef)
    (early : state.systemTicks < wakeTickOf state task) :
    KeepsAsleep state (wakeSleepers state tasks) task := by
  refine ⟨?_, congrFun (wakeTickOf_wakeSleepers ..) task⟩
  intro asleep
  unfold wakeSleepers
  rw [stateOf_wakeAll, if_neg, asleep]
  intro expired
  exact absurd expired.2.2 (Nat.not_le.mpr early)

end Scheduler

theorem finishEffect_keepsAsleep (entry : Entry) (result : Exit × State)
    (task : TaskRef) :
    KeepsAsleep result.2 (finishEffect entry result) task := by
  unfold finishEffect
  split
  · exact KeepsAsleep.refl ..
  · exact keepsAsleep_of_eq (stateOf_switchState ..)
      (wakeTickOf_switchState ..) task

namespace WaitQueue

variable {state : State} {task : TaskRef}

theorem wake_keepsAsleep (state : State) (queue : QueueRef) {woken : TaskRef}
    (h : task ≠ woken) : KeepsAsleep state (wake state queue woken) task := by
  refine ⟨?_, congrFun (wakeTickOf_wake ..) task⟩
  intro asleep
  rw [stateOf_wake, if_neg h]
  exact asleep

theorem join_keepsAsleep (state : State) (queue : QueueRef)
    {blocked : TaskRef} (h : task ≠ blocked) :
    KeepsAsleep state (join state queue blocked) task := by
  refine ⟨?_, congrFun (wakeTickOf_join ..) task⟩
  intro asleep
  rw [stateOf_join, if_neg h]
  exact asleep

theorem wakeOneEffect_keepsAsleep (state : State) (queue : QueueRef)
    {tasks : List TaskRef} (h : task ∉ tasks) :
    KeepsAsleep state (wakeOneEffect state queue tasks) task := by
  cases tasks with
  | nil => exact KeepsAsleep.refl ..
  | cons first rest =>
      exact wake_keepsAsleep state queue (List.ne_of_not_mem_cons h)

theorem wakeAllEffect_keepsAsleep (state : State) (queue : QueueRef)
    {tasks : List TaskRef} (h : task ∉ tasks) :
    KeepsAsleep state (wakeAllEffect state queue tasks) task := by
  induction tasks generalizing state with
  | nil => exact KeepsAsleep.refl ..
  | cons first rest ih =>
      exact (wake_keepsAsleep state queue (List.ne_of_not_mem_cons h)).trans
        (ih _ (List.not_mem_of_not_mem_cons h))

end WaitQueue

/-- A sleeping task of the ring neither runs nor waits nor idles. -/
structure Sleeper (state : State) (layout : Layout) (task : TaskRef) :
    Prop where
  member : task ∈ layout.ring
  asleep : stateOf state task = .sleeping
  notCurrent : state.currentTask ≠ some task
  notIdle : state.idleTask ≠ some task
  notWaiting : ∀ queue, task ∉ layout.waiting queue
  started : state.currentTask ≠ none

theorem WellFormed.sleeper {state : State} {layout : Layout}
    (wellFormed : WellFormed state layout) {task : TaskRef}
    (member : task ∈ layout.ring) (asleep : stateOf state task = .sleeping) :
    Sleeper state layout task where
  member := member
  asleep := asleep
  notCurrent := by
    intro hcurrent
    rw [(wellFormed.running_iff task member).mpr hcurrent] at asleep
    cases asleep
  notIdle := by
    intro hidle
    obtain ⟨idle, hother, hfresh, _⟩ := wellFormed.idle
    cases hidle.symm.trans hother
    exact hfresh member
  notWaiting := by
    intro queue hwaiting
    rw [(wellFormed.blocked_iff task member).mpr ⟨queue, hwaiting⟩] at asleep
    cases asleep
  started := by
    intro hnone
    exact ne_of_asleep asleep (wellFormed.unstarted hnone task member) rfl

/-- No operation but `update_sleeping_tasks` at the deadline wakes a
sleeper. -/
theorem Effect.keepsAsleep {history : History} {layout : Layout}
    {entry : Entry} {operation : Operation} {ring : List TaskRef}
    {after : State} (effect : Effect history layout entry operation ring after)
    {task : TaskRef} (sleeper : Sleeper history.state layout task)
    (early : history.state.systemTicks < wakeTickOf history.state task ∨
      operation ≠ .updateSleepingTasks) :
    KeepsAsleep history.state after task := by
  have asleep := sleeper.asleep
  have hcurrent : ∀ other, history.state.currentTask = some other →
      task ≠ other := by
    intro other h heq
    exact sleeper.notCurrent (heq ▸ h)
  have hidle : ∀ other, history.state.idleTask = some other →
      task ≠ other := by
    intro other h heq
    exact sleeper.notIdle (heq ▸ h)
  cases effect with
  | addTask addable =>
      apply Scheduler.addTaskEffect_keepsAsleep
      rintro rfl
      exact addable.ring sleeper.member
  | start unstarted idle => exact absurd unstarted sleeper.started
  | yield current member =>
      exact (Scheduler.yieldEffect_keepsAsleep asleep
        (hcurrent _ current)).trans (finishEffect_keepsAsleep ..)
  | preempt =>
      exact Scheduler.preemptEffect_keepsAsleep asleep sleeper.notCurrent _
  | rest => exact KeepsAsleep.refl ..
  | @sleep ticks _ _ current member idle positive =>
      have first := Scheduler.asleep_keepsAsleep history.state ticks
        (hcurrent _ current)
      exact (first.trans (Scheduler.switchEffect_keepsAsleep
        (first.asleep asleep) (hidle _ idle))).trans
          (finishEffect_keepsAsleep ..)
  | updateSleepingTasks =>
      exact Scheduler.wakeSleepers_keepsAsleep _ _
        (early.resolve_right fun h => h rfl)
  | @blockCurrent queue _ _ current member idle =>
      have first := WaitQueue.join_keepsAsleep history.state queue
        (hcurrent _ current)
      exact (first.trans (Scheduler.switchEffect_keepsAsleep
        (first.asleep asleep) (hidle _ idle))).trans
          (finishEffect_keepsAsleep ..)
  | wakeOne =>
      exact WaitQueue.wakeOneEffect_keepsAsleep _ _ (sleeper.notWaiting _)
  | wakeAll =>
      exact WaitQueue.wakeAllEffect_keepsAsleep _ _ (sleeper.notWaiting _)
  | @terminateCurrent current idle exit other _ _ hidle' terminated =>
      have first := @Scheduler.terminateEffect_keepsAsleep history.state layout
        task current idle asleep (hidle _ hidle')
      rw [terminated] at first
      exact first.trans (finishEffect_keepsAsleep entry (exit, other) task)

theorem Effect.keepsMember {history : History} {layout : Layout}
    {entry : Entry} {operation : Operation} {ring : List TaskRef}
    {after : State} (effect : Effect history layout entry operation ring after)
    {task : TaskRef} (sleeper : Sleeper history.state layout task) :
    task ∈ ring := by
  have member := sleeper.member
  cases effect with
  | addTask addable => exact mem_insertSecond.mpr (.inr member)
  | terminateCurrent current _ _ _ =>
      apply (List.mem_erase_of_ne _).mpr member
      rintro rfl
      exact sleeper.notCurrent current
  | _ => exact member

def Operation.OfTasks : Operation → Prop
  | .preempt _ | .updateSleepingTasks => False
  | _ => True

/-- The histories after `start` and before the timer interrupt of number
`ticks`, with the number of timer interrupts in between. -/
inductive Slumber (start : History) (ticks : Nat) : History → Nat → Prop
  | begin : Slumber start ticks start 0
  | operation {before after : History} {count : Nat} {operation : Operation}
      (slumber : Slumber start ticks before count)
      (ofTasks : operation.OfTasks) (fresh : operation.AddsFresh before)
      (transition : runs.step before operation after) :
      Slumber start ticks after count
  | interrupt {before : History} {count budget : Nat}
      {context frame : ExceptionContext} {after : State}
      (slumber : Slumber start ticks before count) (early : count + 1 < ticks)
      (ended : (onTimerInterrupt budget context).run before.state =
        .ok (frame, after)) :
      Slumber start ticks { before with state := after } (count + 1)

/-- `task`, asleep in `start`, sleeps through the timer interrupts before the
one of number `ticks`, in which `update_sleeping_tasks` makes it Ready. -/
structure SleepsUntil (task : TaskRef) (ticks : Nat) (start : History) :
    Prop where
  asleep : ∀ history count, Slumber start ticks history count →
    stateOf history.state task = .sleeping ∧
      history.state.currentTask ≠ some task
  wakes : ∀ history count, Slumber start ticks history count →
    count + 1 = ticks → ∃ need, ∀ budget, need < budget →
      ∃ woken, (Timer.onInterrupt >>= fun _ =>
          Scheduler.updateSleepingTasks budget).run history.state =
        .ok ((), woken) ∧ stateOf woken task = .ready

structure Dreams (task : TaskRef) (now ticks count : Nat) (history : History)
    (layout : Layout) : Prop where
  consistent : Consistent history layout
  member : task ∈ layout.ring
  asleep : stateOf history.state task = .sleeping
  wakeTick : wakeTickOf history.state task =
    (now + ticks) % Timer.ticksModulus
  systemTicks : history.state.systemTicks =
    (now + count) % Timer.ticksModulus
  early : count < ticks

theorem deadline_ahead {now ticks count : Nat}
    (ahead : now + ticks < Timer.ticksModulus ∨
      now + 1 = Timer.ticksModulus) (bounded : ticks < Timer.ticksModulus)
    (early : count + 1 < ticks) :
    (now + (count + 1)) % Timer.ticksModulus <
      (now + ticks) % Timer.ticksModulus := by
  unfold Timer.ticksModulus at *
  omega

theorem Scheduler.woken_keepsAsleep {state : State} {layout : Layout}
    {task : TaskRef}
    (early : state.ticked.systemTicks < wakeTickOf state task) :
    KeepsAsleep state (wakeSleepers state.ticked layout.ring) task := by
  have ticked : KeepsAsleep state state.ticked task := ⟨fun h => h, rfl⟩
  exact ticked.trans (wakeSleepers_keepsAsleep state.ticked _ early)

theorem Scheduler.interruptEffect_keepsAsleep {state : State}
    {layout : Layout} {task : TaskRef} (sleeper : Sleeper state layout task)
    (early : state.ticked.systemTicks < wakeTickOf state task)
    (context : ExceptionContext) :
    KeepsAsleep state (interruptEffect state layout context).2 task := by
  have woken := @woken_keepsAsleep state layout task early
  refine woken.trans (preemptEffect_keepsAsleep (woken.asleep sleeper.asleep)
    ?_ context)
  unfold wakeSleepers
  rw [(foldl_wakeSleeper_sameLinks ..).2]
  exact sleeper.notCurrent

section

variable {task : TaskRef} {now ticks count : Nat} {history : History}
  {layout : Layout}

theorem Dreams.sleeper (dreams : Dreams task now ticks count history layout) :
    Sleeper history.state layout task :=
  dreams.consistent.wellFormed.sleeper dreams.member dreams.asleep

theorem Dreams.operation (dreams : Dreams task now ticks count history layout)
    {operation : Operation} {after : History} (ofTasks : operation.OfTasks)
    (fresh : operation.AddsFresh history)
    (transition : runs.step history operation after) :
    ∃ next, Dreams task now ticks count after next := by
  obtain ⟨issued, entry, budget, state, ended, hafter⟩ := transition
  obtain ⟨next, consistent, effect, same⟩ := operation_effect
    dreams.consistent issued fresh ended
  have keeps := effect.keepsAsleep dreams.sleeper
    (.inr fun h => by rw [h] at ofTasks; exact ofTasks)
  rw [hafter]
  refine ⟨next, consistent, effect.keepsMember dreams.sleeper, ?_, ?_, ?_,
    dreams.early⟩
  · rw [operation.record_state]
    exact keeps.asleep dreams.asleep
  · rw [operation.record_state, keeps.wakeTick]
    exact dreams.wakeTick
  · rw [operation.record_state, same.systemTicks]
    exact dreams.systemTicks

theorem Dreams.ticked (dreams : Dreams task now ticks count history layout) :
    history.state.ticked.systemTicks =
      (now + (count + 1)) % Timer.ticksModulus := by
  rw [State.ticked_systemTicks, dreams.systemTicks, Nat.mod_add_mod,
    Nat.add_assoc]

theorem Dreams.interrupt (dreams : Dreams task now ticks count history layout)
    (ahead : now + ticks < Timer.ticksModulus ∨
      now + 1 = Timer.ticksModulus) (bounded : ticks < Timer.ticksModulus)
    (early : count + 1 < ticks) {budget : Nat}
    {context frame : ExceptionContext} {after : State}
    (ended : (onTimerInterrupt budget context).run history.state =
      .ok (frame, after)) :
    ∃ next, Dreams task now ticks (count + 1)
      { history with state := after } next := by
  have returns := Scheduler.onTimerInterrupt_returns
    dreams.consistent.wellFormed context
  have hafter := congrArg Prod.snd (returns.unique ended)
  obtain ⟨next, hring, consistent⟩ := dreams.consistent.interrupted context
  have keeps := Scheduler.interruptEffect_keepsAsleep dreams.sleeper (by
    rw [dreams.ticked, dreams.wakeTick]
    exact deadline_ahead ahead bounded early) context
  have hticks : (Scheduler.interruptEffect history.state layout
      context).2.systemTicks = history.state.ticked.systemTicks :=
    (Scheduler.preemptEffect_same ..).systemTicks.trans
      (Scheduler.foldl_wakeSleeper_sameLinks ..).1.systemTicks
  rw [← hafter] at keeps consistent hticks
  refine ⟨next, consistent, ?_, keeps.asleep dreams.asleep,
    keeps.wakeTick.trans dreams.wakeTick, hticks.trans dreams.ticked, early⟩
  rw [hring]
  exact dreams.member

end

theorem dreams_begin {before start : History} {layout : Layout}
    {task : TaskRef} {ticks : Nat} (consistent : Consistent before layout)
    (bounded : before.state.systemTicks < Timer.ticksModulus)
    (sleeps : before.Runs task) (positive : 0 < ticks)
    (slept : runs.step before (.sleep ticks) start) :
    ∃ next, Dreams task before.state.systemTicks ticks 0 start next := by
  obtain ⟨issued, entry, budget, state, ended, hstart⟩ := slept
  obtain ⟨next, hnext, effect, same⟩ := operation_effect consistent issued
    trivial ended
  rw [hstart]
  generalize hring : next.ring = ring at effect
  cases effect with
  | rest => cases positive
  | @sleep _ current idle hcurrent member hidle _ =>
      cases hcurrent.symm.trans sleeps.1
      have hnotIdle : task ≠ idle := by
        rintro rfl
        obtain ⟨other, hother, hfresh, _⟩ := consistent.wellFormed.idle
        cases hidle.symm.trans hother
        exact hfresh member
      have asleep : stateOf (Scheduler.asleep before.state task ticks) task =
          .sleeping := by
        rw [Scheduler.stateOf_asleep, if_pos rfl]
      have keeps := (@Scheduler.switchEffect_keepsAsleep _ layout task task
        idle asleep hnotIdle).trans (finishEffect_keepsAsleep entry _ task)
      have deadline : wakeTickOf (Scheduler.asleep before.state task ticks)
          task = (before.state.systemTicks + ticks) % Timer.ticksModulus := by
        refine (congrFun (wakeTickOf_withState ..) task).trans ?_
        simp [wakeTickOf]
      refine ⟨next, hnext, hring ▸ member, keeps.asleep asleep,
        keeps.wakeTick.trans deadline, ?_, positive⟩
      rw [Nat.add_zero, Nat.mod_eq_of_lt bounded]
      exact same.systemTicks

theorem slumber_dreams {start history : History} {task : TaskRef}
    {now ticks count : Nat} {layout : Layout}
    (ahead : now + ticks < Timer.ticksModulus ∨
      now + 1 = Timer.ticksModulus) (bounded : ticks < Timer.ticksModulus)
    (dreams : Dreams task now ticks 0 start layout)
    (slumber : Slumber start ticks history count) :
    ∃ next, Dreams task now ticks count history next := by
  induction slumber with
  | begin => exact ⟨layout, dreams⟩
  | operation _ ofTasks fresh transition ih =>
      obtain ⟨next, reached⟩ := ih
      exact reached.operation ofTasks fresh transition
  | interrupt _ early ended ih =>
      obtain ⟨next, reached⟩ := ih
      exact reached.interrupt ahead bounded early ended

/-- The walk of the next timer interrupt wakes the task if its deadline has
come. -/
theorem Dreams.wakes {task : TaskRef} {now ticks count : Nat}
    {history : History} {layout : Layout}
    (dreams : Dreams task now ticks count history layout)
    (expired : (now + ticks) % Timer.ticksModulus ≤
      (now + (count + 1)) % Timer.ticksModulus) :
    stateOf (Scheduler.wakeSleepers history.state.ticked layout.ring) task =
      .ready := by
  unfold Scheduler.wakeSleepers
  rw [Scheduler.stateOf_wakeAll, if_pos]
  refine ⟨dreams.member, dreams.asleep, ?_⟩
  rw [dreams.ticked]
  exact Nat.le_trans (Nat.le_of_eq dreams.wakeTick) expired

/-- A deadline behind the counter has come at the next timer interrupt. -/
theorem Dreams.wakesEarly {task : TaskRef} {now ticks : Nat}
    {history : History} {layout : Layout}
    (dreams : Dreams task now ticks 0 history layout)
    (bounded : ticks < Timer.ticksModulus)
    (behind : Timer.ticksModulus ≤ now + ticks)
    (next : now + 1 < Timer.ticksModulus) (context : ExceptionContext) :
    stateOf (Scheduler.interruptEffect history.state layout context).2 task ≠
      .sleeping := by
  have woken := dreams.wakes (by
    unfold Timer.ticksModulus at *
    omega)
  intro asleep
  have keeps := @Scheduler.preemptEffect_keepsAwake none
    (Scheduler.wakeSleepers history.state.ticked layout.ring) layout context
  have dormant := keeps.awake task nofun (.inl asleep)
  rw [woken] at dormant
  simp [Dormant] at dormant

theorem Dreams.not_sleepsUntil {task : TaskRef} {now ticks : Nat}
    {start : History} {layout : Layout}
    (dreams : Dreams task now ticks 0 start layout)
    (bounded : ticks < Timer.ticksModulus)
    (behind : Timer.ticksModulus ≤ now + ticks)
    (next : now + 1 < Timer.ticksModulus) : ¬ SleepsUntil task ticks start := by
  intro sleepsUntil
  have returns := (Scheduler.onTimerInterrupt_returns
    dreams.consistent.wellFormed blankFrame).run_eq (Nat.lt_succ_self _)
  have slumber := Slumber.interrupt (.begin : Slumber start ticks start 0)
    (by omega) returns
  exact dreams.wakesEarly bounded behind next blankFrame
    (sleepsUntil.asleep _ _ slumber).1

/-- A task that calls `sleep(ticks)` sleeps for exactly `ticks` timer
interrupts if and only if the deadline does not pass the end of the tick
counter, or the counter itself passes it with the next tick. -/
theorem sleepsUntil_iff {before start : History} {task : TaskRef}
    {ticks : Nat} (reachable : timedRuns.Reachable (fun history event =>
      event.AddsFresh history) before) (sleeps : before.Runs task)
    (positive : 0 < ticks) (bounded : ticks < Timer.ticksModulus)
    (slept : runs.step before (.sleep ticks) start) :
    SleepsUntil task ticks start ↔
      before.state.systemTicks + ticks < Timer.ticksModulus ∨
        before.state.systemTicks + 1 = Timer.ticksModulus := by
  obtain ⟨⟨layout, consistent⟩, hnow⟩ := timed_consistent reachable
  obtain ⟨layout, dreams⟩ := dreams_begin consistent hnow sleeps positive slept
  constructor
  · intro sleepsUntil
    by_contra hnot
    obtain ⟨behind, hlast⟩ := not_or.mp hnot
    exact dreams.not_sleepsUntil bounded (Nat.not_lt.mp behind)
      (Nat.lt_of_le_of_ne hnow hlast) sleepsUntil
  · intro ahead
    have reached := fun history count =>
      @slumber_dreams start history task _ ticks count layout ahead bounded
        dreams
    constructor
    · intro history count slumber
      obtain ⟨next, dreams⟩ := reached history count slumber
      exact ⟨dreams.asleep, dreams.sleeper.notCurrent⟩
    · intro history count slumber last
      obtain ⟨next, dreams⟩ := reached history count slumber
      have woken := dreams.wakes (Nat.le_of_eq (by rw [last]))
      exact ⟨_, fun budget hbudget => ⟨_, (Scheduler.wakes_returns
        dreams.consistent.wellFormed).run_eq hbudget, woken⟩⟩

theorem sleep_oneTick {ticks : Nat} {after : State}
    (ended : (Operation.program (.sleep ticks) bootEntry 4).run oneTick.state =
      .ok ((), after)) :
    runs.step oneTick (.sleep ticks) { oneTick with state := after } :=
  ⟨⟨2, rfl, (by decide : 2 ∈ [2])⟩, bootEntry, 4, after, ended, rfl⟩

theorem sleepsUntil_oneTick : ∃ start,
    runs.step oneTick (.sleep 20) start ∧ SleepsUntil 2 20 start :=
  ⟨_, sleep_oneTick rfl, (sleepsUntil_iff oneTick_reachable
    ⟨rfl, (by decide : 2 ∈ [2])⟩ (by decide) (by decide)
    (sleep_oneTick rfl)).mpr (.inl (by decide))⟩

/-- At tick 1 a sleep of 2 ^ 64 - 1 ticks ends with the next interrupt. -/
theorem sleepsUntil_fails_for_wrap : ∃ before start task ticks,
    timedRuns.Reachable (fun history event => event.AddsFresh history)
        before ∧ before.Runs task ∧ 0 < ticks ∧
      ticks < Timer.ticksModulus ∧ runs.step before (.sleep ticks) start ∧
      ¬ SleepsUntil task ticks start := by
  obtain ⟨⟨layout, consistent⟩, bounded⟩ := timed_consistent oneTick_reachable
  have sleeps : oneTick.Runs 2 := ⟨rfl, (by decide : 2 ∈ [2])⟩
  obtain ⟨next, dreams⟩ := dreams_begin consistent bounded sleeps
    (by decide : 0 < 2 ^ 64 - 1) (sleep_oneTick rfl)
  exact ⟨oneTick, _, 2, 2 ^ 64 - 1, oneTick_reachable, sleeps, by decide,
    by decide, sleep_oneTick rfl,
    dreams.not_sleepsUntil (by decide) (by decide) (by decide)⟩

end Planetoid.Task
