import Planetoid.Task.RingInvariant

namespace Planetoid.Task

open Planetoid Program Links Arch

/-! Any number of tasks that share one mutex. -/

inductive Phase where
  | outside
  | locking
  | holding
  deriving DecidableEq, Repr

/-- The run of the scheduler, the phases of the tasks, and the tasks that
`wake_one` removed from the mutex's queue and that have not tested the flag
since. -/
structure Protocol where
  history : History
  phase : TaskRef → Phase
  woken : List TaskRef

namespace Mutex

/-- One round of the loop of `lock`: whether the mutex was taken. -/
def round (mutex : MutexRef) (entry : Entry) (budget : Nat) : Sched Bool := do
  match ← lockRound budget mutex with
  | none => pure true
  | some exit => do
    entry.finish exit
    pure false

inductive Event where
  | call
  /-- The running task goes through the loop of `lock` once. -/
  | round
  | unlock
  /-- Any other operation of the scheduler and of the wait queues. -/
  | other (operation : Operation)

/-- A task inside `lock` runs nothing but `lock`, the holder unlocks before it
terminates, and only `lock` blocks on the mutex's queue. -/
def Allowed (mutex : MutexRef) (protocol : Protocol) : Operation → Prop
  | .yield | .sleep _ =>
    ∀ task, protocol.history.Runs task → protocol.phase task ≠ .locking
  | .blockCurrent queue => queue ≠ mutex ∧
    ∀ task, protocol.history.Runs task → protocol.phase task ≠ .locking
  | .terminateCurrent =>
    ∀ task, protocol.history.Runs task → protocol.phase task = .outside
  | _ => True

def released (mutex : MutexRef) (history : History) :
    Operation → List TaskRef
  | .wakeOne queue =>
    if queue = mutex then (history.waiting mutex).head?.toList else []
  | .wakeAll queue => if queue = mutex then history.waiting mutex else []
  | _ => []

inductive Step (mutex : MutexRef) : Protocol → Event → Protocol → Prop
  | call {protocol : Protocol} {task : TaskRef}
      (runs : protocol.history.Runs task)
      (phase : protocol.phase task = .outside) :
      Step mutex protocol .call { protocol with
        phase := Function.update protocol.phase task .locking }
  | acquire {protocol : Protocol} {task : TaskRef} {entry : Entry}
      {budget : Nat} {after : State} (runs : protocol.history.Runs task)
      (phase : protocol.phase task = .locking)
      (ended : (round mutex entry budget).run protocol.history.state =
        .ok (true, after)) :
      Step mutex protocol .round {
        history := { protocol.history with state := after }
        phase := Function.update protocol.phase task .holding
        woken := protocol.woken.filter (· ≠ task) }
  | wait {protocol : Protocol} {task : TaskRef} {entry : Entry}
      {budget : Nat} {after : State} (runs : protocol.history.Runs task)
      (phase : protocol.phase task = .locking)
      (ended : (round mutex entry budget).run protocol.history.state =
        .ok (false, after)) :
      Step mutex protocol .round { protocol with
        history := { protocol.history with
          state := after
          waiting := Function.update protocol.history.waiting mutex
            (protocol.history.waiting mutex ++ [task]) }
        woken := protocol.woken.filter (· ≠ task) }
  | unlock {protocol : Protocol} {task : TaskRef} {after : State}
      (runs : protocol.history.Runs task)
      (phase : protocol.phase task = .holding)
      (ended : (unlock (some mutex)).run protocol.history.state =
        .ok ((), after)) :
      Step mutex protocol .unlock {
        history := { protocol.history with
          state := after
          waiting := Function.update protocol.history.waiting mutex
            (protocol.history.waiting mutex).tail }
        phase := Function.update protocol.phase task .outside
        woken := protocol.woken ++
          (protocol.history.waiting mutex).head?.toList }
  | other {protocol : Protocol} {operation : Operation} {entry : Entry}
      {budget : Nat} {after : State}
      (issued : operation.Issued protocol.history)
      (fresh : operation.AddsFresh protocol.history)
      (allowed : Allowed mutex protocol operation)
      (ended : (operation.program entry budget).run protocol.history.state =
        .ok ((), after)) :
      Step mutex protocol (.other operation) { protocol with
        history := operation.record protocol.history after
        woken := protocol.woken ++ released mutex protocol.history operation }

def protocols (mutex : MutexRef) : System Protocol Event where
  initial protocol := runs.initial protocol.history ∧
    protocol.history.state.locked mutex = false ∧
    (∀ task, protocol.phase task = .outside) ∧ protocol.woken = []
  step := Step mutex

end Mutex

/-! The masked regions of `lock` and `unlock`. -/

def State.withFlags (state : State) (locked : QueueRef → Bool) (daif : Nat) :
    State :=
  { state with locked := locked, daif := daif }

theorem Consistent.withFlags {history : History} {layout : Layout}
    (consistent : Consistent history layout) (locked : QueueRef → Bool)
    (daif : Nat) :
    Consistent { history with state := history.state.withFlags locked daif }
      layout where
  wellFormed := by
    obtain ⟨shape, running, current, unstarted⟩ := consistent.wellFormed
    exact ⟨⟨shape.ring, shape.ring_nodup, shape.pending, shape.pending_ring,
      shape.waiting, shape.waiting_unique, shape.waiting_ring,
      shape.blocked_iff, shape.idle, shape.valid_ring, shape.valid_pending⟩,
      running, current, unstarted⟩
  live_iff := consistent.live_iff
  live_nodup := consistent.live_nodup
  waiting := consistent.waiting
  pending := consistent.pending
  freed := consistent.freed
  started := consistent.started
  unstarted := consistent.unstarted

namespace Mutex

theorem run_setLocked_bind (mutex : MutexRef) (value : Bool)
    (next : Unit → Sched β) (state : State) :
    (setLocked mutex value >>= next).run state =
      (next ()).run (state.withFlags
        (Function.update state.locked mutex value) state.daif) := rfl

theorem run_lockRound_free {mutex : MutexRef} {state : State}
    (free : state.locked mutex = false) (budget : Nat) :
    (lockRound budget mutex).run state = .ok (none,
      state.withFlags (Function.update state.locked mutex true)
        state.daif) := by
  have hmasked : state.masked.locked mutex = false := free
  simp [lockRound, run_setLocked_bind, hmasked]
  rfl

theorem run_lockRound_taken {mutex : MutexRef} {state : State}
    (taken : state.locked mutex = true) (budget : Nat) :
    (lockRound budget mutex).run state =
      (WaitQueue.blockCurrent budget (some mutex) >>= fun exit =>
        (pure (some exit) : Sched (Option Exit))).run state.masked := by
  have hmasked : state.masked.locked mutex = true := taken
  simp [lockRound, hmasked]

theorem run_round_free {mutex : MutexRef} {state : State}
    (free : state.locked mutex = false) (entry : Entry) (budget : Nat) :
    (round mutex entry budget).run state = .ok (true,
      state.withFlags (Function.update state.locked mutex true)
        state.daif) :=
  run_bind_ok (run_lockRound_free free budget) _

theorem run_round_taken {mutex : MutexRef} {state : State}
    (taken : state.locked mutex = true) (entry : Entry) (budget : Nat) :
    (round mutex entry budget).run state =
      ((Operation.blockCurrent mutex).program entry budget >>= fun _ =>
        (pure false : Sched Bool)).run state.masked := by
  have hround := run_lockRound_taken taken budget
  unfold Operation.program
  cases hblocked : (WaitQueue.blockCurrent budget (some mutex)).run
      state.masked with
  | error fault =>
      rw [run_bind_error hblocked] at hround
      exact (run_bind_error hround _).trans
        (run_bind_error (run_bind_error hblocked _) _).symm
  | ok result =>
      obtain ⟨exit, after⟩ := result
      rw [run_bind_ok hblocked] at hround
      refine (run_bind_ok hround _).trans ?_
      rw [run_bind, run_bind, run_bind_ok hblocked]

theorem run_unlock {mutex : MutexRef} {state : State}
    {tasks : List TaskRef}
    (hqueue : Queue (waitOf state) (state.queues mutex).head
      (state.queues mutex).tail tasks)
    (valid : ∀ task, task ∈ tasks → state.Valid task) :
    (unlock (some mutex)).run state = .ok ((),
      (WaitQueue.wakeOneEffect (state.withFlags
        (Function.update state.locked mutex false) state.masked.daif) mutex
          tasks).withDaif state.daif) := by
  have hwoken := @WaitQueue.run_wakeOne (state.masked.withFlags
    (Function.update state.masked.locked mutex false) state.masked.daif) mutex
      tasks hqueue valid
  cases tasks with
  | nil =>
      have hnone : ((state.masked.withFlags (Function.update
          state.masked.locked mutex false) state.masked.daif).queues
            mutex).head = none := hqueue.head_eq
      simp [unlock, run_setLocked_bind, hnone]
      rfl
  | cons first rest =>
      have hsome : ((state.masked.withFlags (Function.update
          state.masked.locked mutex false) state.masked.daif).queues
            mutex).head = some first := hqueue.head_eq
      simp [unlock, run_setLocked_bind, hsome, run_bind_ok hwoken]
      rfl

theorem round_taken {history : History} {layout : Layout}
    {mutex : MutexRef} (consistent : Consistent history layout)
    (taken : history.state.locked mutex = true) {task : TaskRef}
    (runs : history.Runs task) {entry : Entry} {budget : Nat}
    {acquired : Bool} {after : State}
    (ended : (round mutex entry budget).run history.state =
      .ok (acquired, after)) :
    acquired = false ∧
      (∃ next, Consistent { history with
        state := after
        waiting := Function.update history.waiting mutex
          (history.waiting mutex ++ [task]) } next) ∧
      SameGlobals history.state after ∧
      KeepsAwake history.state after none := by
  have masked : Consistent { history with state := history.state.masked }
      layout :=
    consistent.withFlags history.state.locked history.state.masked.daif
  rw [run_round_taken taken, run_bind_eq_ok] at ended
  obtain ⟨_, middle, hblocked, hended⟩ := ended
  obtain ⟨need, expected, next, returns, hnext, same, keeps⟩ :=
    (blockCurrent_performs masked entry mutex ⟨task, runs⟩).advances
  obtain rfl := (Prod.mk.inj (returns.unique hblocked)).2
  have hsame := Prod.mk.inj (Except.ok.inj hended)
  obtain rfl := hsame.2
  refine ⟨hsame.1.symm, ⟨next, ?_⟩,
    ⟨same.idleTask, same.launchContext, same.locked, same.systemTicks⟩,
    ⟨keeps.awake⟩⟩
  have hcurrent : history.state.masked.currentTask = some task := runs.1
  simp only [Operation.record, hcurrent] at hnext
  exact hnext

theorem unlock_frees {history : History} {layout : Layout}
    {mutex : MutexRef} (consistent : Consistent history layout)
    {after : State}
    (ended : (unlock (some mutex)).run history.state = .ok ((), after)) :
    (∃ next, Consistent { history with
      state := after
      waiting := Function.update history.waiting mutex
        (history.waiting mutex).tail } next) ∧
      after.locked = Function.update history.state.locked mutex false ∧
      KeepsAwake history.state after none := by
  have hrun := run_unlock (consistent.wellFormed.waiting mutex)
    fun task hmem => consistent.wellFormed.valid_ring task
      (consistent.wellFormed.waiting_ring mutex task hmem)
  obtain rfl := (Prod.mk.inj (Except.ok.inj (ended.symm.trans hrun))).2
  have freed := consistent.withFlags
    (Function.update history.state.locked mutex false)
    history.state.masked.daif
  obtain ⟨same, keeps⟩ := WaitQueue.wakeOneEffect_same
    (history.state.withFlags (Function.update history.state.locked mutex
      false) history.state.masked.daif) mutex (layout.waiting mutex)
  have woken := freed.woken (WaitQueue.wakeOneEffect_wellFormed
    freed.wellFormed mutex) rfl rfl rfl same
  have hwaiting : (layout.withWaiting mutex
      (layout.waiting mutex).tail).waiting =
      Function.update history.waiting mutex (history.waiting mutex).tail := by
    unfold Layout.withWaiting
    rw [consistent.waiting]
  refine ⟨⟨layout.withWaiting mutex (layout.waiting mutex).tail, ?_⟩,
    same.locked, ⟨keeps.awake⟩⟩
  have restored := woken.withFlags (WaitQueue.wakeOneEffect
    (history.state.withFlags (Function.update history.state.locked mutex
      false) history.state.masked.daif) mutex (layout.waiting mutex)).locked
    history.state.daif
  rw [hwaiting] at restored
  exact restored

/-! The invariant. -/

structure Invariant (mutex : MutexRef) (protocol : Protocol) : Prop where
  consistent : ∃ layout, Consistent protocol.history layout
  exclusive : ∀ first second, protocol.phase first = .holding →
    protocol.phase second = .holding → first = second
  locked_iff : protocol.history.state.locked mutex = true ↔
    ∃ task, protocol.phase task = .holding
  live : ∀ task, protocol.phase task ≠ .outside →
    task ∈ protocol.history.live
  awake : ∀ task, protocol.phase task = .locking →
    ¬ Dormant (stateOf protocol.history.state task)
  /-- Inside `lock` a task waits on no other queue. -/
  queued : ∀ task queue, protocol.phase task = .locking →
    task ∈ protocol.history.waiting queue → queue = mutex
  waiting : ∀ task, task ∈ protocol.history.waiting mutex →
    protocol.phase task = .locking
  woken : ∀ task, task ∈ protocol.woken → protocol.phase task = .locking ∧
    task ∉ protocol.history.waiting mutex
  retried : protocol.history.state.locked mutex = false →
    protocol.history.waiting mutex ≠ [] → protocol.woken ≠ []

theorem call_preserves {mutex : MutexRef} {protocol : Protocol}
    {task : TaskRef} (invariant : Invariant mutex protocol)
    (runs : protocol.history.Runs task)
    (outside : protocol.phase task = .outside) :
    Invariant mutex { protocol with
      phase := Function.update protocol.phase task .locking } := by
  obtain ⟨layout, consistent⟩ := invariant.consistent
  have hother : ∀ other, other ≠ task →
      Function.update protocol.phase task .locking other =
        protocol.phase other :=
    fun other hne => Function.update_of_ne hne ..
  have hholding : ∀ other,
      Function.update protocol.phase task .locking other = .holding ↔
        protocol.phase other = .holding := by
    intro other
    by_cases heq : other = task
    · subst other
      simp [outside]
    · rw [hother other heq]
  have hlocking : ∀ other, protocol.phase other = .locking →
      Function.update protocol.phase task .locking other = .locking := by
    intro other hphase
    by_cases heq : other = task
    · subst other
      simp
    · rw [hother other heq]
      exact hphase
  refine ⟨invariant.consistent, ?_, ?_, ?_, ?_, ?_, ?_, ?_,
    invariant.retried⟩
  · intro first second hfirst hsecond
    exact invariant.exclusive first second ((hholding first).mp hfirst)
      ((hholding second).mp hsecond)
  · rw [invariant.locked_iff]
    exact exists_congr fun other => (hholding other).symm
  · intro other hphase
    by_cases heq : other = task
    · subst other
      exact runs.2
    · exact invariant.live other (by rwa [← hother other heq])
  · intro other hphase
    by_cases heq : other = task
    · subst other
      have hring := (consistent.live_iff task).mpr runs.2
      have hrunning :=
        (consistent.wellFormed.running_iff task hring).mpr runs.1
      rw [hrunning]
      simp [Dormant]
    · exact invariant.awake other (by rwa [← hother other heq])
  · intro other queue hphase hmem
    by_cases heq : other = task
    · subst other
      exact absurd hmem (consistent.running_not_waiting runs queue)
    · exact invariant.queued other queue (by rwa [← hother other heq]) hmem
  · exact fun other hmem => hlocking other (invariant.waiting other hmem)
  · intro other hmem
    obtain ⟨hphase, hfresh⟩ := invariant.woken other hmem
    exact ⟨hlocking other hphase, hfresh⟩

theorem acquire_preserves {mutex : MutexRef} {protocol : Protocol}
    {task : TaskRef} {entry : Entry} {budget : Nat} {after : State}
    (invariant : Invariant mutex protocol)
    (runs : protocol.history.Runs task)
    (locking : protocol.phase task = .locking)
    (ended : (round mutex entry budget).run protocol.history.state =
      .ok (true, after)) :
    Invariant mutex {
      history := { protocol.history with state := after }
      phase := Function.update protocol.phase task .holding
      woken := protocol.woken.filter (· ≠ task) } := by
  obtain ⟨layout, consistent⟩ := invariant.consistent
  have free : protocol.history.state.locked mutex = false := by
    by_contra htaken
    have hresult := (round_taken consistent (by simpa using htaken) runs
      ended).1
    cases hresult
  rw [run_round_free free] at ended
  obtain rfl := (Prod.mk.inj (Except.ok.inj ended)).2
  have nobody : ∀ other, protocol.phase other ≠ .holding := by
    intro other hphase
    have htaken := invariant.locked_iff.mpr ⟨other, hphase⟩
    rw [free] at htaken
    cases htaken
  have hother : ∀ other, other ≠ task →
      Function.update protocol.phase task .holding other =
        protocol.phase other :=
    fun other hne => Function.update_of_ne hne ..
  have honly : ∀ other,
      Function.update protocol.phase task .holding other = .holding →
        other = task := by
    intro other hphase
    by_contra hne
    rw [hother other hne] at hphase
    exact nobody other hphase
  have hne : ∀ other,
      Function.update protocol.phase task .holding other = .locking →
        other ≠ task ∧ protocol.phase other = .locking := by
    intro other hphase
    have hdistinct : other ≠ task := by
      rintro rfl
      rw [Function.update_self] at hphase
      cases hphase
    exact ⟨hdistinct, by rwa [← hother other hdistinct]⟩
  refine ⟨⟨layout, consistent.withFlags ..⟩, ?_, ?_, ?_, ?_, ?_, ?_, ?_, ?_⟩
  · intro first second hfirst hsecond
    rw [honly first hfirst, honly second hsecond]
  · simp only [State.withFlags, Function.update_self, true_iff]
    exact ⟨task, Function.update_self ..⟩
  · intro other hphase
    by_cases heq : other = task
    · subst other
      exact runs.2
    · exact invariant.live other (by rwa [← hother other heq])
  · exact fun other hphase => invariant.awake other (hne other hphase).2
  · exact fun other queue hphase =>
      invariant.queued other queue (hne other hphase).2
  · intro other hmem
    have hdistinct : other ≠ task := by
      rintro rfl
      exact consistent.running_not_waiting runs mutex hmem
    exact (hother other hdistinct).trans (invariant.waiting other hmem)
  · intro other hmem
    simp only [List.mem_filter, decide_eq_true_eq] at hmem
    obtain ⟨hphase, hfresh⟩ := invariant.woken other hmem.1
    exact ⟨(hother other hmem.2).trans hphase, hfresh⟩
  · intro hfree
    simp [State.withFlags] at hfree

theorem wait_preserves {mutex : MutexRef} {protocol : Protocol}
    {task : TaskRef} {entry : Entry} {budget : Nat} {after : State}
    (invariant : Invariant mutex protocol)
    (runs : protocol.history.Runs task)
    (locking : protocol.phase task = .locking)
    (ended : (round mutex entry budget).run protocol.history.state =
      .ok (false, after)) :
    Invariant mutex { protocol with
      history := { protocol.history with
        state := after
        waiting := Function.update protocol.history.waiting mutex
          (protocol.history.waiting mutex ++ [task]) }
      woken := protocol.woken.filter (· ≠ task) } := by
  obtain ⟨layout, consistent⟩ := invariant.consistent
  have taken : protocol.history.state.locked mutex = true := by
    by_contra hfree
    rw [run_round_free (by simpa using hfree)] at ended
    cases (Prod.mk.inj (Except.ok.inj ended)).1
  obtain ⟨_, hconsistent, same, keeps⟩ :=
    round_taken consistent taken runs ended
  have hwaiting : ∀ other queue, other ∈ Function.update
      protocol.history.waiting mutex
        (protocol.history.waiting mutex ++ [task]) queue →
      other ∈ protocol.history.waiting queue ∨
        other = task ∧ queue = mutex := by
    intro other queue hmem
    by_cases heq : queue = mutex
    · subst queue
      simpa using hmem
    · rw [Function.update_of_ne heq] at hmem
      exact .inl hmem
  refine ⟨hconsistent, invariant.exclusive, ?_, invariant.live, ?_, ?_, ?_,
    ?_, ?_⟩
  · rw [same.locked]
    exact invariant.locked_iff
  · exact fun other hphase hdormant => invariant.awake other hphase
      (keeps.awake other nofun hdormant)
  · intro other queue hphase hmem
    rcases hwaiting other queue hmem with hold | ⟨_, hqueue⟩
    · exact invariant.queued other queue hphase hold
    · exact hqueue
  · intro other hmem
    rcases hwaiting other mutex hmem with hold | ⟨rfl, _⟩
    · exact invariant.waiting other hold
    · exact locking
  · intro other hmem
    simp only [List.mem_filter, decide_eq_true_eq] at hmem
    obtain ⟨hphase, hfresh⟩ := invariant.woken other hmem.1
    refine ⟨hphase, ?_⟩
    intro hnow
    rcases hwaiting other mutex hnow with hold | ⟨heq, _⟩
    · exact hfresh hold
    · exact hmem.2 heq
  · intro hfree
    rw [same.locked, taken] at hfree
    cases hfree

theorem unlock_preserves {mutex : MutexRef} {protocol : Protocol}
    {task : TaskRef} {after : State} (invariant : Invariant mutex protocol)
    (holding : protocol.phase task = .holding)
    (ended : (unlock (some mutex)).run protocol.history.state =
      .ok ((), after)) :
    Invariant mutex {
      history := { protocol.history with
        state := after
        waiting := Function.update protocol.history.waiting mutex
          (protocol.history.waiting mutex).tail }
      phase := Function.update protocol.phase task .outside
      woken := protocol.woken ++
        (protocol.history.waiting mutex).head?.toList } := by
  obtain ⟨layout, consistent⟩ := invariant.consistent
  obtain ⟨hconsistent, hlocked, keeps⟩ := unlock_frees consistent ended
  have hnodup : (protocol.history.waiting mutex).Nodup := by
    rw [← consistent.waiting]
    exact (consistent.wellFormed.waiting mutex).linked.nodup
  have hother : ∀ other, other ≠ task →
      Function.update protocol.phase task .outside other =
        protocol.phase other :=
    fun other hne => Function.update_of_ne hne ..
  have hkept : ∀ other, protocol.phase other = .locking →
      Function.update protocol.phase task .outside other = .locking := by
    intro other hphase
    rw [hother other (by rintro rfl; rw [holding] at hphase; cases hphase)]
    exact hphase
  have hbefore : ∀ other value, value ≠ Phase.outside →
      Function.update protocol.phase task .outside other = value →
        other ≠ task ∧ protocol.phase other = value := by
    intro other value hvalue hphase
    have hdistinct : other ≠ task := by
      rintro rfl
      rw [Function.update_self] at hphase
      exact hvalue hphase.symm
    exact ⟨hdistinct, by rwa [← hother other hdistinct]⟩
  have hsubset : ∀ other queue, other ∈ Function.update
      protocol.history.waiting mutex (protocol.history.waiting mutex).tail
        queue → other ∈ protocol.history.waiting queue := by
    intro other queue hmem
    by_cases heq : queue = mutex
    · subst queue
      rw [Function.update_self] at hmem
      exact List.mem_of_mem_tail hmem
    · rwa [Function.update_of_ne heq] at hmem
  have nobody : ∀ other,
      Function.update protocol.phase task .outside other ≠ .holding := by
    intro other hphase
    obtain ⟨hne, hphase⟩ := hbefore other .holding (by simp) hphase
    exact hne (invariant.exclusive other task hphase holding)
  refine ⟨hconsistent, ?_, ?_, ?_, ?_, ?_, ?_, ?_, ?_⟩
  · exact fun first second hfirst => absurd hfirst (nobody first)
  · simp only [hlocked, Function.update_self, Bool.false_eq_true, false_iff]
    rintro ⟨other, hphase⟩
    exact nobody other hphase
  · intro other hphase
    exact invariant.live other
      (by rw [← (hbefore other _ hphase rfl).2] at hphase; exact hphase)
  · exact fun other hphase hdormant =>
      invariant.awake other (hbefore other .locking (by simp) hphase).2
        (keeps.awake other nofun hdormant)
  · exact fun other queue hphase hmem => invariant.queued other queue
      (hbefore other .locking (by simp) hphase).2 (hsubset other queue hmem)
  · exact fun other hmem =>
      hkept other (invariant.waiting other (hsubset other mutex hmem))
  · intro other hmem
    change _ ∧ other ∉ Function.update protocol.history.waiting mutex
      (protocol.history.waiting mutex).tail mutex
    rw [Function.update_self]
    rcases List.mem_append.mp hmem with hold | hnew
    · obtain ⟨hphase, hfresh⟩ := invariant.woken other hold
      exact ⟨hkept other hphase, fun hnow =>
        hfresh (List.mem_of_mem_tail hnow)⟩
    · cases hlist : protocol.history.waiting mutex with
      | nil => simp [hlist] at hnew
      | cons first rest =>
          obtain rfl : other = first := by simpa [hlist] using hnew
          rw [hlist] at hnodup
          exact ⟨hkept other (invariant.waiting other (by rw [hlist]; simp)),
            (List.nodup_cons.mp hnodup).1⟩
  · intro _ hnonempty
    cases hlist : protocol.history.waiting mutex with
    | nil => simp [hlist] at hnonempty
    | cons first rest => simp

/-- An operation changes the mutex's queue only by waking from it. -/
theorem record_waiting {mutex : MutexRef} {protocol : Protocol}
    {operation : Operation} (allowed : Allowed mutex protocol operation)
    (after : State) {task : TaskRef}
    (hmem : task ∈ (operation.record protocol.history after).waiting mutex) :
    task ∈ protocol.history.waiting mutex ∧
      ((protocol.history.waiting mutex).Nodup →
        task ∉ released mutex protocol.history operation) := by
  cases operation with
  | blockCurrent queue =>
      have hkept : ((Operation.blockCurrent queue).record protocol.history
          after).waiting mutex = protocol.history.waiting mutex := by
        simp only [Operation.record]
        split
        · rfl
        · exact Function.update_of_ne allowed.1.symm ..
      rw [hkept] at hmem
      exact ⟨hmem, by simp [released]⟩
  | wakeOne queue =>
      by_cases heq : queue = mutex
      · subst queue
        have htail : task ∈ (protocol.history.waiting mutex).tail := by
          simpa [Operation.record] using hmem
        refine ⟨List.mem_of_mem_tail htail, ?_⟩
        intro hnodup hreleased
        simp only [released, if_pos] at hreleased
        cases hlist : protocol.history.waiting mutex with
        | nil => simp [hlist] at htail
        | cons first rest =>
            rw [hlist] at hnodup htail
            obtain rfl : task = first := by simpa [hlist] using hreleased
            exact (List.nodup_cons.mp hnodup).1 htail
      · have hold : task ∈ protocol.history.waiting mutex := by
          simpa [Operation.record, Function.update_of_ne (Ne.symm heq)]
            using hmem
        exact ⟨hold, by simp [released, heq]⟩
  | wakeAll queue =>
      by_cases heq : queue = mutex
      · subst queue
        simp [Operation.record] at hmem
      · have hold : task ∈ protocol.history.waiting mutex := by
          simpa [Operation.record, Function.update_of_ne (Ne.symm heq)]
            using hmem
        exact ⟨hold, by simp [released, heq]⟩
  | terminateCurrent =>
      have hold : task ∈ protocol.history.waiting mutex := by
        simp only [Operation.record] at hmem
        split at hmem <;> exact hmem
      exact ⟨hold, by simp [released]⟩
  | addTask _ => exact ⟨hmem, by simp [released]⟩
  | start => exact ⟨hmem, by simp [released]⟩
  | yield => exact ⟨hmem, by simp [released]⟩
  | preempt _ => exact ⟨hmem, by simp [released]⟩
  | sleep _ => exact ⟨hmem, by simp [released]⟩
  | updateSleepingTasks => exact ⟨hmem, by simp [released]⟩

/-- A task inside `lock` joins no queue by another operation. -/
theorem record_queued {mutex : MutexRef} {protocol : Protocol}
    {operation : Operation} (allowed : Allowed mutex protocol operation)
    (issued : operation.Issued protocol.history) (after : State)
    {task : TaskRef} (locking : protocol.phase task = .locking)
    {queue : QueueRef}
    (hmem : task ∈ (operation.record protocol.history after).waiting queue) :
    task ∈ protocol.history.waiting queue := by
  have hupdate : ∀ changed tasks, task ∈ Function.update
      protocol.history.waiting changed tasks queue →
      (task ∈ tasks → task ∈ protocol.history.waiting changed) →
      task ∈ protocol.history.waiting queue := by
    intro changed tasks hnow hsub
    by_cases heq : queue = changed
    · subst queue
      rw [Function.update_self] at hnow
      exact hsub hnow
    · rwa [Function.update_of_ne heq] at hnow
  cases operation with
  | blockCurrent joined =>
      obtain ⟨current, runs⟩ := issued
      simp only [Operation.record, runs.1] at hmem
      refine hupdate joined _ hmem ?_
      intro hjoined
      rcases List.mem_append.mp hjoined with hold | hnew
      · exact hold
      · obtain rfl := List.mem_singleton.mp hnew
        exact absurd locking (allowed.2 task runs)
  | wakeOne joined => exact hupdate joined _ hmem List.mem_of_mem_tail
  | wakeAll joined => exact hupdate joined _ hmem (by simp)
  | terminateCurrent =>
      simp only [Operation.record] at hmem
      split at hmem <;> exact hmem
  | addTask _ => exact hmem
  | start => exact hmem
  | yield => exact hmem
  | preempt _ => exact hmem
  | sleep _ => exact hmem
  | updateSleepingTasks => exact hmem

theorem record_live {mutex : MutexRef} {protocol : Protocol}
    {operation : Operation} (allowed : Allowed mutex protocol operation)
    (issued : operation.Issued protocol.history) (after : State)
    {task : TaskRef} (uses : protocol.phase task ≠ .outside)
    (live : task ∈ protocol.history.live) :
    task ∈ (operation.record protocol.history after).live := by
  cases operation with
  | addTask _ => exact List.mem_cons_of_mem _ live
  | blockCurrent _ =>
      simp only [Operation.record]
      split <;> exact live
  | terminateCurrent =>
      obtain ⟨current, runs⟩ := issued
      simp only [Operation.record, runs.1]
      refine (List.mem_erase_of_ne ?_).mpr live
      rintro rfl
      exact uses (allowed task runs)
  | start => exact live
  | yield => exact live
  | preempt _ => exact live
  | sleep _ => exact live
  | updateSleepingTasks => exact live
  | wakeOne _ => exact live
  | wakeAll _ => exact live

theorem sleeper_not_locking {mutex : MutexRef} {protocol : Protocol}
    {operation : Operation} (allowed : Allowed mutex protocol operation)
    (issued : operation.Issued protocol.history) {task : TaskRef}
    (locking : protocol.phase task = .locking) :
    operation.sleeper protocol.history ≠ some task := by
  intro hsleeper
  cases operation with
  | sleep _ =>
      obtain ⟨current, runs⟩ := issued
      obtain rfl : current = task :=
        Option.some.inj (runs.1.symm.trans hsleeper)
      exact allowed current runs locking
  | _ => cases hsleeper

theorem released_waiting {mutex : MutexRef} {history : History}
    {operation : Operation} {task : TaskRef}
    (hmem : task ∈ released mutex history operation) :
    task ∈ history.waiting mutex := by
  cases operation with
  | wakeOne queue =>
      simp only [released] at hmem
      split at hmem
      · exact List.mem_of_head? (by simpa using hmem)
      · simp at hmem
  | wakeAll queue =>
      simp only [released] at hmem
      split at hmem
      · exact hmem
      · simp at hmem
  | _ => simp [released] at hmem

theorem other_preserves {mutex : MutexRef} {protocol : Protocol}
    {operation : Operation} {entry : Entry} {budget : Nat} {after : State}
    (invariant : Invariant mutex protocol)
    (issued : operation.Issued protocol.history)
    (fresh : operation.AddsFresh protocol.history)
    (allowed : Allowed mutex protocol operation)
    (ended : (operation.program entry budget).run protocol.history.state =
      .ok ((), after)) :
    Invariant mutex { protocol with
      history := operation.record protocol.history after
      woken := protocol.woken ++
        released mutex protocol.history operation } := by
  obtain ⟨layout, consistent⟩ := invariant.consistent
  obtain ⟨need, expected, next, returns, hnext, same, keeps⟩ :=
    operation_advances consistent issued fresh entry
  obtain rfl := (Prod.mk.inj (returns.unique ended)).2
  have hstate : (operation.record protocol.history after).state = after := by
    cases operation <;> simp only [Operation.record] <;> (try split) <;> rfl
  have hnodup : (protocol.history.waiting mutex).Nodup := by
    rw [← consistent.waiting]
    exact (consistent.wellFormed.waiting mutex).linked.nodup
  refine ⟨⟨next, hnext⟩, invariant.exclusive, ?_, ?_, ?_, ?_, ?_, ?_, ?_⟩
  · rw [hstate, same.locked]
    exact invariant.locked_iff
  · exact fun task uses =>
      record_live allowed issued after uses (invariant.live task uses)
  · intro task locking hdormant
    rw [hstate] at hdormant
    exact invariant.awake task locking (keeps.awake task
      (sleeper_not_locking allowed issued locking) hdormant)
  · exact fun task queue locking hmem => invariant.queued task queue locking
      (record_queued allowed issued after locking hmem)
  · exact fun task hmem =>
      invariant.waiting task (record_waiting allowed after hmem).1
  · intro task hmem
    rcases List.mem_append.mp hmem with hold | hnew
    · obtain ⟨locking, hfresh⟩ := invariant.woken task hold
      exact ⟨locking, fun hnow =>
        hfresh (record_waiting allowed after hnow).1⟩
    · exact ⟨invariant.waiting task (released_waiting hnew), fun hnow =>
        (record_waiting allowed after hnow).2 hnodup hnew⟩
  · intro hfree hnonempty
    rw [hstate, same.locked] at hfree
    obtain ⟨task, hmem⟩ := List.exists_mem_of_ne_nil _ hnonempty
    have hbefore := (record_waiting allowed after hmem).1
    have hwoken := invariant.retried hfree (List.ne_nil_of_mem hbefore)
    simp [hwoken]

theorem initial_invariant {mutex : MutexRef} {protocol : Protocol}
    (initial : (protocols mutex).initial protocol) :
    Invariant mutex protocol := by
  obtain ⟨hruns, hfree, houtside, hwoken⟩ := initial
  have consistent := initial_consistent hruns
  have hempty : ∀ queue, protocol.history.waiting queue = [] := by
    intro queue
    rw [← consistent.waiting]
    rfl
  refine ⟨⟨_, consistent⟩, ?_, ?_, ?_, ?_, ?_, ?_, ?_, ?_⟩
  · simp [houtside]
  · simp [hfree, houtside]
  · exact fun task uses => absurd (houtside task) uses
  · simp [houtside]
  · simp [houtside]
  · simp [hempty]
  · simp [hwoken]
  · simp [hempty]

theorem reachable_invariant {mutex : MutexRef} {protocol : Protocol}
    (reachable : (protocols mutex).Reachable System.unguarded protocol) :
    Invariant mutex protocol := by
  apply reachable.holds
  · exact fun _ => initial_invariant
  · intro before event after invariant _ step
    cases step with
    | call runs outside => exact call_preserves invariant runs outside
    | acquire runs locking ended =>
        exact acquire_preserves invariant runs locking ended
    | wait runs locking ended =>
        exact wait_preserves invariant runs locking ended
    | unlock runs holding ended =>
        exact unlock_preserves invariant holding ended
    | other issued fresh allowed ended =>
        exact other_preserves invariant issued fresh allowed ended

end Mutex

end Planetoid.Task
