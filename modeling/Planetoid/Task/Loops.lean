import Planetoid.Base.Links
import Planetoid.Task.Mutex

namespace Planetoid.Task

open Planetoid Program Links

/-! The loops that walk the ring of tasks. -/

def nextOf (state : State) (task : TaskRef) : Option TaskRef :=
  (state.tasks task).nextTask

def waitOf (state : State) (task : TaskRef) : Option TaskRef :=
  (state.tasks task).waitNext

def cleanupOf (state : State) (task : TaskRef) : Option TaskRef :=
  (state.tasks task).cleanupNext

abbrev stateOf (state : State) (task : TaskRef) : EState :=
  (state.tasks task).state

def isReady (state : State) (task : TaskRef) : Bool :=
  decide (stateOf state task = .ready)

theorem isReady_iff {state : State} {task : TaskRef} :
    isReady state task = true ↔ (state.tasks task).state = .ready := by
  simp [isReady]

theorem isReady_eq_false {state : State} {task : TaskRef} :
    isReady state task = false ↔ (state.tasks task).state ≠ .ready := by
  simp [isReady]

def firstReady (state : State) (tasks : List TaskRef) (stop : TaskRef) :
    TaskRef :=
  (tasks.find? (isReady state)).getD stop

variable {state : State} {start : Option TaskRef} {stop : TaskRef}
  {nodes : List TaskRef}

namespace Scheduler

theorem scanReady_returns {stopping : Sched (Option TaskRef)}
    (hstopping : stopping.run state = .ok (some stop, state))
    (segment : Segment (nextOf state) start nodes (some stop))
    (valid : ∀ task, task ∈ nodes → state.Valid task)
    (fresh : stop ∉ nodes) :
    Returns .budgetExhausted (fun budget => scanReady budget stopping start)
      state nodes.length (some (firstReady state nodes stop), state) := by
  induction nodes generalizing start with
  | nil =>
      obtain rfl : start = some stop := segment
      apply returns_whileLoop_leave
      simp [run_bind_ok hstopping, firstReady]
  | cons task rest ih =>
      obtain ⟨rfl, tail⟩ := segment
      have hne : task ≠ stop := by
        rintro rfl
        exact fresh (by simp)
      have hvalid := valid task (by simp)
      by_cases hready : (state.tasks task).state = .ready
      · have hfirst : firstReady state (task :: rest) stop = task := by
          simp [firstReady, isReady, stateOf, hready]
        rw [hfirst]
        apply returns_whileLoop_leave
        simp [run_bind_ok hstopping, hne, hvalid, hready]
      · have hfirst : firstReady state (task :: rest) stop =
            firstReady state rest stop := by
          simp [firstReady, isReady, stateOf, hready]
        rw [hfirst]
        refine returns_whileLoop_next ?_ (ih tail
          (fun node hnode => valid node (by simp [hnode])) (by simp_all))
        simp [run_bind_ok hstopping, hne, hvalid, hready, nextOf]

theorem ringWalk_returns {first : TaskRef}
    {body : Option TaskRef → Sched (Option TaskRef ⊕ Option TaskRef)}
    (hfound : ∀ task, state.Valid task → isReady state task = true →
      (body (some task)).run state = .ok (.inr (some task), state))
    (hlast : ∀ task, state.Valid task → isReady state task = false →
      nextOf state task = some first →
      (body (some task)).run state = .ok (.inr none, state))
    (hnext : ∀ task following, state.Valid task →
      isReady state task = false → nextOf state task = some following →
      following ≠ first →
      (body (some task)).run state = .ok (.inl (some following), state))
    {task : TaskRef}
    (segment : Segment (nextOf state) (some task) (task :: nodes)
      (some first))
    (fresh : first ∉ nodes)
    (valid : ∀ node, node ∈ task :: nodes → state.Valid node) :
    Returns .budgetExhausted
      (fun budget => whileLoop .budgetExhausted body budget (some task))
      state nodes.length ((task :: nodes).find? (isReady state), state) := by
  induction nodes generalizing task with
  | nil =>
      apply returns_whileLoop_leave
      cases hready : isReady state task with
      | true =>
          rw [hfound task (valid task (by simp)) hready]
          simp [hready]
      | false =>
          rw [hlast task (valid task (by simp)) hready segment.2]
          simp [hready]
  | cons following rest ih =>
      have hne : following ≠ first := by
        rintro rfl
        exact fresh (by simp)
      cases hready : isReady state task with
      | true =>
          apply returns_whileLoop_leave
          rw [hfound task (valid task (by simp)) hready]
          simp [hready]
      | false =>
          have hfind : (task :: following :: rest).find? (isReady state) =
              (following :: rest).find? (isReady state) := by
            simp [hready]
          rw [hfind]
          exact returns_whileLoop_next
            (hnext task following (valid task (by simp)) hready
              segment.2.1 hne)
            (ih ⟨rfl, segment.2.2⟩ (by simp_all)
              (fun node hnode => valid node (by simp_all)))

theorem scanRing_returns {first : TaskRef}
    (ring : Ring (nextOf state) (some first) (first :: nodes))
    (nodup : (first :: nodes).Nodup)
    (valid : ∀ task, task ∈ first :: nodes → state.Valid task) :
    Returns .budgetExhausted (fun budget => scanRing budget first) state
      nodes.length ((first :: nodes).find? (isReady state), state) := by
  refine ringWalk_returns ?_ ?_ ?_ ring.closed
    (List.nodup_cons.mp nodup).1 valid
  · intro task hvalid hready
    simp [hvalid, isReady_iff.mp hready]
  · intro task hvalid hready hnext
    have hlink : (state.tasks task).nextTask = some first := hnext
    simp [hvalid, isReady_eq_false.mp hready, hlink]
  · intro task following hvalid hready hnext hne
    have hlink : (state.tasks task).nextTask = some following := hnext
    simp [hvalid, isReady_eq_false.mp hready, hlink, hne]

theorem scanFromIdle_returns
    (ring : Ring (nextOf state) state.taskList nodes)
    (nodup : nodes.Nodup)
    (valid : ∀ task, task ∈ nodes → state.Valid task) :
    Returns .budgetExhausted
      (fun budget => scanFromIdle budget state.taskList) state
      nodes.length (nodes.find? (isReady state), state) := by
  cases nodes with
  | nil =>
      have hnone : state.taskList = none := ring.head_eq
      rw [hnone]
      apply returns_whileLoop_leave
      rfl
  | cons first rest =>
      have hhead : state.taskList = some first := ring.head_eq
      rw [hhead] at ring ⊢
      refine (ringWalk_returns ?_ ?_ ?_ ring.closed
        (List.nodup_cons.mp nodup).1 valid).weaken (by simp)
      · intro task hvalid hready
        simp [hvalid, isReady_iff.mp hready]
      · intro task hvalid hready hnext
        have hlink : (state.tasks task).nextTask = some first := hnext
        simp [hvalid, isReady_eq_false.mp hready, hlink, hhead]
      · intro task following hvalid hready hnext hne
        have hlink : (state.tasks task).nextTask = some following := hnext
        simp [hvalid, isReady_eq_false.mp hready, hlink, hne, hhead]

theorem findPrevious_returns {task first : TaskRef}
    (segment : Segment (nextOf state) (some first) (first :: nodes)
      (some task))
    (fresh : task ∉ nodes)
    (valid : ∀ node, node ∈ first :: nodes → state.Valid node) :
    Returns .budgetExhausted (fun budget => findPrevious budget task first)
      state nodes.length
      ((first :: nodes).getLast (by simp), state) := by
  induction nodes generalizing first with
  | nil =>
      have hlast : (state.tasks first).nextTask = some task := segment.2
      apply returns_whileLoop_leave
      simp [valid first (by simp), hlast]
  | cons following rest ih =>
      have hnext : (state.tasks first).nextTask = some following :=
        segment.2.1
      have hne : following ≠ task := by
        rintro rfl
        exact fresh (by simp)
      refine returns_whileLoop_next ?_ (ih ⟨rfl, segment.2.2⟩
        (by simp_all) (fun node hnode => valid node (by simp_all)))
      simp [valid first (by simp), hnext, hne]

def wakeSleeper (tick : Nat) (state : State) (task : TaskRef) : State :=
  if stateOf state task = .sleeping ∧ (state.tasks task).wakeTick ≤ tick then
    state.setTask task fun fields => { fields with state := .ready }
  else state

@[simp] theorem wakeSleeper_taskList (tick : Nat) (task : TaskRef) :
    (wakeSleeper tick state task).taskList = state.taskList := by
  unfold wakeSleeper
  split <;> rfl

@[simp] theorem wakeSleeper_systemTicks (tick : Nat) (task : TaskRef) :
    (wakeSleeper tick state task).systemTicks = state.systemTicks := by
  unfold wakeSleeper
  split <;> rfl

@[simp] theorem wakeSleeper_valid (tick : Nat) (task other : TaskRef) :
    (wakeSleeper tick state task).Valid other ↔ state.Valid other := by
  unfold wakeSleeper
  split <;> rfl

@[simp] theorem wakeSleeper_nextOf (tick : Nat) (task : TaskRef) :
    nextOf (wakeSleeper tick state task) = nextOf state := by
  unfold wakeSleeper
  split
  · funext other
    by_cases heq : other = task
    · subst other
      simp [nextOf]
    · simp [nextOf, State.setTask_of_ne _ _ _ _ heq]
  · rfl

theorem run_wakeExpired {task : TaskRef} (hvalid : state.Valid task)
    (tick : Nat) :
    (wakeExpired tick task).run state =
      .ok ((), wakeSleeper tick state task) := by
  unfold wakeExpired wakeSleeper setState
  by_cases hsleeping : stateOf state task = .sleeping
  · by_cases htick : (state.tasks task).wakeTick ≤ tick
    · simp [hvalid, hsleeping, htick, run_store]
    · simp [hvalid, hsleeping, htick]
  · simp [hvalid, hsleeping]

theorem wakeLoop_returns {first task : TaskRef} {tick : Nat}
    (hlist : state.taskList = some first)
    (segment : Segment (nextOf state) (some task) (task :: nodes)
      (some first))
    (fresh : first ∉ nodes)
    (valid : ∀ node, node ∈ task :: nodes → state.Valid node) :
    Returns .budgetExhausted (fun budget => wakeLoop budget tick task) state
      nodes.length ((), (task :: nodes).foldl (wakeSleeper tick) state) := by
  induction nodes generalizing state task with
  | nil =>
      have hvalid := valid task (by simp)
      have hnext : nextOf (wakeSleeper tick state task) task = some first := by
        rw [wakeSleeper_nextOf]
        exact segment.2
      unfold nextOf at hnext
      apply returns_whileLoop_leave
      simp [run_bind_ok (run_wakeExpired hvalid tick), hvalid, hnext, hlist]
  | cons following rest ih =>
      have hvalid := valid task (by simp)
      have hnext : nextOf (wakeSleeper tick state task) task =
          some following := by
        rw [wakeSleeper_nextOf]
        exact segment.2.1
      unfold nextOf at hnext
      have hne : following ≠ first := by
        rintro rfl
        exact fresh (by simp)
      refine returns_whileLoop_next ?_
        (@ih (wakeSleeper tick state task) following
          (by simpa using hlist) ?_ (by simp_all) ?_)
      · simp [run_bind_ok (run_wakeExpired hvalid tick), hvalid, hnext,
          hlist, hne]
      · rw [wakeSleeper_nextOf]
        exact ⟨rfl, segment.2.2⟩
      · intro node hnode
        rw [wakeSleeper_valid]
        exact valid node (by simp_all)

theorem updateSleepingTasks_returns
    (ring : Ring (nextOf state) state.taskList nodes) (nodup : nodes.Nodup)
    (valid : ∀ task, task ∈ nodes → state.Valid task) :
    Returns .budgetExhausted updateSleepingTasks state nodes.length
      ((), nodes.foldl (wakeSleeper state.systemTicks) state) := by
  cases nodes with
  | nil =>
      have hnone : state.taskList = none := ring.head_eq
      intro budget
      exact .inl (by simp [updateSleepingTasks, hnone])
  | cons first rest =>
      have hhead : state.taskList = some first := ring.head_eq
      have hloop : Returns .budgetExhausted
          (fun budget => wakeLoop budget state.systemTicks first) state
          rest.length
          ((), (first :: rest).foldl (wakeSleeper state.systemTicks) state) :=
        wakeLoop_returns hhead (by simpa [hhead] using ring.closed)
          (List.nodup_cons.mp nodup).1 valid
      refine (hloop.of_run_eq ?_).weaken (by simp)
      intro budget
      simp [updateSleepingTasks, Timer.getTicks, hhead]

end Scheduler

end Planetoid.Task
