import Planetoid.Task.MutexProtocol

namespace Planetoid.Task

open Planetoid Program Links Arch

/-! Mutual exclusion, and no lost wakeups. -/

namespace Mutex

/-! Three tasks that contend for the mutex 0. -/

def endOf {α : Type} (start : State) : Except Fault (α × State) → State
  | .ok (_, after) => after
  | .error _ => start

def afterRound (protocol : Protocol) : State :=
  endOf protocol.history.state
    ((round 0 bootEntry 6).run protocol.history.state)

def performOther (protocol : Protocol) (operation : Operation) : Protocol :=
  { protocol with
    history := operation.record protocol.history
      (endOf protocol.history.state
        ((operation.program bootEntry 6).run protocol.history.state))
    woken := protocol.woken ++ released 0 protocol.history operation }

def performCall (protocol : Protocol) (task : TaskRef) : Protocol :=
  { protocol with phase := Function.update protocol.phase task .locking }

def performWait (protocol : Protocol) (task : TaskRef) : Protocol :=
  { protocol with
    history := { protocol.history with
      state := afterRound protocol
      waiting := Function.update protocol.history.waiting 0
        (protocol.history.waiting 0 ++ [task]) }
    woken := protocol.woken.filter (· ≠ task) }

/-- The three tasks are added and the first of them runs. -/
def launched : Protocol :=
  performOther (performOther (performOther (performOther
    { history := bootHistory, phase := fun _ => .outside, woken := [] }
    (.addTask 2)) (.addTask 3)) (.addTask 4)) .start

abbrev Reached (protocol : Protocol) : Prop :=
  (protocols 0).Reachable System.unguarded protocol

theorem reached_other {protocol : Protocol} (operation : Operation)
    (reached : Reached protocol)
    (issued : operation.Issued protocol.history)
    (fresh : operation.AddsFresh protocol.history)
    (allowed : Allowed 0 protocol operation) {after : State}
    (ended : (operation.program bootEntry 6).run protocol.history.state =
      .ok ((), after)) : Reached (performOther protocol operation) := by
  have hend : (operation.program bootEntry 6).run protocol.history.state =
      .ok ((), endOf protocol.history.state
        ((operation.program bootEntry 6).run protocol.history.state)) := by
    rw [ended]
    rfl
  exact .step reached trivial (.other issued fresh allowed hend)

theorem reached_call {protocol : Protocol} {task : TaskRef}
    (reached : Reached protocol) (runs : protocol.history.Runs task)
    (outside : protocol.phase task = .outside) :
    Reached (performCall protocol task) :=
  .step reached trivial (.call runs outside)

theorem reached_wait {protocol : Protocol} {task : TaskRef}
    (reached : Reached protocol) (runs : protocol.history.Runs task)
    (locking : protocol.phase task = .locking) {after : State}
    (ended : (round 0 bootEntry 6).run protocol.history.state =
      .ok (false, after)) : Reached (performWait protocol task) := by
  have hend : (round 0 bootEntry 6).run protocol.history.state =
      .ok (false, afterRound protocol) := by
    unfold afterRound
    rw [ended]
    rfl
  exact .step reached trivial (.wait runs locking hend)

theorem launched_reached : Reached launched := by
  have boot : Reached
      { history := bootHistory, phase := fun _ => .outside, woken := [] } :=
    .initial ⟨bootHistory_initial, rfl, fun _ => rfl, rfl⟩
  have first := reached_other (.addTask 2) boot (List.not_mem_nil : 2 ∉ [])
    ⟨List.not_mem_nil, by decide⟩ trivial rfl
  have second := reached_other (.addTask 3) first (by decide : 3 ∉ [2])
    ⟨List.not_mem_nil, by decide⟩ trivial rfl
  have third := reached_other (.addTask 4) second (by decide : 4 ∉ [3, 2])
    ⟨List.not_mem_nil, by decide⟩ trivial rfl
  exact reached_other .start third (rfl : false = false) trivial trivial
    rfl

def held : Protocol :=
  performOther {
    history := { launched.history with
      state := afterRound (performCall launched 2) }
    phase := Function.update (performCall launched 2).phase 2 .holding
    woken := [] } .yield

theorem held_reached : Reached held := by
  have called := reached_call launched_reached
    ⟨rfl, (by decide : 2 ∈ [4, 3, 2])⟩ rfl
  have acquired : Reached {
      history := { launched.history with
        state := afterRound (performCall launched 2) }
      phase := Function.update (performCall launched 2).phase 2 .holding
      woken := [] } :=
    .step called trivial (@Step.acquire _ _ 2 bootEntry 6 _
      ⟨rfl, (by decide : 2 ∈ [4, 3, 2])⟩ rfl rfl)
  refine reached_other .yield acquired
    ⟨2, rfl, (by decide : 2 ∈ [4, 3, 2])⟩ trivial ?_ rfl
  intro task runs
  obtain rfl : 2 = task := Option.some.inj runs.1
  decide

def contended : Protocol :=
  performWait (performCall (performWait (performCall held 4) 4) 3) 3

theorem contended_reached : Reached contended := by
  have four := reached_wait (reached_call held_reached
    ⟨rfl, (by decide : 4 ∈ [4, 3, 2])⟩ rfl)
    ⟨rfl, (by decide : 4 ∈ [4, 3, 2])⟩ rfl rfl
  exact reached_wait (reached_call four ⟨rfl, (by decide : 3 ∈ [4, 3, 2])⟩
    rfl) ⟨rfl, (by decide : 3 ∈ [4, 3, 2])⟩ rfl rfl

def unlocked : Protocol where
  history := { contended.history with
    state := endOf contended.history.state
      ((unlock (some 0)).run contended.history.state)
    waiting := Function.update contended.history.waiting 0
      (contended.history.waiting 0).tail }
  phase := Function.update contended.phase 2 .outside
  woken := contended.woken ++ (contended.history.waiting 0).head?.toList

theorem unlocked_reached : Reached unlocked :=
  .step contended_reached trivial (.unlock
    ⟨rfl, (by decide : 2 ∈ [4, 3, 2])⟩ rfl rfl)

/-- At most one task holds the mutex, and the flag says whether one does. -/
theorem lock_excludes {mutex : MutexRef} {protocol : Protocol}
    (reachable : (protocols mutex).Reachable System.unguarded protocol) :
    (∀ first second, protocol.phase first = .holding →
      protocol.phase second = .holding → first = second) ∧
    (protocol.history.state.locked mutex = true ↔
      ∃ task, protocol.phase task = .holding) :=
  ⟨(reachable_invariant reachable).exclusive,
    (reachable_invariant reachable).locked_iff⟩

theorem lock_excludes_contended :
    (∀ first second, contended.phase first = .holding →
      contended.phase second = .holding → first = second) ∧
    (contended.history.state.locked 0 = true ↔
      ∃ task, contended.phase task = .holding) :=
  lock_excludes contended_reached

/-- A task inside `lock` that is on no queue is ready or running. -/
theorem Invariant.wakeful {mutex : MutexRef} {protocol : Protocol}
    (invariant : Invariant mutex protocol) {task : TaskRef}
    (locking : protocol.phase task = .locking)
    (absent : task ∉ protocol.history.waiting mutex) :
    stateOf protocol.history.state task = .ready ∨
      stateOf protocol.history.state task = .running := by
  obtain ⟨layout, consistent⟩ := invariant.consistent
  have hlive := invariant.live task (by rw [locking]; simp)
  have hring := (consistent.live_iff task).mpr hlive
  have hawake := invariant.awake task locking
  have hunblocked : stateOf protocol.history.state task ≠ .blocked := by
    intro hblocked
    obtain ⟨queue, hmem⟩ :=
      (consistent.wellFormed.blocked_iff task hring).mp hblocked
    rw [consistent.waiting] at hmem
    obtain rfl := invariant.queued task queue locking hmem
    exact absent hmem
  cases hstate : stateOf protocol.history.state task with
  | ready => exact .inl rfl
  | running => exact .inr rfl
  | blocked => exact absurd hstate hunblocked
  | sleeping => exact absurd (.inl hstate) hawake
  | terminated => exact absurd (.inr hstate) hawake

/-- When the mutex is free and tasks wait on it, a task that was woken from
its queue is about to test the flag. -/
theorem no_lost_wakeup {mutex : MutexRef} {protocol : Protocol}
    (reachable : (protocols mutex).Reachable System.unguarded protocol)
    (free : protocol.history.state.locked mutex = false)
    (waits : (protocol.history.state.queues mutex).head ≠ none) :
    ∃ task, task ∈ protocol.woken ∧ protocol.phase task = .locking ∧
      (stateOf protocol.history.state task = .ready ∨
        stateOf protocol.history.state task = .running) := by
  have invariant := reachable_invariant reachable
  obtain ⟨layout, consistent⟩ := invariant.consistent
  have hnonempty : protocol.history.waiting mutex ≠ [] := by
    intro hempty
    rw [← consistent.waiting] at hempty
    have hhead := (consistent.wellFormed.waiting mutex).head_eq
    rw [hempty] at hhead
    exact waits hhead
  obtain ⟨task, hwoken⟩ :=
    List.exists_mem_of_ne_nil _ (invariant.retried free hnonempty)
  obtain ⟨locking, absent⟩ := invariant.woken task hwoken
  exact ⟨task, hwoken, locking, invariant.wakeful locking absent⟩

theorem no_lost_wakeup_unlocked :
    ∃ task, task ∈ unlocked.woken ∧ unlocked.phase task = .locking ∧
      (stateOf unlocked.history.state task = .ready ∨
        stateOf unlocked.history.state task = .running) := by
  apply no_lost_wakeup unlocked_reached rfl
  change some 3 ≠ none
  simp

end Mutex

end Planetoid.Task
