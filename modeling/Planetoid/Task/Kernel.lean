import Planetoid.Task.HeapTasks
import Planetoid.Task.Reclamation

namespace Planetoid.Task

open Planetoid Program Memory KernelHeapAllocator Arch

/-! The machine on the heap that holds its tasks. -/

/-- The machine and the heap, with the addresses of the allocations of the
tasks. -/
structure Kernel where
  machine : Machine
  heap : HeapRun
  made : List TaskRef
  place : Freed → Nat
  /-- What an interrupt still has to give to `kfree`. -/
  owed : List Freed
  clients : List Nat

inductive KernelEvent where
  | machine (event : Event)
  | cleanup
  | create (task : TaskRef)
  | heap (event : HeapEvent)

namespace Kernel

def base (kernel : Kernel) (task : TaskRef) : Nat :=
  (kernel.machine.history.state.tasks task).stackBase

/-- The allocations of the tasks that were not given to `kfree`. -/
def held (kernel : Kernel) : List Freed :=
  (kernel.made.flatMap (allocations kernel.base)).filter
      (fun allocation =>
        decide (allocation ∉ kernel.machine.history.state.kfreed)) ++
    kernel.owed

def placed (kernel : Kernel) (task : TaskRef) (address stack : Nat) :
    Freed → Nat :=
  Function.update (Function.update kernel.place (.state task) address)
    (.stack (kernel.base task)) stack

end Kernel

section

variable {platform : Platform} (image : KernelImage platform) (map : CodeMap)

/-- A step of the machine may leave allocations that `cleanup_terminated_task`
gives to `kfree`, one after the other, before anything else happens. A call of
the heap by a thread is one step; it ends before the next interrupt. -/
inductive KernelStep : Kernel → KernelEvent → Kernel → Prop
  | machine {kernel : Kernel} {event : Event} {after : Machine}
      {freed : List Freed} (settled : kernel.owed = [])
      (step : Machine.Step map kernel.machine event after)
      (made : ∀ task, event = .add task → task ∈ kernel.made)
      (frees : after.history.state.kfreed =
        freed.reverse ++ kernel.machine.history.state.kfreed) :
      KernelStep kernel (.machine event)
        { kernel with machine := after, owed := freed }
  | freeStack {kernel : Kernel} {task : TaskRef} {rest : List Freed}
      {budget stack : Nat} {heap : HeapState}
      (owes : kernel.owed = .stack (kernel.base task) :: .state task :: rest)
      (reads : HasStackBase image kernel.heap.heap (kernel.place (.state task))
        stack)
      (h : (kfree image budget stack).run kernel.heap.heap = .ok ((), heap)) :
      KernelStep kernel .cleanup { kernel with
        heap := ⟨heap, kernel.heap.live.erase stack⟩
        owed := .state task :: rest }
  | freeTask {kernel : Kernel} {task : TaskRef} {rest : List Freed}
      {budget : Nat} {heap : HeapState}
      (owes : kernel.owed = .state task :: rest)
      (h : (kfree image budget (kernel.place (.state task))).run
        kernel.heap.heap = .ok ((), heap)) :
      KernelStep kernel .cleanup { kernel with
        heap := ⟨heap, kernel.heap.live.erase (kernel.place (.state task))⟩
        owed := rest }
  | create {kernel : Kernel} {task : TaskRef}
      {budget stackSize address stack : Nat} {heap : HeapState}
      (settled : kernel.owed = []) (fresh : task ∉ kernel.made)
      (size : stackSize < 2 ^ 64)
      (h : (createTask image map.trampoline budget (map.entry task)
        stackSize).run kernel.heap.heap = .ok (address, heap))
      (served : address ≠ 0) (base : HasStackBase image heap address stack) :
      KernelStep kernel (.create task) { kernel with
        heap := ⟨heap, stack :: address :: kernel.heap.live⟩
        made := task :: kernel.made
        place := kernel.placed task address stack }
  | kmalloc {kernel : Kernel} {heap : HeapState} {budget size result : Nat}
      (settled : kernel.owed = [])
      (h : (kmalloc image budget size).run kernel.heap.heap =
        .ok (result, heap)) :
      KernelStep kernel (.heap (.kmalloc size)) { kernel with
        heap := ⟨heap, if result = 0 then kernel.heap.live
          else result :: kernel.heap.live⟩
        clients := if result = 0 then kernel.clients
          else result :: kernel.clients }
  | kfree {kernel : Kernel} {heap : HeapState} {budget pointer : Nat}
      (settled : kernel.owed = []) (own : pointer ∈ kernel.clients)
      (h : (kfree image budget pointer).run kernel.heap.heap =
        .ok ((), heap)) :
      KernelStep kernel (.heap (.kfree pointer)) { kernel with
        heap := ⟨heap, kernel.heap.live.erase pointer⟩
        clients := kernel.clients.erase pointer }
  -- also a store of the scheduler to a `TaskState`
  | store {kernel : Kernel} {heap : HeapState} {pointer address : Nat}
      {byte : BitVec 8} (live : pointer ∈ kernel.heap.live)
      (inside : InPayload image kernel.heap.heap pointer address)
      (h : (storeByte image address byte).run kernel.heap.heap =
        .ok ((), heap)) :
      KernelStep kernel (.heap (.store address byte))
        { kernel with heap := ⟨heap, kernel.heap.live⟩ }

structure Kernel.Initial (start : HeapState) (kernel : Kernel) : Prop where
  machine : kernel.machine.Initial map
  tasks : ∃ launch idle budget launchAddress idleAddress launchStack idleStack
      heap, kernel.machine.history.state.launchContext = some launch ∧
    kernel.machine.history.state.idleTask = some idle ∧
    (initTasks image map.trampoline budget (map.entry idle)).run start =
      .ok ((launchAddress, idleAddress), heap) ∧
    launchAddress ≠ 0 ∧ idleAddress ≠ 0 ∧
    HasStackBase image heap launchAddress launchStack ∧
    HasStackBase image heap idleAddress idleStack ∧
    kernel.heap =
      ⟨heap, [idleStack, idleAddress, launchStack, launchAddress]⟩ ∧
    kernel.made = [idle, launch] ∧
    kernel.place (.state launch) = launchAddress ∧
    kernel.place (.stack (kernel.base launch)) = launchStack ∧
    kernel.place (.state idle) = idleAddress ∧
    kernel.place (.stack (kernel.base idle)) = idleStack
  settled : kernel.owed = []
  clients : kernel.clients = []

def kernels (start : HeapState) : System Kernel KernelEvent where
  initial := Kernel.Initial image map start
  step := KernelStep image map

/-- The interrupts come as for `reclaims_of_reachable`, no block of the list
that begins at a page is freed with `large` set, and no thread stores to
`stack_base`. -/
def KernelKeeps (kernel : Kernel) : KernelEvent → Prop
  | .machine event => KeepsCleanup kernel.machine event
  | .cleanup => ∀ allocation, kernel.owed.head? = some allocation →
    FreesSafely image kernel.heap (.kfree (kernel.place allocation))
  | .create _ => True
  | .heap event => FreesSafely image kernel.heap event ∧
    ∀ address byte, event = .store address byte →
      ∀ task, Freed.state task ∈ kernel.held →
        address < kernel.place (.state task) + 272 ∨
          kernel.place (.state task) + 280 ≤ address

structure Kernel.Safe (kernel : Kernel) : Prop where
  heap : HeapSafe image kernel.heap
  /-- What is live was made for a task that is not freed, or is a client's. -/
  accounted : kernel.heap.live.Perm
    (kernel.held.map kernel.place ++ kernel.clients)
  /-- `cleanup_terminated_task` finds the stack of a task in its
  `TaskState`. -/
  recorded : ∀ task, Freed.state task ∈ kernel.held →
    Records image kernel.heap (kernel.place (.state task))
      (kernel.place (.stack (kernel.base task)))
  /-- What it frees is live, and its calls return. -/
  owed : ∀ allocation ∈ kernel.owed,
    kernel.place allocation ∈ kernel.heap.live
  cleanup : kernel.owed ≠ [] →
    ∃ after, KernelStep image map kernel .cleanup after
  /-- A task that was made and has not terminated has its `TaskState` and its
  stack. -/
  tasks : ∀ task ∈ kernel.made,
    task ∉ kernel.machine.history.terminated →
      kernel.place (.state task) ∈ kernel.heap.live ∧
        kernel.place (.stack (kernel.base task)) ∈ kernel.heap.live
  /-- The thread on the core is such a task and runs on its stack. -/
  running : ∀ task, kernel.machine.running.thread = some task →
    task ∈ kernel.made ∧ task ∉ kernel.machine.history.terminated ∧
      kernel.machine.running.stackPointer.stack = kernel.base task
  waiting : ∀ task ∈ kernel.machine.history.live,
    task ∈ kernel.made ∧ task ∉ kernel.machine.history.terminated

end

def releases (base : TaskRef → Nat) (task : TaskRef) : List Freed :=
  [.stack (base task), .state task]

theorem reverse_allocations (base : TaskRef → Nat) (tasks : List TaskRef) :
    (tasks.flatMap (allocations base)).reverse =
      tasks.reverse.flatMap (releases base) := by
  rw [List.reverse_flatMap]
  rfl

/-! What a step of the machine does to the tasks that it knows. -/

section

variable {map : CodeMap} {base : TaskRef → Nat} {launch idle : TaskRef}
  {machine : Machine}

def Machine.Knows (machine : Machine) (task : TaskRef) : Prop :=
  task ∈ machine.history.live ∨ task ∈ machine.history.terminated

/-- `terminate_current` ends the task that called it. -/
theorem Kept.called_previous {before core : Core}
    (kept : Kept map base idle (machine.withState before.state))
    (called : Routine.terminate.Called (machine.withState before.state).history)
    {budget : Nat} {handover : Handover}
    (ended : (Routine.terminate.program map budget).run before =
      .ok (.switched handover, core)) :
    handover.previous ∈ machine.history.live := by
  obtain ⟨layout, reaped, accounted⟩ := kept.accounted
  obtain ⟨task, runs⟩ := called
  obtain ⟨other, hservice, rfl, _⟩ := (Routine.terminate_concludes accounted
    runs map before.registers budget).ended _ core ended
  cases hservice
  exact runs.2

theorem Request.record_terminated (request : Request) (history : History)
    (after : State) (service : Service) :
    (request.record history after service).terminated =
      history.terminated := by
  unfold Request.record
  split
  · exact Operation.record_terminated _ history after trivial
  · rfl

theorem Machine.serve_record (map : CodeMap) (machine : Machine) (call : Call)
    (task : TaskRef) (service : Service) (core : Core) :
    (machine.serve map call task service core).history =
      call.request.record machine.history core.state service := by
  unfold Machine.serve
  cases service with
  | done => rfl
  | again => rfl
  | switched handover => exact Machine.dispatch_history ..

theorem Machine.interrupted_knows {map : CodeMap} {frame : ExceptionContext}
    {after : State} {task : TaskRef} :
    (machine.interrupted map frame after).Knows task ↔ machine.Knows task := by
  have hsaved : machine.saveInterrupted.Knows task ↔ machine.Knows task := by
    unfold Machine.Knows
    rw [Machine.saveInterrupted_history]
  rw [← hsaved]
  unfold Machine.interrupted Machine.Knows
  dsimp only
  split
  · exact Iff.rfl
  · split
    · exact Iff.rfl
    · rw [Machine.arrive_history, Machine.dispatch_history]
      exact Iff.rfl

/-- Only `add_task` makes a task known. -/
theorem Tended.knows {after : Machine} {event : Event} {task : TaskRef}
    (tended : Tended map base launch idle machine)
    (step : Machine.Step map machine event after)
    (knows : after.Knows task) : machine.Knows task ∨ event = .add task := by
  cases step with
  | add executes uncalled fresh ended =>
      rename_i other state
      rcases knows with hlive | hterminated
      · rcases List.mem_cons.mp hlive with rfl | hold
        · exact .inr rfl
        · exact .inl (.inl hold)
      · exact .inl (.inr hterminated)
  | serve executes runs called unserved ended =>
      unfold Machine.Knows at knows
      rw [Machine.serve_record, (Request.record_live ..).1,
        Request.record_terminated] at knows
      exact .inl knows
  | access activity pc step =>
      rename_i routine caller accesses rest left core
      by_cases returns : ∃ service, left = .ret service
      · obtain ⟨service, rfl⟩ := returns
        obtain ⟨handover, rfl, _⟩ :=
          tended.orderly.departs tended.sound activity pc step (accesses + 1)
        unfold Machine.proceed Machine.handOver Machine.Knows at knows
        rw [Machine.dispatch_history] at knows
        cases routine with
        | start => exact .inl knows
        | terminate =>
            obtain ⟨before, kept, called, budget, hrun⟩ :=
              tended.orderly.inside activity
            have hprevious := kept.called_previous called
              (step.run_eq.trans hrun).symm
            rcases knows with hlive | hterminated
            · exact .inl (.inl (List.mem_of_mem_erase hlive))
            · rcases List.mem_cons.mp hterminated with rfl | hold
              · exact .inl (.inl hprevious)
              · exact .inl (.inr hold)
      · have goesOn : ∀ service, left ≠ .ret service :=
          fun service hleft => returns ⟨service, hleft⟩
        rw [Machine.proceed_goesOn goesOn] at knows
        exact .inl knows
  | interrupt enabled ended =>
      exact .inl (Machine.interrupted_knows.mp knows)
  | branch pc =>
      unfold Machine.Knows at knows
      rw [Machine.arrive_history] at knows
      exact .inl knows
  | call | giveBack | unlock | enter | compute | mask => exact .inl knows

/-- A task that is scheduled has not terminated, also while a routine is on its
way to another task. -/
theorem Orderly.live_not_terminated (orderly : Orderly map base idle machine)
    {task : TaskRef} (live : task ∈ machine.history.live) :
    task ∉ machine.history.terminated := by
  have kept : ∀ {history : History} {layout : Layout} {reaped : List TaskRef},
      Accounted base history layout reaped → task ∈ history.live →
        task ∉ history.terminated := by
    intro history layout reaped accounted hlive hmem
    rcases (accounted.terminated_iff task).mp hmem with hpending | hreaped
    · exact accounted.not_pending hlive hpending
    · exact accounted.wellFormed.valid_ring task
        ((accounted.live_iff task).mpr hlive)
        ((accounted.freed_iff task).mpr hreaped)
  cases orderly with
  | settled settled =>
      obtain ⟨layout, reaped, accounted⟩ := settled.accounted
      exact kept accounted live
  | leaving before _ _ _ _ inside leaving =>
      obtain ⟨layout, reaped, accounted⟩ := leaving.kept.accounted
      have active := kept accounted live
      exact active

theorem Orderly.frees_access (orderly : Orderly map base idle machine)
    {routine : Routine} {caller : Registers} {accesses : Nat}
    {rest left : Code Service} {core : Core}
    (activity : machine.running.activity =
      .inside routine caller accesses rest)
    (step : Program.Step (rest, machine.core) (left, core)) :
    core.state.kfreed = machine.history.state.kfreed := by
  have frees : rest.Respects SameFreedOn := by
    cases orderly with
    | settled settled =>
        cases hcurrent : machine.history.state.currentTask with
        | none => exact (settled.starting hcurrent _ _ _ _ activity).frees
        | some task => exact (settled.current task hcurrent _ _ _ _
            activity).frees
    | leaving before _ _ _ _ inside leaving =>
        cases activity.symm.trans inside
        exact leaving.frees
  exact (frees.step step).1

/-- Only an interrupt frees tasks. -/
theorem Tended.frees {after : Machine} {event : Event}
    (tended : Tended map base launch idle machine)
    (meets : KeepsCleanup machine event)
    (step : Machine.Step map machine event after) :
    ∃ tasks : List TaskRef, after.history.state.kfreed =
      tasks.flatMap (allocations base) ++ machine.history.state.kfreed := by
  obtain ⟨sound, stacked, orderly, _⟩ := tended
  cases step with
  | add executes uncalled fresh ended =>
      rename_i task state
      obtain ⟨layout, reaped, accounted⟩ :=
        (orderly.of_own executes.own).accounted
      have performs := addTask_performs accounted.toConsistent
        (entryOn map machine.core) fresh.live ⟨fresh.terminated, fresh.idle⟩
      exact ⟨[], (@Performs.accounts base machine.history layout reaped
        (.addTask task) _ performs accounted trivial 0 () state
          ended).2.kfreed⟩
  | serve executes runs called unserved ended =>
      obtain ⟨layout, reaped, accounted⟩ :=
        (orderly.of_own executes.own).accounted
      have hcurrent :=
        ((sound.of_own executes.own).current_of_runs runs).1
      have same := ((Request.concludes accounted ⟨hcurrent, runs.live⟩ map
        machine.running.registers _ _).ended _ _ ended).2
      refine ⟨[], ?_⟩
      rw [Machine.serve_state]
      exact same.kfreed
  | unlock executes runs uncalled ended =>
      obtain ⟨layout, reaped, accounted⟩ :=
        (orderly.of_own executes.own).accounted
      obtain ⟨state, hrun, _, same⟩ := unlock_accounts accounted _
      cases hrun.symm.trans ended
      exact ⟨[], same.kfreed⟩
  | access activity pc step =>
      refine ⟨[], ?_⟩
      rw [Machine.proceed_state]
      exact orderly.frees_access activity step
  | branch pc =>
      refine ⟨[], ?_⟩
      rw [Machine.arrive_history]
      rfl
  | interrupt enabled ended =>
      rename_i budget esr far frame state
      obtain ⟨layout, reaped, accounted⟩ :=
        (orderly.interruptible meets).accounted
      have returns := Scheduler.onTimerInterrupt_returns accounted.wellFormed
        (saveFrame machine.running.registers machine.history.state.daif esr
          far)
      obtain rfl := congrArg Prod.snd (returns.unique ended)
      rw [Machine.interrupted_state]
      cases hcurrent : machine.history.state.currentTask with
      | none =>
          refine ⟨[], ?_⟩
          rw [Scheduler.interruptEffect_unstarted layout _ hcurrent]
          exact (Scheduler.awake_sameCleanup _ layout).kfreed
      | some current =>
          have freed := Scheduler.interruptEffect_frees layout (saveFrame
            machine.running.registers machine.history.state.daif esr far)
              hcurrent
          rw [funext stacked.bases] at freed
          exact ⟨_, freed⟩
  | call | giveBack | enter | compute | mask => exact ⟨[], rfl⟩

theorem Kept.thread_known (kept : Kept map base idle machine)
    (thread : machine.running.thread =
      owner launch (machine.history.state.currentTask.getD launch))
    {task : TaskRef} (hthread : machine.running.thread = some task) :
    machine.Knows task ∨ task = idle := by
  obtain ⟨layout, reaped, accounted⟩ := kept.accounted
  obtain ⟨hsame, hne⟩ := owner_eq_some (thread.symm.trans hthread)
  cases hcurrent : machine.history.state.currentTask with
  | none =>
      rw [hcurrent] at hne
      exact absurd rfl hne
  | some current =>
      rw [hcurrent] at hsame
      obtain rfl : current = task := hsame
      rcases accounted.wellFormed.current current hcurrent with hring | hidle
      · exact .inl (.inl ((accounted.live_iff current).mp hring))
      · exact .inr (Option.some.inj (hidle.symm.trans kept.idleTask))

theorem Tended.thread_step {after : Machine} {event : Event} {task : TaskRef}
    (tended : Tended map base launch idle machine)
    (meets : KeepsCleanup machine event)
    (step : Machine.Step map machine event after)
    (hthread : after.running.thread = some task) :
    machine.running.thread = some task ∨ after.Knows task ∨ task = idle := by
  have stepped := tended.step meets step
  obtain ⟨sound, stacked, orderly, _⟩ := tended
  cases step with
  | serve executes runs called unserved ended =>
      rename_i other call budget service core
      have steady := sound.of_own executes.own
      have settled := (orderly.of_own executes.own).serve steady executes runs
        ended (by
          have hidle := stepped.sound.idleTask
          rwa [Machine.serve_state] at hidle)
      refine .inr (@Kept.thread_known map base launch idle _ settled.toKept ?_
        _ hthread)
      have served := Sound.serve steady executes runs ended meets.threads
      cases service with
      | done => exact (served.of_own executes.own).thread
      | again => exact (served.of_own executes.own).thread
      | switched handover =>
          have called := steady.withCall other
            (some (call.after (.switched handover)))
          exact called.handOver_thread
            (steady.leaves_served executes runs ended)
  | access activity pc step =>
      rename_i routine caller accesses rest left core
      by_cases returns : ∃ service, left = .ret service
      · obtain ⟨service, rfl⟩ := returns
        obtain ⟨handover, rfl, settled⟩ :=
          orderly.departs sound activity pc step (accesses + 1)
        obtain ⟨before, steady, leaves⟩ := sound.leaves activity pc step
        exact .inr (settled.toKept.thread_known (steady.handOver_thread leaves)
          hthread)
      · have goesOn : ∀ service, left ≠ .ret service :=
          fun service hleft => returns ⟨service, hleft⟩
        rw [Machine.proceed_goesOn goesOn] at hthread
        exact .inl hthread
  | branch pc =>
      rw [Machine.arrive_thread] at hthread
      exact .inl hthread
  | interrupt enabled ended =>
      have settled := (orderly.interruptible meets).interrupt stacked ended (by
        have hidle := stepped.sound.idleTask
        rwa [Machine.interrupted_state] at hidle)
      obtain ⟨steady, prepares⟩ := sound.interruptible meets.threads
      have preempted := (steady.interrupt prepares
        ((onTimerInterrupt_preempts _ _ _).of_run ended)).1
      exact .inr (settled.toKept.thread_known preempted.thread hthread)
  | add | call | giveBack | unlock | enter | compute | mask =>
      exact .inl hthread

/-- What was freed belonged to tasks that terminated, each once. -/
theorem Tended.freed (tended : Tended map base launch idle machine)
    (distinct : Function.Injective base) :
    machine.history.state.kfreed.Nodup ∧
      ∀ allocation ∈ machine.history.state.kfreed,
        ∃ task ∈ machine.history.terminated,
          allocation ∈ allocations base task := by
  obtain ⟨reaped, hkfreed, nodup, hterminated⟩ := tended.orderly.freed
  rw [hkfreed]
  refine ⟨allocations_nodup distinct nodup, fun allocation hmem => ?_⟩
  obtain ⟨task, hreaped, hallocation⟩ := List.mem_flatMap.mp hmem
  exact ⟨task, hterminated task hreaped, hallocation⟩

end

end Planetoid.Task
