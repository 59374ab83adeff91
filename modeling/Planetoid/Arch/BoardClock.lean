import Planetoid.Arch.BoardExecution
import Planetoid.Task.MachineTicks

namespace Planetoid.Arch

open Planetoid Program Planetoid.Memory Planetoid.Task

/-! The tick counter against the counter of the timer. -/

section

variable {map : CodeMap} {platform : Platform} {board after : Board}

def Board.memory (board : Board) : State :=
  match board.irq with
  | none => board.machine.history.state
  | some irq => irq.state

/-- The counter of the timer does not wrap around, and once the timer runs no
interrupt of it is more than `latency` counts late. -/
def Timely (latency : Nat) (board : Board) (event : BoardEvent) : Prop :=
  board.devices.timer.counter < 2 ^ 63 ∧
    (event = .elapse → board.devices.timerFrequency ≠ 0 →
      board.devices.timer.counter < board.devices.timer.compare + latency)

instance (latency : Nat) (board : Board) :
    (event : BoardEvent) → Decidable (Timely latency board event)
  | .elapse => decidable_of_iff (board.devices.timer.counter < 2 ^ 63 ∧
      (board.devices.timerFrequency ≠ 0 → board.devices.timer.counter <
        board.devices.timer.compare + latency))
      ⟨fun h => ⟨h.1, fun _ => h.2⟩, fun h => ⟨h.1, h.2 rfl⟩⟩
  | .thread _ | .enableTimer | .initTimer | .line _ _ | .take
  | .acknowledge _ | .ignore | .tick | .endInterrupt | .eret =>
    decidable_of_iff (board.devices.timer.counter < 2 ^ 63)
      ⟨fun h => ⟨h, nofun⟩, And.left⟩

structure Board.Counts (board : Board) : Prop where
  threads : board.machine.KeepsTicks
  ticks : board.memory.systemTicks = board.ticked % 2 ^ 64

/-- The time at which the timer rings next lies one period after the last tick
was served. -/
structure Devices.Paced (devices : Devices) (latency start ticked : Nat) :
    Prop where
  period : devices.timerTicks = devices.timer.frequency / 100
  frequency : devices.timerFrequency = 100
  begun : start + ticked * devices.timerTicks ≤ devices.timer.counter
  next : start + (ticked + 1) * devices.timerTicks ≤ devices.timer.compare
  punctual : devices.timer.compare ≤
    start + (ticked + 1) * devices.timerTicks + ticked * latency
  late : devices.timer.counter ≤ devices.timer.compare + latency

/-- Before `Timer::init` nothing ticks; afterwards the timer is paced. While
its interrupt is acknowledged, its time has come. -/
structure Board.Clocked (latency : Nat) (board : Board) : Prop where
  frequency : board.devices.timer.frequency < 2 ^ 32
  handler : ∀ name, Interrupts.handlerOf board.devices.handlers name ≠ none →
    name = Timer.timerInterrupt ∧ board.devices.timerFrequency ≠ 0
  stopped : board.devices.timerFrequency = 0 → board.ticked = 0
  paced : board.devices.timerFrequency ≠ 0 →
    board.devices.Paced latency board.timerStart board.ticked
  acknowledged : ∀ irq, board.irq = some irq →
    irq.stage = .acknowledged Timer.timerInterrupt →
    board.devices.timer.compare ≤ board.devices.timer.counter

namespace Board

theorem Initial.counts (initial : board.Initial map platform) :
    board.Counts where
  threads := initial.machine.keepsTicks
  ticks := by
    unfold memory
    rw [initial.idle, initial.logs.2.2]
    exact initial.systemTicks

theorem Irq.leave_state (irq : Irq) (machine : Machine) :
    (irq.leave map machine).history.state =
      irq.state.withDaif irq.frame.spsr.daif := by
  unfold Irq.leave
  split
  · exact Machine.interrupted_history ..
  · rfl

theorem Counts.of_eq (counts : board.Counts)
    (hmachine : after.machine = board.machine)
    (hmemory : after.memory.systemTicks = board.memory.systemTicks)
    (hticked : after.ticked = board.ticked) : after.Counts where
  threads := hmachine ▸ counts.threads
  ticks := by
    rw [hmemory, hticked]
    exact counts.ticks

theorem Counts.step (counts : board.Counts) {event : BoardEvent}
    (step : Step map platform board event after) : after.Counts := by
  cases step with
  | @thread event machine idle other step =>
      obtain ⟨hthreads, hsame⟩ := step.ticks counts.threads
      refine ⟨hthreads, ?_⟩
      have hticks := counts.ticks
      unfold memory at hticks ⊢
      rw [idle] at hticks ⊢
      exact (hsame other).trans hticks
  | enableTimer | initTimer | elapse | line =>
      exact counts.of_eq rfl rfl rfl
  | take esr far idle enabled =>
      refine counts.of_eq rfl ?_ rfl
      unfold memory
      rw [idle]
      rfl
  | acknowledge handling | ignore handling | endInterrupt handling =>
      refine counts.of_eq rfl ?_ rfl
      unfold memory
      rw [handling]
      rfl
  | @tick irq name budget handlers devices frame state handling stage
      dispatched reloaded ended =>
      refine ⟨counts.threads, ?_⟩
      have hticks := counts.ticks
      unfold memory at hticks
      rw [handling] at hticks
      have hstate : irq.state.systemTicks = board.ticked % 2 ^ 64 := hticks
      refine (ticks_onTimerInterrupt ended).trans ?_
      rw [hstate]
      exact Nat.mod_add_mod ..
  | @eret irq handling stage =>
      have hticks := counts.ticks
      unfold memory at hticks
      rw [handling] at hticks
      refine ⟨?_, ?_⟩
      · unfold Irq.leave
        split
        · exact counts.threads.interrupted ..
        · exact counts.threads.of_eq rfl rfl
      · exact (congrArg State.systemTicks (Irq.leave_state irq _)).trans hticks

end Board

theorem GenericTimer.writeTval_compare {timer : GenericTimer} {period : Nat}
    (hperiod : period < 2 ^ 31) (hcounter : timer.counter < 2 ^ 63) :
    (timer.writeTval period).compare = timer.counter + period := by
  have hlow : period % 2 ^ 32 = period := Nat.mod_eq_of_lt (by omega)
  unfold writeTval signExtend
  dsimp only
  rw [hlow, if_pos hperiod, Nat.mod_eq_of_lt (by omega)]

theorem GenericTimer.elapse_counter {timer : GenericTimer}
    (hcounter : timer.counter < 2 ^ 63) :
    timer.elapse.counter = timer.counter + 1 :=
  Nat.mod_eq_of_lt (by omega)

namespace Devices

variable {devices : Devices} {latency start ticked : Nat}

theorem timed_paced (hfrequency : devices.timer.frequency < 2 ^ 32)
    (hcounter : devices.timer.counter < 2 ^ 63) :
    (devices.timed 100).Paced latency devices.timer.counter 0 := by
  have hcompare : (devices.timed 100).timer.compare =
      devices.timer.counter + devices.timer.frequency / 100 :=
    GenericTimer.writeTval_compare (by omega) hcounter
  refine ⟨rfl, rfl, ?_, ?_, ?_, ?_⟩
  · rw [Nat.zero_mul]
    exact Nat.le_refl _
  · rw [hcompare, Nat.zero_add, Nat.one_mul]
    exact Nat.le_refl _
  · rw [hcompare, Nat.zero_add, Nat.one_mul, Nat.zero_mul]
    exact Nat.le_refl _
  · rw [hcompare]
    exact Nat.le_trans (Nat.le_add_right _ _) (Nat.le_add_right _ _)

theorem Paced.elapse (paced : devices.Paced latency start ticked)
    (hcounter : devices.timer.counter < 2 ^ 63)
    (hlate : devices.timer.counter < devices.timer.compare + latency) :
    ({ devices with timer := devices.timer.elapse } : Devices).Paced latency
      start ticked := by
  have hcounted := GenericTimer.elapse_counter hcounter
  refine ⟨paced.period, paced.frequency, ?_, paced.next, paced.punctual, ?_⟩
  · rw [hcounted]
    exact Nat.le_succ_of_le paced.begun
  · rw [hcounted]
    exact hlate

/-- A tick that is served late delays the next one as much. -/
theorem Paced.reloaded (paced : devices.Paced latency start ticked)
    (hfrequency : devices.timer.frequency < 2 ^ 32)
    (hcounter : devices.timer.counter < 2 ^ 63)
    (hrings : devices.timer.compare ≤ devices.timer.counter) :
    devices.reloaded.Paced latency start (ticked + 1) := by
  have hperiod : devices.timerTicks < 2 ^ 31 := by
    rw [paced.period]
    omega
  have hcompare : devices.reloaded.timer.compare =
      devices.timer.counter + devices.timerTicks :=
    GenericTimer.writeTval_compare hperiod hcounter
  have hnext := paced.next
  have hpunctual := paced.punctual
  have hlate := paced.late
  have hstep : (ticked + 1 + 1) * devices.timerTicks =
      (ticked + 1) * devices.timerTicks + devices.timerTicks :=
    Nat.succ_mul ..
  have hdelay : (ticked + 1) * latency = ticked * latency + latency :=
    Nat.succ_mul ..
  refine ⟨paced.period, paced.frequency, ?_, ?_, ?_, ?_⟩
  · exact Nat.le_trans hnext hrings
  · rw [hcompare]
    change start + (ticked + 1 + 1) * devices.timerTicks ≤ _
    omega
  · rw [hcompare]
    change _ ≤ start + (ticked + 1 + 1) * devices.timerTicks + _
    omega
  · rw [hcompare]
    exact Nat.le_trans (Nat.le_add_right _ _) (Nat.le_add_right _ _)

end Devices

namespace Board

variable {latency : Nat}

theorem Initial.clocked (initial : board.Initial map platform) :
    board.Clocked latency where
  frequency := initial.frequency
  handler := by
    intro name hname
    obtain ⟨before, hinit⟩ := initial.handlers
    rw [Interrupts.run_init] at hinit
    have hnone : (fun _ => none) = board.devices.handlers :=
      congrArg Prod.snd (Except.ok.inj hinit)
    rw [← hnone] at hname
    unfold Interrupts.handlerOf at hname
    split at hname <;> exact absurd rfl hname
  stopped := fun _ => initial.logs.2.2
  paced := fun h => absurd initial.timerFrequency h
  acknowledged := by
    rw [initial.idle]
    exact nofun

theorem Clocked.of_eq (clocked : board.Clocked latency)
    (htimer : after.devices.timer = board.devices.timer)
    (hticks : after.devices.timerTicks = board.devices.timerTicks)
    (hfrequency : after.devices.timerFrequency = board.devices.timerFrequency)
    (hhandlers : after.devices.handlers = board.devices.handlers)
    (hticked : after.ticked = board.ticked)
    (hstart : after.timerStart = board.timerStart)
    (hacknowledged : ∀ irq, after.irq = some irq →
      irq.stage = .acknowledged Timer.timerInterrupt →
      after.devices.timer.compare ≤ after.devices.timer.counter) :
    after.Clocked latency where
  frequency := htimer ▸ clocked.frequency
  handler := by
    rw [hhandlers, hfrequency]
    exact clocked.handler
  stopped := by
    rw [hfrequency, hticked]
    exact clocked.stopped
  paced := by
    rw [hfrequency, hticked, hstart]
    intro h
    obtain ⟨period, frequency, begun, next, punctual, late⟩ := clocked.paced h
    constructor
    · rw [hticks, htimer]
      exact period
    · rw [hfrequency]
      exact frequency
    · rw [hticks, htimer]
      exact begun
    · rw [hticks, htimer]
      exact next
    · rw [hticks, htimer]
      exact punctual
    · rw [htimer]
      exact late
  acknowledged := hacknowledged

theorem Clocked.served (clocked : board.Clocked latency) {name : Nat}
    {handler : Handler} {handlers : Interrupts.Handlers Handler}
    (dispatched : (Interrupts.dispatchInterrupt name).run
      board.devices.handlers = .ok (some handler, handlers)) :
    name = Timer.timerInterrupt ∧ board.devices.timerFrequency ≠ 0 := by
  rw [Interrupts.run_dispatchInterrupt] at dispatched
  have hsome : Interrupts.handlerOf board.devices.handlers name =
      some handler := congrArg Prod.fst (Except.ok.inj dispatched)
  apply clocked.handler
  rw [hsome]
  exact nofun

theorem Clocked.timed_handler (clocked : board.Clocked latency)
    {frequency name : Nat}
    (h : Interrupts.handlerOf (board.devices.timed frequency).handlers name ≠
      none) : name = Timer.timerInterrupt := by
  by_contra hne
  apply h
  unfold Interrupts.handlerOf
  split
  · rename_i hlt
    have hfin : (⟨name, hlt⟩ : Fin Interrupts.maxInterrupts) ≠
        ⟨Timer.timerInterrupt, by decide⟩ := fun heq => hne (Fin.ext_iff.mp heq)
    refine (Function.update_of_ne hfin _ _).trans ?_
    by_contra hold
    refine hne (clocked.handler name ?_).1
    unfold Interrupts.handlerOf
    rwa [dif_pos hlt]
  · rfl

/-- When its interrupt is acknowledged, the time of the timer has come. -/
theorem asserted_of_acknowledges {devices : Devices}
    (acknowledges : devices.Acknowledges Timer.timerInterrupt) :
    devices.timer.Asserted := by
  obtain ⟨pending, _⟩ | ⟨hspurious, _⟩ := acknowledges
  · exact pending.2
  · exact absurd hspurious (by decide)

theorem Clocked.step (clocked : board.Clocked latency) {event : BoardEvent}
    (timely : Timely latency board event)
    (step : Step map platform board event after) :
    after.Clocked latency := by
  cases step with
  | thread idle | line =>
      exact clocked.of_eq rfl rfl rfl rfl rfl rfl clocked.acknowledged
  | enableTimer up ended =>
      exact clocked.of_eq rfl rfl rfl rfl rfl rfl clocked.acknowledged
  | initTimer up once ended =>
      rw [Timer.run_init] at ended
      cases ended
      refine ⟨clocked.frequency, ?_, nofun, ?_, ?_⟩
      · intro name hname
        exact ⟨clocked.timed_handler hname, nofun⟩
      · intro _
        show (board.devices.timed 100).Paced latency _ board.ticked
        rw [clocked.stopped once]
        exact Devices.timed_paced clocked.frequency timely.1
      · intro irq hirq
        cases up.idle.symm.trans hirq
  | elapse =>
      have hcounted := GenericTimer.elapse_counter timely.1
      refine ⟨clocked.frequency, clocked.handler, clocked.stopped, ?_, ?_⟩
      · exact fun h => (clocked.paced h).elapse timely.1 (timely.2 rfl h)
      · intro irq hirq hstage
        refine Nat.le_trans (clocked.acknowledged irq hirq hstage) ?_
        exact (Nat.le_succ _).trans (Nat.le_of_eq hcounted.symm)
  | take esr far idle enabled =>
      refine clocked.of_eq rfl rfl rfl rfl rfl rfl ?_
      rintro _ ⟨⟩ ⟨⟩
  | @acknowledge irq name handling stage acknowledges =>
      refine clocked.of_eq rfl rfl rfl rfl rfl rfl ?_
      rintro _ ⟨⟩ hname
      cases hname
      exact (asserted_of_acknowledges acknowledges).2.2
  | ignore handling stage dispatched =>
      refine clocked.of_eq rfl rfl rfl rfl rfl rfl ?_
      rintro _ ⟨⟩ ⟨⟩
  | @tick irq name budget handlers devices frame state handling stage
      dispatched reloaded ended =>
      rw [Timer.run_reload] at reloaded
      cases reloaded
      obtain ⟨rfl, hstarted⟩ := clocked.served dispatched
      have hrings := clocked.acknowledged irq handling stage
      refine ⟨clocked.frequency, clocked.handler, ?_, ?_, ?_⟩
      · exact fun h => absurd h hstarted
      · exact fun _ => (clocked.paced hstarted).reloaded clocked.frequency
          timely.1 hrings
      · rintro _ ⟨⟩ ⟨⟩
  | endInterrupt handling stage ended =>
      refine clocked.of_eq rfl rfl rfl rfl rfl rfl ?_
      rintro _ ⟨⟩ ⟨⟩
  | eret handling stage =>
      exact clocked.of_eq rfl rfl rfl rfl rfl rfl nofun

end Board

/-- The tick counter is the number of timer interrupts that were served. These
were never more than the periods that went by since `Timer::init`, and, when
each was served `latency` counts late at most, never fewer than the periods so
prolonged, but for the one that is running. `get_milliseconds` takes a period
for ten milliseconds: it does not run ahead of the counter when a hundred
periods are a second. -/
structure Board.KeepsPace (latency : Nat) (board : Board) : Prop where
  period : board.devices.timerTicks = board.devices.timer.frequency / 100
  ticks : board.memory.systemTicks = board.ticked % 2 ^ 64
  notFast : board.timerStart + board.ticked * board.devices.timerTicks ≤
    board.devices.timer.counter
  notSlow : board.devices.timer.counter ≤ board.timerStart +
    (board.ticked + 1) * (board.devices.timerTicks + latency)
  milliseconds : board.ticked < 2 ^ 54 →
    Timer.getMilliseconds board.devices board.memory.systemTicks *
        board.devices.timerTicks ≤
      10 * (board.devices.timer.counter - board.timerStart)
  realTime : board.ticked < 2 ^ 54 →
    board.devices.timer.frequency % 100 = 0 →
    Timer.getMilliseconds board.devices board.memory.systemTicks *
        board.devices.timer.frequency ≤
      1000 * (board.devices.timer.counter - board.timerStart)

/-- `get_milliseconds` counts ten milliseconds for each tick. -/
theorem Timer.getMilliseconds_eq {devices : Devices}
    (hfrequency : devices.timerFrequency = 100) {ticked : Nat}
    (h : ticked < 2 ^ 54) :
    Timer.getMilliseconds devices (ticked % 2 ^ 64) = 10 * ticked := by
  unfold Timer.getMilliseconds
  rw [hfrequency, Nat.mod_eq_of_lt (by omega), Nat.mod_eq_of_lt (by omega)]
  omega

theorem Board.Clocked.milliseconds {latency : Nat}
    (clocked : board.Clocked latency) (counts : board.Counts)
    (started : board.devices.timerFrequency ≠ 0)
    (hsmall : board.ticked < 2 ^ 54) :
    Timer.getMilliseconds board.devices board.memory.systemTicks *
        board.devices.timerTicks ≤
      10 * (board.devices.timer.counter - board.timerStart) := by
  obtain ⟨_, frequency, begun, _⟩ := clocked.paced started
  rw [counts.ticks, Timer.getMilliseconds_eq frequency hsmall, Nat.mul_assoc]
  exact Nat.mul_le_mul_left 10 (by omega)

theorem Board.Clocked.keepsPace {latency : Nat}
    (clocked : board.Clocked latency) (counts : board.Counts)
    (started : board.devices.timerFrequency ≠ 0) :
    board.KeepsPace latency where
  period := (clocked.paced started).period
  ticks := counts.ticks
  notFast := (clocked.paced started).begun
  notSlow := by
    obtain ⟨_, _, _, _, punctual, late⟩ := clocked.paced started
    have hsplit : (board.ticked + 1) * (board.devices.timerTicks + latency) =
        (board.ticked + 1) * board.devices.timerTicks +
          (board.ticked * latency + latency) := by
      rw [Nat.mul_add, Nat.succ_mul board.ticked latency]
    omega
  milliseconds := clocked.milliseconds counts started
  realTime := by
    intro hsmall hwhole
    have hperiod := (clocked.paced started).period
    have hfrequency : board.devices.timer.frequency =
        board.devices.timerTicks * 100 := by
      omega
    have hbound := clocked.milliseconds counts started hsmall
    rw [hfrequency, ← Nat.mul_assoc]
    omega

theorem keepsPace_of_reachable {latency : Nat}
    (reachable : (boards map platform).Reachable (Timely latency) board)
    (started : board.devices.timerFrequency ≠ 0) :
    board.KeepsPace latency := by
  have clocked : board.Clocked latency :=
    reachable.holds (fun _ initial => initial.clocked)
      fun _ _ _ clocked timely step => clocked.step timely step
  have counts : board.Counts :=
    reachable.holds (fun _ initial => initial.counts)
      fun _ _ _ counts _ step => counts.step step
  exact clocked.keepsPace counts started

end

theorem keepsPace_oneTick :
    ∃ board, (boards smallMap .virt).Reachable (Timely 1) board ∧
      board.ticked = 1 ∧ board.KeepsPace 1 := by
  obtain ⟨board, hrun, hticked⟩ := Option.map_eq_some_iff.mp
    (by decide +kernel : (smallBoard.runEvents
      (fun board event => decide (Timely 1 board event)) smallMap .virt 4
        oneTick).map (fun board => (board.ticked, board.devices.timerFrequency))
          = some (1, 100))
  have reachable := (Board.trace_runEvents
    (fun _ _ h => of_decide_eq_true h) (.initial smallBoard_initial)
    hrun).reachable
  obtain ⟨hone, hfrequency⟩ := Prod.mk.inj hticked
  have started : board.devices.timerFrequency ≠ 0 := by
    rw [hfrequency]
    decide
  exact ⟨board, reachable, hone, keepsPace_of_reachable reachable started⟩

end Planetoid.Arch
