import Planetoid.Arch.BoardExecution

namespace Planetoid.Arch

open Planetoid Program Planetoid.Memory Planetoid.Task

/-! What passes between the core and the interrupt controller. -/

section

variable {map : CodeMap} {platform : Platform} {first board after : Board}
  {quiet : Prop}

/-- The value of IAR that the handler still owes to EOIR. -/
def Stage.owed : Stage → Option Nat
  | .acknowledged name | .handled name => some name
  | .taken | .ended => none

def Board.owed (board : Board) : Option Nat :=
  board.irq.bind (·.stage.owed)

theorem Board.owed_eq {irq : Irq} (handling : board.irq = some irq) :
    board.owed = irq.stage.owed := by
  unfold owed
  rw [handling]
  rfl

theorem Board.owed_idle (idle : board.irq = none) : board.owed = none := by
  unfold owed
  rw [idle]
  rfl

/-- The controller as `kernel_main` set it up. It forwards nothing but the
interrupts of the core itself. -/
structure Gic.SetUp (gic : Gic) : Prop where
  dist : gic.distCtl = 1
  cpu : gic.cpuCtl = 1
  pmr : gic.pmr = 0xFF
  priority : ∀ id, id < gic.lineCount → gic.priority id = 0xA0
  disabled : ∀ id, 32 ≤ id → id < gic.lineCount → gic.enabled id = false

/-- Every value read from IAR is written to EOIR before the next read. When the
controller began with no active interrupt, one is active only in between. -/
structure Board.Balanced (quiet : Prop) (board : Board) : Prop where
  setUp : board.devices.gic.SetUp
  logs : board.acknowledged = board.owed.toList ++ board.ended
  active : quiet →
    board.devices.gic.active = board.owed.toList.filter (· ≠ spurious)
  known : ∀ name ∈ board.acknowledged,
    interruptId name < 32 ∨ name = spurious

theorem Gic.initialised_setUp (gic : Gic) : gic.initialised.SetUp where
  dist := rfl
  cpu := rfl
  pmr := rfl
  priority := fun _ h => if_pos h
  disabled := fun _ hlow hhigh => if_pos ⟨hlow, hhigh⟩

theorem Gic.SetUp.acknowledge {gic : Gic} (setUp : gic.SetUp) (name : Nat) :
    (gic.acknowledge name).SetUp := by
  unfold Gic.acknowledge
  split
  · exact setUp
  · exact { setUp with }

namespace Board

theorem Initial.balanced (initial : board.Initial map platform) :
    board.Balanced (board.devices.gic.active = []) := by
  obtain ⟨before, hinit⟩ := initial.gic
  rw [GIC.run_init] at hinit
  have hgic : before.initialised = board.devices.gic :=
    congrArg Prod.snd (Except.ok.inj hinit)
  have howed := owed_idle initial.idle
  obtain ⟨hacknowledged, hended, _⟩ := initial.logs
  constructor
  · rw [← hgic]
    exact before.initialised_setUp
  · rw [howed, hacknowledged, hended]
    rfl
  · intro hactive
    rw [howed, hactive]
    rfl
  · rw [hacknowledged]
    exact nofun

theorem Balanced.of_eq (balanced : board.Balanced quiet)
    (hgic : after.devices.gic = board.devices.gic)
    (howed : after.owed = board.owed)
    (hacknowledged : after.acknowledged = board.acknowledged)
    (hended : after.ended = board.ended) : after.Balanced quiet where
  setUp := hgic ▸ balanced.setUp
  logs := by
    rw [hacknowledged, howed, hended]
    exact balanced.logs
  active := by
    rw [hgic, howed]
    exact balanced.active
  known := by
    rw [hacknowledged]
    exact balanced.known

theorem Balanced.signalled (balanced : board.Balanced quiet) {name : Nat}
    (signals : board.devices.Signals name) : interruptId name < 32 := by
  by_contra hlarge
  have hdisabled := balanced.setUp.disabled _ (Nat.le_of_not_lt hlarge)
    signals.2.exist
  rw [signals.2.enabled] at hdisabled
  cases hdisabled

/-- With no interrupt active, the line of the enabled timer is signalled. -/
theorem Balanced.signals (balanced : board.Balanced quiet) (hquiet : quiet)
    (owed : board.owed = none)
    (enabled : board.devices.gic.enabled Timer.timerInterrupt = true)
    (asserted : board.devices.timer.Asserted) :
    board.devices.Signals Timer.timerInterrupt := by
  have hexist : Timer.timerInterrupt < board.devices.gic.lineCount := by
    unfold Timer.timerInterrupt Gic.lineCount
    omega
  have hactive := balanced.active hquiet
  rw [owed] at hactive
  refine ⟨?_, ?_⟩
  · exact ⟨rfl, asserted⟩
  · exact {
      dist := by rw [balanced.setUp.dist]
      cpu := by rw [balanced.setUp.cpu]
      exist := hexist
      known := by decide
      enabled := enabled
      unmasked := by
        rw [balanced.setUp.pmr, show interruptId Timer.timerInterrupt =
          Timer.timerInterrupt from rfl, balanced.setUp.priority _ hexist]
        decide
      preempts := by
        rw [hactive]
        exact nofun }

theorem active_acknowledge (gic : Gic) (name : Nat) :
    (gic.acknowledge name).active =
      [name].filter (· ≠ spurious) ++ gic.active := by
  unfold Gic.acknowledge
  split
  · rename_i hspurious
    simp [hspurious]
  · rename_i hknown
    simp [hknown]

theorem Balanced.step (balanced : board.Balanced quiet) {event : BoardEvent}
    (step : Step map platform board event after) : after.Balanced quiet := by
  cases step with
  | thread | elapse => exact balanced.of_eq rfl rfl rfl rfl
  | enableTimer up ended =>
      rw [GIC.run_enableInterrupt _ (by decide)] at ended
      obtain rfl := congrArg Prod.snd (Except.ok.inj ended)
      refine ⟨?_, balanced.logs, balanced.active, balanced.known⟩
      refine { balanced.setUp with disabled := ?_ }
      intro id hlow hhigh
      have hne : id ≠ Timer.timerInterrupt := by
        unfold Timer.timerInterrupt
        omega
      exact (Function.update_of_ne hne _ _).trans
        (balanced.setUp.disabled id hlow hhigh)
  | initTimer up once ended =>
      rw [Timer.run_init] at ended
      obtain rfl := congrArg Prod.snd (Except.ok.inj ended)
      exact balanced.of_eq rfl rfl rfl rfl
  | line name pending =>
      exact ⟨{ balanced.setUp with }, balanced.logs, balanced.active,
        balanced.known⟩
  | take esr far idle enabled =>
      exact balanced.of_eq rfl (owed_idle idle).symm rfl rfl
  | @acknowledge irq name handling stage acknowledges =>
      have howed := (owed_eq handling).trans (congrArg Stage.owed stage)
      have hlogs := balanced.logs
      have hactive := balanced.active
      rw [howed] at hlogs hactive
      refine ⟨balanced.setUp.acknowledge name, congrArg (name :: ·) hlogs, ?_,
        ?_⟩
      · intro hquiet
        exact (active_acknowledge board.devices.gic name).trans
          (by rw [hactive hquiet]; exact List.append_nil _)
      · intro other hother
        obtain rfl | hold := List.mem_cons.mp hother
        · obtain signals | ⟨hspurious, _⟩ := acknowledges
          · exact .inl (balanced.signalled signals)
          · exact .inr hspurious
        · exact balanced.known other hold
  | @ignore irq name handlers handling stage =>
      refine balanced.of_eq rfl ?_ rfl rfl
      exact ((owed_eq handling).trans (congrArg Stage.owed stage)).symm
  | @tick irq name budget handlers devices frame state handling stage
      dispatched reloaded ended =>
      rw [Timer.run_reload] at reloaded
      obtain rfl := congrArg Prod.snd (Except.ok.inj reloaded)
      refine balanced.of_eq rfl ?_ rfl rfl
      exact ((owed_eq handling).trans (congrArg Stage.owed stage)).symm
  | @endInterrupt irq name gic handling stage ended =>
      rw [GIC.run_endInterrupt] at ended
      obtain rfl := congrArg Prod.snd (Except.ok.inj ended)
      have howed := (owed_eq handling).trans (congrArg Stage.owed stage)
      have hlogs := balanced.logs
      have hactive := balanced.active
      rw [howed] at hlogs hactive
      refine ⟨{ balanced.setUp with }, hlogs, ?_, balanced.known⟩
      intro hquiet
      show board.devices.gic.active.erase name = []
      rw [hactive hquiet]
      by_cases hspurious : name = spurious
      · subst hspurious
        rfl
      · simp [Stage.owed, hspurious]
  | @eret irq handling stage =>
      refine balanced.of_eq rfl ?_ rfl rfl
      exact ((owed_eq handling).trans (congrArg Stage.owed stage)).symm

end Board

/-- The values written to EOIR are those read from IAR, in their order, with
at most one still owed, and only interrupts of the core itself are ever
acknowledged. When none was active in `first`, none is active while a thread
runs, and then the line of the enabled timer is signalled. -/
structure Board.Delivers (first board : Board) : Prop where
  matched : board.acknowledged = board.owed.toList ++ board.ended
  known : ∀ name ∈ board.acknowledged,
    interruptId name < 32 ∨ name = spurious
  inactive : first.devices.gic.active = [] → board.irq = none →
    board.devices.gic.active = []
  signals : first.devices.gic.active = [] → board.irq = none →
    board.devices.gic.enabled Timer.timerInterrupt = true →
    board.devices.timer.Asserted →
    board.devices.Signals Timer.timerInterrupt

theorem Board.Balanced.delivers
    (balanced : board.Balanced (first.devices.gic.active = [])) :
    first.Delivers board where
  matched := balanced.logs
  known := balanced.known
  inactive := by
    intro hquiet idle
    rw [balanced.active hquiet, owed_idle idle]
    rfl
  signals := fun hquiet idle => balanced.signals hquiet (owed_idle idle)

theorem delivers_of_reachable (initial : first.Initial map platform)
    (reachable : ((boards map platform).since first).Reachable
      System.unguarded board) : first.Delivers board := by
  have balanced : board.Balanced (first.devices.gic.active = []) := by
    apply reachable.holds
    · rintro _ rfl
      exact initial.balanced
    · intro before event after balanced _ step
      exact balanced.step step
  exact balanced.delivers

end

theorem delivers_oneTick :
    ∃ board, ((boards smallMap .virt).since smallBoard).Reachable
        System.unguarded board ∧
      board.ended = [30] ∧ smallBoard.devices.gic.active = [] ∧
      smallBoard.Delivers board := by
  obtain ⟨board, hrun, hended⟩ := Option.map_eq_some_iff.mp
    (by decide +kernel : (smallBoard.runEvents (fun _ _ => true) smallMap
      .virt 4 oneTick).map (·.ended) = some [30])
  have trace : ((boards smallMap .virt).since smallBoard).Trace
      System.unguarded [] smallBoard := .initial rfl
  have reachable := (Board.trace_runEvents (fun _ _ _ => trivial) trace
    hrun).reachable
  exact ⟨board, reachable, hended, rfl,
    delivers_of_reachable smallBoard_initial reachable⟩

end Planetoid.Arch
