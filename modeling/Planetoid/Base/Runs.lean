namespace Planetoid

/-! Labelled transition systems and the induction over their runs. -/

structure System (σ ε : Type) where
  initial : σ → Prop
  step : σ → ε → σ → Prop

namespace System

variable {σ ε : Type} {system : System σ ε} {guard weaker : σ → ε → Prop}
  {invariant : σ → Prop} {state : σ}

/-- The states that a run reaches whose steps all meet `guard`. -/
inductive Reachable (system : System σ ε) (guard : σ → ε → Prop) : σ → Prop
  | initial {state : σ} (start : system.initial state) :
      Reachable system guard state
  | step {before after : σ} {event : ε}
      (reached : Reachable system guard before)
      (meets : guard before event)
      (transition : system.step before event after) :
      Reachable system guard after

abbrev unguarded : σ → ε → Prop := fun _ _ => True

def since (system : System σ ε) (state : σ) : System σ ε :=
  { system with initial := fun start => start = state }

theorem Reachable.holds (reachable : Reachable system guard state)
    (start : ∀ state, system.initial state → invariant state)
    (preserved : ∀ before event after, invariant before →
      guard before event → system.step before event after →
      invariant after) : invariant state := by
  induction reachable with
  | initial h => exact start _ h
  | step _ meets transition ih => exact preserved _ _ _ ih meets transition

theorem Reachable.weaken (reachable : Reachable system guard state)
    (h : ∀ state event, guard state event → weaker state event) :
    Reachable system weaker state := by
  induction reachable with
  | initial start => exact .initial start
  | step _ meets transition ih => exact .step ih (h _ _ meets) transition

end System

end Planetoid
