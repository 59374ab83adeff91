import Planetoid.Base.Runs

namespace Planetoid

/-! Traces of transition systems, and systems that follow others. -/

namespace System

variable {σ τ ε δ : Type}

inductive Trace (system : System σ ε) (guard : σ → ε → Prop) :
    List ε → σ → Prop
  | initial {state : σ} (start : system.initial state) :
      Trace system guard [] state
  | step {events : List ε} {before after : σ} {event : ε}
      (trace : Trace system guard events before)
      (meets : guard before event)
      (transition : system.step before event after) :
      Trace system guard (event :: events) after

/-- Every step of `lower` that meets `guard` is the step of `upper` that
`label` names, or none of its steps. -/
structure Follows (lower : System σ ε) (guard : σ → ε → Prop)
    (upper : System τ δ) (upperGuard : τ → δ → Prop)
    (label : ε → Option δ) (relates : σ → τ → Prop) : Prop where
  initial : ∀ state, lower.initial state →
    ∃ other, upper.initial other ∧ relates state other
  silent : ∀ {before event after other}, relates before other →
    guard before event → lower.step before event after →
    label event = none → relates after other
  visible : ∀ {before event after other named}, relates before other →
    guard before event → lower.step before event after →
    label event = some named →
    ∃ next, upperGuard other named ∧ upper.step other named next ∧
      relates after next

variable {lower : System σ ε} {upper : System τ δ}
  {guard : σ → ε → Prop} {upperGuard : τ → δ → Prop}
  {label : ε → Option δ} {relates : σ → τ → Prop}

theorem Follows.trace
    (follows : Follows lower guard upper upperGuard label relates)
    {events : List ε} {state : σ} (trace : lower.Trace guard events state) :
    ∃ other, upper.Trace upperGuard (events.filterMap label) other ∧
      relates state other := by
  induction trace with
  | initial start =>
      obtain ⟨other, hinitial, hrelates⟩ := follows.initial _ start
      exact ⟨other, .initial hinitial, hrelates⟩
  | @step events before after event _ meets transition ih =>
      obtain ⟨other, hother, hrelates⟩ := ih
      cases hlabel : label event with
      | none =>
          rw [List.filterMap_cons_none hlabel]
          exact ⟨other, hother,
            follows.silent hrelates meets transition hlabel⟩
      | some named =>
          obtain ⟨next, hmeets, hstep, hnext⟩ :=
            follows.visible hrelates meets transition hlabel
          rw [List.filterMap_cons_some hlabel]
          exact ⟨next, .step hother hmeets hstep, hnext⟩

theorem Trace.reachable {system : System σ ε} {events : List ε} {state : σ}
    (trace : system.Trace guard events state) :
    system.Reachable guard state := by
  induction trace with
  | initial start => exact .initial start
  | step _ meets transition ih => exact .step ih meets transition

theorem Reachable.trace {system : System σ ε} {state : σ}
    (reachable : system.Reachable guard state) :
    ∃ events, system.Trace guard events state := by
  induction reachable with
  | initial start => exact ⟨[], .initial start⟩
  | step _ meets transition ih =>
      obtain ⟨events, trace⟩ := ih
      exact ⟨_, .step trace meets transition⟩

end System

end Planetoid
