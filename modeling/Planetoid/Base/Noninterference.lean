import Planetoid.Base.Interference

namespace Planetoid

/-! Programs that do not see what others change. -/

/-- The states that others make of a state, and what they rely on for it. -/
structure Disturbance (σ : Type) where
  same : σ → σ → Prop
  always : σ → Prop

namespace Program

section

variable {σ τ φ α β γ : Type} {env : Disturbance σ} {post : α → σ → Prop}
  {program : Program σ φ α} {state current : σ}

/-- On the way from `state`, every access does the same in all states that
others make of the one it comes to. -/
def Overlooks (env : Disturbance σ) (post : α → σ → Prop) :
    Program σ φ α → σ → Prop
  | .ret value, state => env.always state ∧ post value state
  | .fail _, state => env.always state
  | .access update next, state => env.always state ∧
      (∀ other, env.same state other →
        next other = next state ∧ env.same (update state) (update other)) ∧
      (next state).Overlooks env post (update state)

theorem Overlooks.always (overlooks : program.Overlooks env post state) :
    env.always state := by
  cases program with
  | ret value => exact overlooks.1
  | fail fault => exact overlooks
  | access update next => exact overlooks.1

/-- An access of the program in a state that others made, and the same access
in the state without them. -/
theorem Overlooks.step (overlooks : program.Overlooks env post state)
    (same : env.same state current) {last : Program σ φ α × σ}
    (h : Step (program, current) last) :
    ∃ after, Step (program, state) (last.1, after) ∧
      last.1.Overlooks env post after ∧ env.same after last.2 := by
  cases h with
  | access update next =>
      obtain ⟨_, hsame, rest⟩ := overlooks
      obtain ⟨hnext, hupdate⟩ := hsame current same
      rw [hnext]
      exact ⟨update state, .access update next state, rest, hupdate⟩

theorem Overlooks.weaken {weaker : α → σ → Prop}
    (overlooks : program.Overlooks env post state)
    (h : ∀ value after, post value after → weaker value after) :
    program.Overlooks env weaker state := by
  induction program generalizing state with
  | ret value => exact ⟨overlooks.1, h value state overlooks.2⟩
  | fail fault => exact overlooks
  | access update next ih =>
      exact ⟨overlooks.1, overlooks.2.1, ih state overlooks.2.2⟩

theorem Overlooks.ended (overlooks : program.Overlooks env post state) :
    program.Overlooks env (fun value after => post value after ∧
      env.always after ∧ program.run state = .ok (value, after)) state := by
  induction program generalizing state with
  | ret value => exact ⟨overlooks.1, overlooks.2, overlooks.1, rfl⟩
  | fail fault => exact overlooks
  | access update next ih =>
      exact ⟨overlooks.1, overlooks.2.1, ih state overlooks.2.2⟩

theorem overlooks_pure {value : α} (halways : env.always state)
    (h : post value state) :
    (pure value : Program σ φ α).Overlooks env post state :=
  ⟨halways, h⟩

theorem overlooks_read_bind {view : σ → β} {next : β → Program σ φ α}
    (halways : env.always state)
    (hview : ∀ other, env.same state other → view other = view state)
    (rest : (next (view state)).Overlooks env post state) :
    (read view >>= next).Overlooks env post state :=
  ⟨halways, fun other same => ⟨congrArg next (hview other same), same⟩, rest⟩

theorem overlooks_write_bind {update : σ → σ} {next : Unit → Program σ φ α}
    (halways : env.always state)
    (hsame : ∀ other, env.same state other →
      env.same (update state) (update other))
    (rest : (next ()).Overlooks env post (update state)) :
    (write update >>= next).Overlooks env post state :=
  ⟨halways, fun other same => ⟨rfl, hsame other same⟩, rest⟩

theorem overlooks_bind {middle : α → σ → Prop} {post : β → σ → Prop}
    {next : α → Program σ φ β}
    (first : program.Overlooks env middle state)
    (rest : ∀ value after, middle value after →
      (next value).Overlooks env post after) :
    (program >>= next).Overlooks env post state := by
  change (program.bind next).Overlooks env post state
  induction program generalizing state with
  | ret value => exact rest value state first.2
  | fail fault => exact first
  | access update following ih =>
      refine ⟨first.1, fun other same => ?_, ih state first.2.2⟩
      obtain ⟨hnext, hupdate⟩ := first.2.1 other same
      exact ⟨congrArg (·.bind next) hnext, hupdate⟩

theorem overlooks_ite {c : Prop} [Decidable c] {other : Program σ φ α}
    (h : c → program.Overlooks env post state)
    (h' : ¬ c → other.Overlooks env post state) :
    (if c then program else other).Overlooks env post state := by
  by_cases hc : c
  · rw [if_pos hc]
    exact h hc
  · rw [if_neg hc]
    exact h' hc

theorem overlooks_whileLoop {exhausted : φ} {body : β → Program σ φ (β ⊕ γ)}
    {invariant : β → σ → Prop} {post : γ → σ → Prop}
    (halways : ∀ value state, invariant value state → env.always state)
    (hbody : ∀ value state, invariant value state →
      (body value).Overlooks env (fun result after =>
        match result with
        | .inl next => invariant next after
        | .inr left => post left after) state)
    {value : β} (h : invariant value state) (budget : Nat) :
    (whileLoop exhausted body budget value).Overlooks env post state := by
  induction budget generalizing value state with
  | zero => exact halways value state h
  | succ budget ih =>
      refine overlooks_bind (hbody value state h).ended ?_
      intro result after ⟨hresult, halways, _⟩
      cases result with
      | inl next => exact ih hresult
      | inr left => exact overlooks_pure halways hresult

theorem overlooks_zoom {inner : Interference σ} {outer : Disturbance τ}
    {get : τ → σ} {put : σ → τ → τ} {whole : τ}
    (guarded : program.Guarded inner post (get whole))
    (hgetPut : ∀ part whole, get (put part whole) = part)
    (hget : ∀ state other, outer.same state other → get other = get state)
    (hput : ∀ part state other, outer.same state other →
      outer.same (put part state) (put part other))
    (halways : ∀ state, inner.invariant (get state) → outer.always state) :
    (program.zoom get put).Overlooks outer
      (fun value after => post value (get after)) whole := by
  induction program generalizing whole with
  | ret value =>
      obtain ⟨hinvariant, hpost⟩ := guarded _ (inner.rely_refl _)
      exact ⟨halways whole hinvariant, hpost⟩
  | fail fault => exact halways whole (guarded _ (inner.rely_refl _))
  | access update next ih =>
      obtain ⟨hinvariant, _, rest⟩ := guarded _ (inner.rely_refl _)
      refine ⟨halways whole hinvariant, fun other same => ?_, ?_⟩
      · simp only [hget whole other same]
        exact ⟨trivial, hput _ whole other same⟩
      · apply ih (get whole)
        rw [hgetPut]
        exact rest

end

end Program

end Planetoid
