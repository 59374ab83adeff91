import Planetoid.Base.Program

namespace Planetoid.Program

/-! Programs that do not depend on a part of the state. -/

section

variable {σ φ α β γ : Type} {program : Program σ φ α} {change : σ → σ}

/-- The program does the same before and after `change`. -/
def Commutes (change : σ → σ) : Program σ φ α → Prop
  | .ret _ => True
  | .fail _ => True
  | .access update next => ∀ state,
      update (change state) = change (update state) ∧
        next (change state) = next state ∧ (next state).Commutes change

theorem Commutes.run (commutes : program.Commutes change) (state : σ) :
    program.run (change state) =
      (program.run state).map fun result => (result.1, change result.2) := by
  induction program generalizing state with
  | ret value => rfl
  | fail fault => rfl
  | access update next ih =>
      obtain ⟨hupdate, hnext, hrest⟩ := commutes state
      rw [run_access, run_access, hupdate, hnext]
      exact ih state hrest (update state)

theorem Commutes.run_eq_ok (commutes : program.Commutes change)
    {state after : σ} {value : α}
    (h : program.run (change state) = .ok (value, after)) :
    ∃ unchanged, program.run state = .ok (value, unchanged) ∧
      after = change unchanged := by
  rw [commutes.run] at h
  cases hrun : program.run state with
  | error fault =>
      rw [hrun] at h
      cases h
  | ok result =>
      rw [hrun] at h
      cases h
      exact ⟨result.2, rfl, rfl⟩

theorem commutes_bind {next : α → Program σ φ β}
    (first : program.Commutes change)
    (rest : ∀ value, (next value).Commutes change) :
    (program >>= next).Commutes change := by
  change (program.bind next).Commutes change
  induction program with
  | ret value => exact rest value
  | fail fault => exact trivial
  | access update following ih =>
      intro state
      obtain ⟨hupdate, hnext, hfollowing⟩ := first state
      exact ⟨hupdate, congrArg (·.bind next) hnext, ih state hfollowing⟩

theorem commutes_pure (value : α) :
    (pure value : Program σ φ α).Commutes change :=
  trivial

theorem commutes_read {view : σ → α}
    (h : ∀ state, view (change state) = view state) :
    (read view : Program σ φ α).Commutes change :=
  fun state => ⟨rfl, congrArg ret (h state), trivial⟩

theorem commutes_write {update : σ → σ}
    (h : ∀ state, update (change state) = change (update state)) :
    (write update : Program σ φ Unit).Commutes change :=
  fun state => ⟨h state, rfl, trivial⟩

theorem commutes_whileLoop {exhausted : φ} {body : β → Program σ φ (β ⊕ γ)}
    (hbody : ∀ value, (body value).Commutes change) (budget : Nat)
    (value : β) :
    (whileLoop exhausted body budget value).Commutes change := by
  induction budget generalizing value with
  | zero => exact trivial
  | succ budget ih =>
      refine commutes_bind (hbody value) fun result => ?_
      cases result with
      | inl next => exact ih next
      | inr left => exact trivial

end

end Planetoid.Program
