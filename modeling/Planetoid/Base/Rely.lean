import Planetoid.Base.Program
import Planetoid.Base.Runs

namespace Planetoid

/-! Programs beside something else that changes their state. -/

/-- What happens to the state between two accesses of a program, and what
holds when an access comes. -/
structure Environment (σ : Type) where
  rely : σ → σ → Prop
  meets : σ → Prop
  rely_refl : ∀ state, rely state state
  rely_trans : ∀ {first second third}, rely first second →
    rely second third → rely first third

inductive Turn where
  | program
  | environment
  deriving DecidableEq

namespace Program

section

variable {σ τ φ α β γ : Type} {env : Environment σ} {always : σ → Prop}
  {failed : φ → Prop} {post : α → σ → Prop} {program : Program σ φ α} {state : σ}

/-- Whatever the environment does, `always` holds at all times, and the program
ends in a state that satisfies `post`, or with a fault that satisfies
`failed`. -/
def Withstands (env : Environment σ) (always : σ → Prop) (failed : φ → Prop)
    (post : α → σ → Prop) : Program σ φ α → σ → Prop
  | .ret value, state => ∀ current, env.rely state current →
      always current ∧ post value current
  | .fail fault, state => ∀ current, env.rely state current →
      always current ∧ failed fault
  | .access update next, state => ∀ current, env.rely state current →
      always current ∧ (env.meets current →
        Withstands env always failed post (next current) (update current))

theorem Withstands.rely
    (withstands : program.Withstands env always failed post state)
    {after : σ} (h : env.rely state after) :
    program.Withstands env always failed post after := by
  cases program with
  | ret value =>
      exact fun current hcurrent => withstands current (env.rely_trans h hcurrent)
  | fail fault =>
      exact fun current hcurrent => withstands current (env.rely_trans h hcurrent)
  | access update next =>
      exact fun current hcurrent => withstands current (env.rely_trans h hcurrent)

theorem Withstands.now
    (withstands : program.Withstands env always failed post state) :
    always state := by
  cases program with
  | ret value => exact (withstands state (env.rely_refl state)).1
  | fail fault => exact (withstands state (env.rely_refl state)).1
  | access update next => exact (withstands state (env.rely_refl state)).1

theorem withstands_pure {value : α}
    (h : ∀ current, env.rely state current →
      always current ∧ post value current) :
    (pure value : Program σ φ α).Withstands env always failed post state := h

theorem withstands_fail {fault : φ}
    (h : ∀ current, env.rely state current → always current)
    (hfailed : failed fault) :
    (fail fault : Program σ φ α).Withstands env always failed post state :=
  fun current hcurrent => ⟨h current hcurrent, hfailed⟩

theorem withstands_bind {middle : α → σ → Prop} {post : β → σ → Prop}
    {next : α → Program σ φ β}
    (first : program.Withstands env always failed middle state)
    (rest : ∀ value after,
      (ret value : Program σ φ α).Withstands env always failed middle after →
        (next value).Withstands env always failed post after) :
    (program >>= next).Withstands env always failed post state := by
  change (program.bind next).Withstands env always failed post state
  induction program generalizing state with
  | ret value => exact rest value state first
  | fail fault => exact first
  | access update following ih =>
      intro current hcurrent
      obtain ⟨halways, goesOn⟩ := first current hcurrent
      exact ⟨halways, fun hmeets => ih current (goesOn hmeets)⟩

theorem withstands_read_bind {view : σ → α} {next : α → Program σ φ β}
    {post : β → σ → Prop}
    (h : ∀ current, env.rely state current → always current ∧
      (env.meets current →
        (next (view current)).Withstands env always failed post current)) :
    (read view >>= next).Withstands env always failed post state := h

theorem withstands_write {update : σ → σ} {post : Unit → σ → Prop}
    (h : ∀ current, env.rely state current → always current ∧
      (env.meets current → ∀ after, env.rely (update current) after →
        always after ∧ post () after)) :
    (write update : Program σ φ Unit).Withstands env always failed post
      state := h

theorem Withstands.weaken {weaker : α → σ → Prop}
    (withstands : program.Withstands env always failed post state)
    (h : ∀ value after, post value after → weaker value after) :
    program.Withstands env always failed weaker state := by
  induction program generalizing state with
  | ret value =>
      intro current hcurrent
      obtain ⟨halways, hpost⟩ := withstands current hcurrent
      exact ⟨halways, h _ _ hpost⟩
  | fail fault => exact withstands
  | access update next ih =>
      intro current hcurrent
      obtain ⟨halways, goesOn⟩ := withstands current hcurrent
      exact ⟨halways, fun hmeets => ih current (goesOn hmeets)⟩

theorem Withstands.ended {value : α} {current : σ}
    (withstands : (ret value : Program σ φ α).Withstands env always failed post
      state)
    (h : env.rely state current) : post value current :=
  (withstands current h).2

/-- A loop with an invariant of the loop value and the state. An iteration
that goes on makes `left` smaller, or the loop may exhaust its budget. -/
theorem withstands_whileLoop {exhausted : φ} {post : γ → σ → Prop}
    {body : β → Program σ φ (β ⊕ γ)} (invariant : β → σ → Prop)
    (left : β → Nat)
    (hbody : ∀ value state, invariant value state →
      (body value).Withstands env always failed
        (fun result after => match result with
          | .inl next => invariant next after ∧
            (left next < left value ∨ failed exhausted)
          | .inr result => post result after) state)
    {budget : Nat} {value : β} (hbudget : left value < budget ∨ failed exhausted)
    (hvalue : ∀ current, env.rely state current →
      always current ∧ invariant value current) :
    (whileLoop exhausted body budget value).Withstands env always failed post
      state := by
  induction budget generalizing value state with
  | zero =>
      refine withstands_fail (fun current hcurrent => (hvalue current hcurrent).1)
        (hbudget.resolve_left (Nat.not_lt_zero _))
  | succ budget ih =>
      have hstate := (hvalue state (env.rely_refl state)).2
      refine withstands_bind (hbody value state hstate) fun result after h => ?_
      cases result with
      | inl next =>
          refine ih ?_ fun current hcurrent =>
            ⟨(h current hcurrent).1, (h.ended hcurrent).1⟩
          rcases (h.ended (env.rely_refl after)).2 with hless | hfailed
          · exact hbudget.imp_left fun hlast => by omega
          · exact .inr hfailed
      | inr result => exact h

theorem withstands_zoom {get : τ → σ} {put : σ → τ → τ} {env : Environment τ}
    {always : τ → Prop} {program : Program σ φ α} {whole : τ} {value : α}
    {after : σ}
    {post : α → τ → Prop} (invariant : τ → Prop)
    (hgetPut : ∀ part whole, get (put part whole) = part)
    (hput : ∀ part whole, invariant whole → invariant (put part whole))
    (hrely : ∀ before current, invariant before → env.rely before current →
      invariant current ∧ get current = get before)
    (halways : ∀ current, invariant current → always current)
    (hpost : ∀ current, invariant current → get current = after →
      post value current)
    (hrun : program.run (get whole) = .ok (value, after))
    (hwhole : invariant whole) :
    (program.zoom get put).Withstands env always failed post whole := by
  induction program generalizing whole with
  | ret result =>
      cases hrun
      intro current hcurrent
      obtain ⟨hinvariant, hget⟩ := hrely whole current hwhole hcurrent
      exact ⟨halways current hinvariant, hpost current hinvariant hget⟩
  | fail fault => cases hrun
  | access update next ih =>
      intro current hcurrent
      obtain ⟨hinvariant, hget⟩ := hrely whole current hwhole hcurrent
      refine ⟨halways current hinvariant, fun _ => ih (get current) ?_ ?_⟩
      · rw [hgetPut, hget]
        exact hrun
      · exact hput _ current hinvariant

theorem Withstands.zoom {get : τ → σ} {put : σ → τ → τ}
    {outer : Environment τ} {outside : τ → Prop} {program : Program σ φ α}
    {whole : τ}
    {result : α → τ → Prop}
    (withstands : program.Withstands env always failed post (get whole))
    (frame : τ → Prop)
    (hgetPut : ∀ part whole, get (put part whole) = part)
    (hput : ∀ part whole, frame whole → frame (put part whole))
    (hrely : ∀ before current, frame before → outer.rely before current →
      frame current ∧ env.rely (get before) (get current))
    (hmeets : ∀ current, outer.meets current → env.meets (get current))
    (halways : ∀ current, frame current → always (get current) →
      outside current)
    (hpost : ∀ value current, frame current → post value (get current) →
      result value current)
    (hwhole : frame whole) :
    (program.zoom get put).Withstands outer outside failed result whole := by
  induction program generalizing whole with
  | ret value =>
      intro current hcurrent
      obtain ⟨hframe, hpart⟩ := hrely whole current hwhole hcurrent
      obtain ⟨halways', hvalue⟩ := withstands _ hpart
      exact ⟨halways current hframe halways', hpost value current hframe hvalue⟩
  | fail fault =>
      intro current hcurrent
      obtain ⟨hframe, hpart⟩ := hrely whole current hwhole hcurrent
      obtain ⟨halways', hfault⟩ := withstands _ hpart
      exact ⟨halways current hframe halways', hfault⟩
  | access update next ih =>
      intro current hcurrent
      obtain ⟨hframe, hpart⟩ := hrely whole current hwhole hcurrent
      obtain ⟨halways', goesOn⟩ := withstands _ hpart
      refine ⟨halways current hframe halways', fun hmeet => ?_⟩
      refine ih (get current) ?_ (hput _ current hframe)
      rw [hgetPut]
      exact goesOn (hmeets current hmeet)

/-- The runs of a program and its environment, one step after the other. -/
def interleaved (env : Environment σ) (program : Program σ φ α) (start : σ) :
    System (Program σ φ α × σ) Turn where
  initial := fun state => state = (program, start)
  step := fun before turn after => match turn with
    | .program => Step before after
    | .environment => after.1 = before.1 ∧ env.rely before.2 after.2

def Met (env : Environment σ) (before : Program σ φ α × σ) (turn : Turn) :
    Prop :=
  turn = .program → env.meets before.2

theorem Withstands.reachable
    (withstands : program.Withstands env always failed post state)
    {reached : Program σ φ α × σ}
    (reachable : (interleaved env program state).Reachable (Met env) reached) :
    reached.1.Withstands env always failed post reached.2 := by
  refine @System.Reachable.holds _ _ _ _ (fun reached : Program σ φ α × σ =>
    reached.1.Withstands env always failed post reached.2) _ reachable ?_ ?_
  · rintro _ rfl
    exact withstands
  · rintro before turn after h meets step
    cases turn with
    | program =>
        cases step with
        | access update next current =>
            exact (h current (env.rely_refl current)).2 (meets rfl)
    | environment =>
        obtain ⟨hsame, hrely⟩ := step
        rw [hsame]
        exact h.rely hrely

/-- The program on its own, if it may make its accesses whenever `always`
holds. -/
theorem Withstands.run
    (withstands : program.Withstands env always failed post state)
    (hmeets : ∀ current, always current → env.meets current) :
    (∃ value after, program.run state = .ok (value, after) ∧
        post value after) ∨
      ∃ fault, program.run state = .error fault ∧ failed fault := by
  induction program generalizing state with
  | ret value =>
      exact .inl ⟨value, state, rfl, withstands.ended (env.rely_refl state)⟩
  | fail fault =>
      exact .inr ⟨fault, rfl, (withstands state (env.rely_refl state)).2⟩
  | access update next ih =>
      obtain ⟨halways, goesOn⟩ := withstands state (env.rely_refl state)
      exact ih state (goesOn (hmeets state halways))

theorem Withstands.reachable_of_run
    (withstands : program.Withstands env always failed post state)
    (hmeets : ∀ current, always current → env.meets current) {value : α}
    {after : σ} (h : program.run state = .ok (value, after)) :
    (interleaved env program state).Reachable (Met env) (.ret value, after) := by
  have steps := steps_ret h
  generalize (ret value, after) = last at steps ⊢
  induction steps with
  | refl => exact .initial rfl
  | tail _ step ih =>
      rename_i before _ _
      have meets : Met env before .program := fun _ =>
        hmeets _ (withstands.reachable ih).now
      exact ih.step meets step

end

end Program

end Planetoid
