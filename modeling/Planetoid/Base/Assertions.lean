import Planetoid.Base.Program

namespace Planetoid.Program

/-! What holds of a program when it ends, and after each of its accesses. -/

section

variable {σ τ φ α β γ : Type} {program : Program σ φ α}

def Ends (post : α → σ → Prop) : Program σ φ α → σ → Prop
  | .ret value, state => post value state
  | .fail _, _ => True
  | .access update next, state => (next state).Ends post (update state)

variable {post weaker : α → σ → Prop} {state : σ}

theorem ends_iff : program.Ends post state ↔
    ∀ value after, program.run state = .ok (value, after) →
      post value after := by
  induction program generalizing state with
  | ret value =>
      constructor
      · rintro h _ _ ⟨⟩
        exact h
      · exact fun h => h value state rfl
  | fail fault => simp [Ends]
  | access update next ih => exact ih state

theorem Ends.of_run (ends : program.Ends post state) {value : α} {after : σ}
    (h : program.run state = .ok (value, after)) : post value after :=
  ends_iff.mp ends value after h

theorem ends_of_run {value : α} {after : σ}
    (hrun : program.run state = .ok (value, after)) (h : post value after) :
    program.Ends post state := by
  rw [ends_iff]
  intro other last hother
  cases hrun.symm.trans hother
  exact h

theorem Ends.weaken (ends : program.Ends post state)
    (h : ∀ value after, post value after → weaker value after) :
    program.Ends weaker state :=
  ends_iff.mpr fun value after ended => h value after (ends.of_run ended)

theorem Ends.step (ends : program.Ends post state)
    {last : Program σ φ α × σ} (h : Step (program, state) last) :
    last.1.Ends post last.2 := by
  cases h
  exact ends

theorem ends_bind {post : β → σ → Prop} {next : α → Program σ φ β} :
    (program >>= next).Ends post state ↔
      program.Ends (fun value after => (next value).Ends post after)
        state := by
  change (program.bind next).Ends post state ↔ _
  induction program generalizing state with
  | ret value => rfl
  | fail fault => rfl
  | access update rest ih => exact ih state

@[simp] theorem ends_pure (value : α) :
    (pure value : Program σ φ α).Ends post state ↔ post value state :=
  Iff.rfl

@[simp] theorem ends_read (view : σ → α) :
    (read view : Program σ φ α).Ends post state ↔ post (view state) state :=
  Iff.rfl

@[simp] theorem ends_write (update : σ → σ) {post : Unit → σ → Prop} :
    (write update : Program σ φ Unit).Ends post state ↔
      post () (update state) :=
  Iff.rfl

theorem ends_ite {c : Prop} [Decidable c] {other : Program σ φ α}
    (h : c → program.Ends post state) (h' : ¬ c → other.Ends post state) :
    (if c then program else other).Ends post state := by
  by_cases hc : c
  · rw [if_pos hc]
    exact h hc
  · rw [if_neg hc]
    exact h' hc

theorem ends_whileLoop {exhausted : φ} {body : β → Program σ φ (β ⊕ γ)}
    {invariant : β → σ → Prop} {post : γ → σ → Prop}
    (hbody : ∀ value state, invariant value state →
      (body value).Ends (fun result after =>
        match result with
        | .inl next => invariant next after
        | .inr left => post left after) state)
    {value : β} (h : invariant value state) (budget : Nat) :
    (whileLoop exhausted body budget value).Ends post state := by
  induction budget generalizing value state with
  | zero => exact trivial
  | succ budget ih =>
      refine ends_bind.mpr ((hbody value state h).weaken ?_)
      intro result after hresult
      cases result with
      | inl next => exact ih hresult
      | inr left => exact hresult

theorem ends_zoom {get : τ → σ} {put : σ → τ → τ}
    (hgetPut : ∀ part whole, get (put part whole) = part)
    (hputPut : ∀ first second whole,
      put first (put second whole) = put first whole)
    (hputGet : ∀ whole, put (get whole) whole = whole)
    {post : α → τ → Prop} {whole : τ} :
    (program.zoom get put).Ends post whole ↔
      program.Ends (fun value after => post value (put after whole))
        (get whole) := by
  simp only [ends_iff, run_zoom get put hgetPut hputPut hputGet]
  cases program.run (get whole) with
  | error fault => simp [Except.map]
  | ok result =>
      obtain ⟨value, after⟩ := result
      simp [Except.map]

end

section

variable {σ τ φ α β γ : Type} {program : Program σ φ α}
  {invariant : σ → Prop} {post : α → σ → Prop} {state : σ}

/-- Every access keeps the invariant, whatever others that keep it do before
the access, and the state after the last access satisfies `post`. -/
def Upholds (invariant : σ → Prop) (post : α → σ → Prop) :
    Program σ φ α → σ → Prop
  | .ret value, state => post value state
  | .fail _, _ => True
  | .access update next, _ => ∀ state, invariant state →
      invariant (update state) ∧
        (next state).Upholds invariant post (update state)

theorem Upholds.step (upholds : program.Upholds invariant post state)
    {current : σ} (h : invariant current) {last : Program σ φ α × σ}
    (step : Step (program, current) last) :
    invariant last.2 ∧ last.1.Upholds invariant post last.2 := by
  cases step
  exact upholds current h

theorem Upholds.ends (upholds : program.Upholds invariant post state)
    (h : invariant state) :
    program.Ends (fun value after => post value after ∧ invariant after)
      state := by
  induction program generalizing state with
  | ret value => exact ⟨upholds, h⟩
  | fail fault => exact trivial
  | access update next ih =>
      obtain ⟨hupdate, hnext⟩ := upholds state h
      exact ih state hnext hupdate

theorem upholds_bind {post : β → σ → Prop} {middle : α → σ → Prop}
    {next : α → Program σ φ β}
    (first : program.Upholds invariant middle state)
    (rest : ∀ value after, middle value after →
      (next value).Upholds invariant post after) :
    (program >>= next).Upholds invariant post state := by
  change (program.bind next).Upholds invariant post state
  induction program generalizing state with
  | ret value => exact rest value state first
  | fail fault => exact trivial
  | access update following ih =>
      intro current hcurrent
      obtain ⟨hupdate, hnext⟩ := first current hcurrent
      exact ⟨hupdate, ih current hnext⟩

def Keeps (invariant : σ → Prop) (program : Program σ φ α) : Prop :=
  ∀ state, invariant state →
    program.Upholds invariant (fun _ after => invariant after) state

theorem Keeps.ends (keeps : program.Keeps invariant) (h : invariant state) :
    program.Ends (fun _ after => invariant after) state :=
  ((keeps state h).ends h).weaken fun _ _ hafter => hafter.2

theorem Keeps.ends_bind (keeps : program.Keeps invariant)
    (h : invariant state) {post : β → σ → Prop} {next : α → Program σ φ β}
    (rest : ∀ value after, invariant after → (next value).Ends post after) :
    (program >>= next).Ends post state :=
  Program.ends_bind.mpr ((keeps.ends h).weaken rest)

theorem keeps_bind {next : α → Program σ φ β}
    (first : program.Keeps invariant)
    (rest : ∀ value, (next value).Keeps invariant) :
    (program >>= next).Keeps invariant :=
  fun state h => upholds_bind (first state h) fun value => rest value

theorem keeps_pure (value : α) :
    (pure value : Program σ φ α).Keeps invariant :=
  fun _ h => h

theorem keeps_fail (fault : φ) :
    (fail fault : Program σ φ α).Keeps invariant :=
  fun _ _ => trivial

theorem keeps_read (view : σ → α) :
    (read view : Program σ φ α).Keeps invariant :=
  fun _ _ _ hcurrent => ⟨hcurrent, hcurrent⟩

theorem keeps_write {update : σ → σ}
    (h : ∀ state, invariant state → invariant (update state)) :
    (write update : Program σ φ Unit).Keeps invariant :=
  fun _ _ current hcurrent => ⟨h current hcurrent, h current hcurrent⟩

theorem keeps_ite {c : Prop} [Decidable c] {other : Program σ φ α}
    (h : program.Keeps invariant) (h' : other.Keeps invariant) :
    (if c then program else other).Keeps invariant := by
  by_cases hc : c
  · rwa [if_pos hc]
  · rwa [if_neg hc]

theorem keeps_whileLoop {exhausted : φ} {body : β → Program σ φ (β ⊕ γ)}
    (hbody : ∀ value, (body value).Keeps invariant) (budget : Nat)
    (value : β) : (whileLoop exhausted body budget value).Keeps invariant := by
  induction budget generalizing value with
  | zero => exact keeps_fail exhausted
  | succ budget ih =>
      refine keeps_bind (hbody value) ?_
      intro result
      cases result with
      | inl next => exact ih next
      | inr left => exact keeps_pure left

theorem keeps_forEach {body : Nat → Program σ φ Unit} {start count : Nat}
    (hbody : ∀ index, start ≤ index → index < start + count →
      (body index).Keeps invariant) :
    (forEach body start count).Keeps invariant := by
  induction count generalizing start with
  | zero => exact keeps_pure ()
  | succ count ih =>
      refine keeps_bind (hbody start (Nat.le_refl start) (by omega)) ?_
      intro _
      exact ih fun index hlow hhigh => hbody index (by omega) (by omega)

theorem keeps_zoom {get : τ → σ} {put : σ → τ → τ} {whole : τ → Prop}
    (keeps : program.Keeps invariant)
    (hget : ∀ state, whole state → invariant (get state))
    (hput : ∀ part state, whole state → invariant part →
      whole (put part state)) :
    (program.zoom get put).Keeps whole := by
  have upholds : ∀ (part : σ) (state : τ),
      program.Upholds invariant (fun _ after => invariant after) part →
        whole state → (program.zoom get put).Upholds whole
          (fun _ after => whole after) state := by
    clear keeps
    induction program with
    | ret value => exact fun _ _ _ hstate => hstate
    | fail fault => exact fun _ _ _ _ => trivial
    | access update next ih =>
        intro _ _ upholds _ current hcurrent
        obtain ⟨hupdate, hnext⟩ := upholds (get current) (hget current hcurrent)
        have hafter := hput _ current hcurrent hupdate
        exact ⟨hafter, ih (get current) _ _ hnext hafter⟩
  exact fun state hstate => upholds (get state) state
    (keeps (get state) (hget state hstate)) hstate

end

section

variable {σ τ φ α β γ : Type} {program : Program σ φ α}
  {relation : σ → σ → Prop}

def Respects (relation : σ → σ → Prop) : Program σ φ α → Prop
  | .ret _ => True
  | .fail _ => True
  | .access update next => ∀ state,
      relation state (update state) ∧ (next state).Respects relation

theorem Respects.step (respects : program.Respects relation) {state : σ}
    {last : Program σ φ α × σ} (step : Step (program, state) last) :
    relation state last.2 ∧ last.1.Respects relation := by
  cases step
  exact respects state

theorem Respects.weaken {weaker : σ → σ → Prop}
    (respects : program.Respects relation)
    (h : ∀ before after, relation before after → weaker before after) :
    program.Respects weaker := by
  induction program with
  | ret value => exact trivial
  | fail fault => exact trivial
  | access update next ih =>
      intro state
      obtain ⟨hupdate, hnext⟩ := respects state
      exact ⟨h _ _ hupdate, ih state hnext⟩

theorem Respects.keeps {invariant : σ → Prop}
    (respects : program.Respects relation)
    (h : ∀ before after, relation before after → invariant before →
      invariant after) : program.Keeps invariant := by
  induction program with
  | ret value => exact fun _ hstate => hstate
  | fail fault => exact fun _ _ => trivial
  | access update next ih =>
      intro _ _ current hcurrent
      obtain ⟨hupdate, hnext⟩ := respects current
      have hafter := h _ _ hupdate hcurrent
      exact ⟨hafter, ih current hnext _ hafter⟩

theorem respects_bind {next : α → Program σ φ β}
    (first : program.Respects relation)
    (rest : ∀ value, (next value).Respects relation) :
    (program >>= next).Respects relation := by
  change (program.bind next).Respects relation
  induction program with
  | ret value => exact rest value
  | fail fault => exact trivial
  | access update following ih =>
      intro state
      obtain ⟨hupdate, hnext⟩ := first state
      exact ⟨hupdate, ih state hnext⟩

theorem respects_pure (value : α) :
    (pure value : Program σ φ α).Respects relation :=
  trivial

theorem respects_read (refl : ∀ state, relation state state)
    (view : σ → α) : (read view : Program σ φ α).Respects relation :=
  fun state => ⟨refl state, trivial⟩

theorem respects_write {update : σ → σ}
    (h : ∀ state, relation state (update state)) :
    (write update : Program σ φ Unit).Respects relation :=
  fun state => ⟨h state, trivial⟩

theorem respects_whileLoop {exhausted : φ} {body : β → Program σ φ (β ⊕ γ)}
    (hbody : ∀ value, (body value).Respects relation) (budget : Nat)
    (value : β) :
    (whileLoop exhausted body budget value).Respects relation := by
  induction budget generalizing value with
  | zero => exact trivial
  | succ budget ih =>
      refine respects_bind (hbody value) fun result => ?_
      cases result with
      | inl next => exact ih next
      | inr left => exact trivial

theorem respects_zoom {get : τ → σ} {put : σ → τ → τ}
    {whole : τ → τ → Prop} (respects : program.Respects relation)
    (h : ∀ state part, relation (get state) part →
      whole state (put part state)) :
    (program.zoom get put).Respects whole := by
  induction program with
  | ret value => exact trivial
  | fail fault => exact trivial
  | access update next ih =>
      intro state
      obtain ⟨hupdate, hnext⟩ := respects (get state)
      exact ⟨h state _ hupdate, ih (get state) hnext⟩

end

end Planetoid.Program
