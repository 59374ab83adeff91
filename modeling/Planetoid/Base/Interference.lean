import Planetoid.Base.Program

namespace Planetoid

/-! Programs whose accesses are interleaved with steps of others. -/

/-- What others do between two accesses of a program, and what each access
keeps. -/
structure Interference (σ : Type) where
  rely : σ → σ → Prop
  agree : σ → σ → Prop
  similar : σ → σ → Prop
  writes : σ → σ → Prop
  invariant : σ → Prop
  rely_refl : ∀ state, rely state state
  rely_trans : ∀ {first second third}, rely first second →
    rely second third → rely first third
  agree_equivalence : Equivalence agree
  agree_of_rely : ∀ {before after}, rely before after → agree before after
  similar_of_agree : ∀ {first second}, agree first second →
    similar first second

namespace Program

section

variable {σ φ α β γ : Type} {env : Interference σ}

structure Allowed (env : Interference σ) (update : σ → σ)
    (next : σ → Program σ φ α) : Prop where
  next : ∀ first second, env.similar first second → next second = next first
  similar : ∀ first second, env.similar first second →
    env.similar (update first) (update second)
  agree : ∀ first second, env.agree first second →
    env.agree (update first) (update second)
  writes : ∀ state, env.writes state (update state)

/-- Every state that the program meets from `state` on satisfies the
invariant, every access is allowed, and the last state satisfies `post`. -/
def Guarded (env : Interference σ) (post : α → σ → Prop) :
    Program σ φ α → σ → Prop
  | .ret value, state => ∀ current, env.rely state current →
      env.invariant current ∧ post value current
  | .fail _, state => ∀ current, env.rely state current →
      env.invariant current
  | .access update next, state => ∀ current, env.rely state current →
      env.invariant current ∧ Allowed env update next ∧
        Guarded env post (next current) (update current)

variable {post : α → σ → Prop} {program : Program σ φ α} {state : σ}

theorem Guarded.rely (guarded : program.Guarded env post state) {after : σ}
    (h : env.rely state after) : program.Guarded env post after := by
  cases program with
  | ret value =>
      exact fun current hcurrent => guarded current (env.rely_trans h hcurrent)
  | fail fault =>
      exact fun current hcurrent => guarded current (env.rely_trans h hcurrent)
  | access update next =>
      exact fun current hcurrent => guarded current (env.rely_trans h hcurrent)

theorem Guarded.invariant (guarded : program.Guarded env post state) :
    env.invariant state := by
  cases program with
  | ret value => exact (guarded state (env.rely_refl state)).1
  | fail fault => exact guarded state (env.rely_refl state)
  | access update next => exact (guarded state (env.rely_refl state)).1

theorem Guarded.weaken {weaker : α → σ → Prop}
    (guarded : program.Guarded env post state)
    (h : ∀ value after, post value after → weaker value after) :
    program.Guarded env weaker state := by
  induction program generalizing state with
  | ret value =>
      intro current hcurrent
      obtain ⟨hinvariant, hpost⟩ := guarded current hcurrent
      exact ⟨hinvariant, h _ _ hpost⟩
  | fail fault => exact guarded
  | access update next ih =>
      intro current hcurrent
      obtain ⟨hinvariant, allowed, rest⟩ := guarded current hcurrent
      exact ⟨hinvariant, allowed, ih current rest⟩

theorem guarded_pure {value : α}
    (h : ∀ current, env.rely state current →
      env.invariant current ∧ post value current) :
    (pure value : Program σ φ α).Guarded env post state := h

theorem guarded_bind {middle : α → σ → Prop} {post : β → σ → Prop}
    {next : α → Program σ φ β} (first : program.Guarded env middle state)
    (rest : ∀ value after, middle value after →
      (next value).Guarded env post after) :
    (program >>= next).Guarded env post state := by
  change (program.bind next).Guarded env post state
  induction program generalizing state with
  | ret value => exact rest value state (first state (env.rely_refl state)).2
  | fail fault => exact first
  | access update following ih =>
      intro current hcurrent
      obtain ⟨hinvariant, allowed, guarded⟩ := first current hcurrent
      refine ⟨hinvariant, ⟨?_, allowed.similar, allowed.agree,
        allowed.writes⟩, ih current guarded⟩
      intro before other hother
      simp only [allowed.next before other hother]

/-- A program ends where it ends when nothing interrupts it. -/
theorem Guarded.run {value : α} {after : σ}
    (guarded : program.Guarded env post state)
    (h : program.run state = .ok (value, after)) : post value after := by
  induction program generalizing state with
  | ret result =>
      cases h
      exact (guarded _ (env.rely_refl _)).2
  | fail fault => cases h
  | access update next ih =>
      exact ih state (guarded state (env.rely_refl state)).2.2 h

theorem Guarded.ends {value : α} {undisturbed after : σ}
    (guarded : program.Guarded env post state)
    (hagree : env.agree undisturbed state)
    (h : program.run undisturbed = .ok (value, after)) :
    program.Guarded env
      (fun result last => post result last ∧ result = value ∧
        env.agree after last) state := by
  induction program generalizing state undisturbed with
  | ret result =>
      intro current hcurrent
      obtain ⟨hinvariant, hpost⟩ := guarded current hcurrent
      cases h
      exact ⟨hinvariant, hpost, rfl,
        env.agree_equivalence.trans hagree (env.agree_of_rely hcurrent)⟩
  | fail fault => cases h
  | access update next ih =>
      intro current hcurrent
      obtain ⟨hinvariant, allowed, rest⟩ := guarded current hcurrent
      have hsame : env.agree current undisturbed :=
        env.agree_equivalence.symm
          (env.agree_equivalence.trans hagree (env.agree_of_rely hcurrent))
      have hnext := allowed.next _ _ (env.similar_of_agree hsame)
      refine ⟨hinvariant, allowed, ih current rest
        (env.agree_equivalence.symm (allowed.agree _ _ hsame)) ?_⟩
      rw [← hnext]
      exact h

theorem Guarded.step {last : Program σ φ α × σ}
    (guarded : program.Guarded env post state)
    (h : Step (program, state) last) : last.1.Guarded env post last.2 := by
  cases h
  exact (guarded state (env.rely_refl state)).2.2

theorem guarded_forRange {invariant : Nat → β → σ → Prop}
    {post : β ⊕ γ → σ → Prop} {body : Nat → β → Program σ φ (β ⊕ γ)}
    {start count : Nat}
    (hbody : ∀ index value state, index < start + count →
      invariant index value state →
      (body index value).Guarded env (fun result after =>
        match result with
        | .inl next => invariant (index + 1) next after
        | .inr left => post (.inr left) after) state)
    (hpost : ∀ value state, invariant (start + count) value state →
      ∀ current, env.rely state current →
        env.invariant current ∧ post (.inl value) current)
    (hleft : ∀ left state, post (.inr left) state →
      ∀ current, env.rely state current →
        env.invariant current ∧ post (.inr left) current)
    {value : β} (h : invariant start value state) :
    (forRange body start count value).Guarded env post state := by
  induction count generalizing start value state with
  | zero => exact hpost value state h
  | succ count ih =>
      have hplace : start + (count + 1) = start + 1 + count := by omega
      refine guarded_bind (hbody start value state (by omega) h) ?_
      intro result after hresult
      cases result with
      | inl next =>
          rw [hplace] at hbody hpost
          exact ih hbody hpost hresult
      | inr left => exact hleft left after hresult

theorem guarded_forEach {invariant : Nat → σ → Prop}
    {body : Nat → Program σ φ Unit} {start count : Nat}
    (hbody : ∀ index state, index < count → invariant index state →
      (body (start + index)).Guarded env
        (fun _ after => invariant (index + 1) after) state)
    (hlast : ∀ state, invariant count state →
      ∀ current, env.rely state current →
        env.invariant current ∧ invariant count current)
    (h : invariant 0 state) :
    (forEach body start count).Guarded env
      (fun _ after => invariant count after) state := by
  induction count generalizing start state invariant with
  | zero => exact hlast state h
  | succ count ih =>
      refine guarded_bind (hbody 0 state (Nat.succ_pos count) h) ?_
      intro _ after hafter
      refine @ih after (fun index state => invariant (index + 1) state)
        (start + 1) ?_ hlast hafter
      intro index state hindex hstate
      have hnext := hbody (index + 1) state (Nat.succ_lt_succ hindex) hstate
      have hplace : start + (index + 1) = start + 1 + index := by omega
      rw [hplace] at hnext
      exact hnext

end

end Program

end Planetoid
