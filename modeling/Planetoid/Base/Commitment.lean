import Planetoid.Base.Assertions

namespace Planetoid.Program

/-! Programs that others may interrupt up to one access, by which they commit
to what they do, and that then go on undisturbed. -/

/-- A program that nothing interrupts meets `during` until it ends, and then
it satisfies `post`. -/
def Follows (during : σ → Prop) (post : α → σ → Prop) :
    Program σ φ α → σ → Prop
  | .ret value, state => post value state
  | .fail _, state => during state
  | .access update next, state =>
      during state ∧ (next state).Follows during post (update state)

section

variable {σ φ α β : Type} {program : Program σ φ α} {during : σ → Prop}
  {post : α → σ → Prop} {state : σ}

theorem Follows.step (follows : program.Follows during post state)
    {last : Program σ φ α × σ} (h : Step (program, state) last) :
    last.1.Follows during post last.2 := by
  cases h
  exact follows.2

theorem follows_bind {middle : α → σ → Prop} {post : β → σ → Prop}
    {next : α → Program σ φ β} (first : program.Follows during middle state)
    (rest : ∀ value after, middle value after →
      (next value).Follows during post after) :
    (program >>= next).Follows during post state := by
  change (program.bind next).Follows during post state
  induction program generalizing state with
  | ret value => exact rest value state first
  | fail fault => exact first
  | access update following ih => exact ⟨first.1, ih state first.2⟩

theorem Follows.ends_with {weaker : α → σ → Prop}
    (follows : program.Follows during weaker state)
    (ends : program.Ends post state) : program.Follows during post state := by
  induction program generalizing state with
  | ret value => exact ends
  | fail fault => exact follows
  | access update next ih => exact ⟨follows.1, ih state follows.2 ends⟩

theorem Keeps.follows (keeps : program.Keeps during)
    (ends : program.Ends post state) (h : during state) :
    program.Follows during post state := by
  have upholds := keeps state h
  clear keeps
  induction program generalizing state with
  | ret value => exact ends
  | fail fault => exact h
  | access update next ih =>
      obtain ⟨hupdate, hnext⟩ := upholds state h
      exact ⟨h, ih state ends hupdate hnext⟩

end

/-- What a program keeps up to its commitment, and how it goes on from there.
-/
structure Promise (σ α : Type) where
  invariant : σ → Prop
  prepares : σ → σ → Prop
  settled : σ → σ → Prop
  /-- From the state before the commitment to any later one but the last. -/
  during : σ → σ → Prop
  back : α → Prop
  /-- From the state before the commitment to the end of the program. -/
  post : σ → α → σ → Prop

section

variable {σ φ α β : Type} {promise : Promise σ α}

/-- What is left of a program that has committed itself in `state`. -/
structure Committed (promise : Promise σ α) (state : σ)
    (program : Program σ φ α) (current : σ) : Prop where
  settled : program.Respects promise.settled
  follows : program.Follows (promise.during state) (promise.post state)
    current

def Commits (promise : Promise σ α) : Program σ φ α → Prop
  | .ret value => promise.back value
  | .fail _ => True
  | .access update next => ∀ state, promise.invariant state →
      promise.prepares state (update state) ∧ (next state).Commits promise ∨
        Committed promise state (next state) (update state)

theorem Commits.step {program : Program σ φ α} {state : σ}
    (commits : program.Commits promise) (h : promise.invariant state)
    {last : Program σ φ α × σ} (step : Step (program, state) last) :
    promise.prepares state last.2 ∧ last.1.Commits promise ∨
      Committed promise state last.1 last.2 := by
  cases step
  exact commits state h

theorem Committed.step {program : Program σ φ α} {state current : σ}
    (committed : Committed promise state program current)
    {last : Program σ φ α × σ} (step : Step (program, current) last) :
    Committed promise state last.1 last.2 := by
  cases step
  exact ⟨(committed.settled current).2, committed.follows.2⟩

variable {program : Program σ φ β} {next : β → Program σ φ α}

theorem commits_bind (first : program.Respects promise.prepares)
    (rest : ∀ value, (next value).Commits promise) :
    (program >>= next).Commits promise := by
  change (program.bind next).Commits promise
  induction program with
  | ret value => exact rest value
  | fail fault => exact trivial
  | access update following ih =>
      intro state _
      obtain ⟨hupdate, hfollowing⟩ := first state
      exact .inl ⟨hupdate, ih state hfollowing⟩

end

/-! Programs whose first accesses may be made in one state or another. -/

/-- The first accesses make these updates, and what is left after them in
states with the invariant is always `last`. -/
def Opens (invariant : σ → Prop) :
    List (σ → σ) → Program σ φ α → Program σ φ α → Prop
  | [], program, last => program = last
  | made :: updates, .access update next, last => update = made ∧
      ∀ state, invariant state → (next state).Opens invariant updates last
  | _ :: _, _, _ => False

/-- `left` is what is left of the program after so many of the accesses with
which it opens. -/
structure Opened (invariant : σ → Prop) (updates : List (σ → σ))
    (program : Program σ φ α) (accesses : Nat) (left last : Program σ φ α) :
    Prop where
  bound : accesses ≤ updates.length
  whole : program.Opens invariant updates last
  left : left.Opens invariant (updates.drop accesses) last

section

variable {σ φ α : Type} {program left last : Program σ φ α}
  {invariant : σ → Prop} {updates : List (σ → σ)} {accesses : Nat} {state : σ}

theorem opens_nil (invariant : σ → Prop) (program : Program σ φ α) :
    program.Opens invariant [] program :=
  Eq.refl program

abbrev updated (updates : List (σ → σ)) (state : σ) : σ :=
  updates.foldl (fun current made => made current) state

theorem Opens.run (opens : program.Opens invariant updates last)
    (keeps : ∀ made, made ∈ updates → ∀ state, invariant state →
      invariant (made state)) (h : invariant state) :
    program.run state = last.run (updated updates state) := by
  induction updates generalizing program state with
  | nil => exact congrArg (fun program => program.run state) opens
  | cons made updates ih =>
      cases program with
      | ret value => exact opens.elim
      | fail fault => exact opens.elim
      | access update next =>
          obtain ⟨rfl, following⟩ := opens
          exact ih (following state h)
            (fun other hmem => keeps other (List.mem_cons_of_mem _ hmem))
            (keeps update List.mem_cons_self state h)

theorem Opens.opened (opens : program.Opens invariant updates last) :
    Opened invariant updates program 0 program last :=
  ⟨Nat.zero_le _, opens, opens⟩

theorem Opened.step (opened : Opened invariant updates program accesses left
    last) (more : accesses < updates.length) (h : invariant state)
    {next : Program σ φ α × σ} (step : Step (left, state) next) :
    Opened invariant updates program (accesses + 1) next.1 last ∧
      next.2 = updates[accesses] state := by
  obtain ⟨_, whole, opens⟩ := opened
  rw [List.drop_eq_getElem_cons more] at opens
  cases step
  obtain ⟨rfl, following⟩ := opens
  exact ⟨⟨more, whole, following state h⟩, rfl⟩

/-- The accesses that were made do not matter any more. -/
theorem Opened.run_eq (opened : Opened invariant updates program accesses left
    last) (keeps : ∀ made, made ∈ updates → ∀ state, invariant state →
      invariant (made state)) (h : invariant state)
    (same : updated (updates.drop accesses) state = updated updates state) :
    left.run state = program.run state := by
  have hleft := opened.left.run
    (fun made hmem => keeps made (List.mem_of_mem_drop hmem)) h
  rw [hleft, same]
  exact (opened.whole.run keeps h).symm

theorem Opened.ends (opened : Opened invariant updates program accesses left
    last) (h : updates.length ≤ accesses) : left = last := by
  have opens := opened.left
  rw [List.drop_eq_nil_of_le h] at opens
  exact opens

end

end Planetoid.Program
