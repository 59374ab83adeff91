import Mathlib.Logic.Function.Basic
import Mathlib.Logic.Relation

namespace Planetoid

/-! Programs as sequences of single accesses to a shared state. -/

/-- A program over a state `σ` that ends with an `α` or with a fault `φ`.
`access update next` is one access: the program reads the state, the state is
updated, and the program goes on with what it read. -/
inductive Program (σ φ α : Type) where
  | ret (value : α)
  | fail (fault : φ)
  | access (update : σ → σ) (next : σ → Program σ φ α)

/-- What can go wrong in a program that follows pointers and loops. -/
inductive Fault where
  | nullDereference
  | useAfterFree
  | unmapped
  | budgetExhausted
  deriving DecidableEq, Repr

namespace Program

def bind : Program σ φ α → (α → Program σ φ β) → Program σ φ β
  | .ret value, next => next value
  | .fail fault, _ => .fail fault
  | .access update rest, next =>
      .access update fun state => (rest state).bind next

instance : Monad (Program σ φ) where
  pure := .ret
  bind := bind

def read (view : σ → α) : Program σ φ α :=
  .access id fun state => .ret (view state)

def write (update : σ → σ) : Program σ φ Unit :=
  .access update fun _ => .ret ()

def run : Program σ φ α → σ → Except φ (α × σ)
  | .ret value, state => .ok (value, state)
  | .fail fault, _ => .error fault
  | .access update rest, state => (rest state).run (update state)

/-- The same program over a larger state, of which it sees one part. -/
def zoom (get : τ → σ) (put : σ → τ → τ) :
    Program σ φ α → Program τ φ α
  | .ret value => .ret value
  | .fail fault => .fail fault
  | .access update rest =>
      .access (fun whole => put (update (get whole)) whole)
        fun whole => (rest (get whole)).zoom get put

/-- `for (i = start; i < start + count; i++)`: the body goes on with a new
loop value or leaves the loop. -/
def forRange (body : Nat → β → Program σ φ (β ⊕ γ)) :
    (start count : Nat) → β → Program σ φ (β ⊕ γ)
  | _, 0, value => .ret (.inl value)
  | start, count + 1, value => do
      match ← body start value with
      | .inl next => forRange body (start + 1) count next
      | .inr result => .ret (.inr result)

/-- `for (i = start; i < start + count; i++)` without a way out. -/
def forEach (body : Nat → Program σ φ Unit) :
    (start count : Nat) → Program σ φ Unit
  | _, 0 => .ret ()
  | start, count + 1 => do
      body start
      forEach body (start + 1) count

/-- `while (true)` with a budget of iterations, whose exhaustion is a fault. -/
def whileLoop (exhausted : φ) (body : β → Program σ φ (β ⊕ γ)) :
    (budget : Nat) → β → Program σ φ γ
  | 0, _ => .fail exhausted
  | budget + 1, value => do
      match ← body value with
      | .inl next => whileLoop exhausted body budget next
      | .inr result => .ret result

section Run

variable {σ φ α β γ τ : Type}

@[simp] theorem run_ret (value : α) (state : σ) :
    (ret value : Program σ φ α).run state = .ok (value, state) := rfl

@[simp] theorem run_pure (value : α) (state : σ) :
    (pure value : Program σ φ α).run state = .ok (value, state) := rfl

@[simp] theorem run_fail (fault : φ) (state : σ) :
    (fail fault : Program σ φ α).run state = .error fault := rfl

@[simp] theorem run_access (update : σ → σ) (next : σ → Program σ φ α)
    (state : σ) :
    (access update next).run state = (next state).run (update state) := rfl

@[simp] theorem run_read (view : σ → α) (state : σ) :
    (read view : Program σ φ α).run state = .ok (view state, state) := rfl

theorem run_read_eq {view : σ → α} {state : σ} {value : α}
    (h : view state = value) :
    (read view : Program σ φ α).run state = .ok (value, state) := by
  rw [run_read, h]

@[simp] theorem run_write (update : σ → σ) (state : σ) :
    (write update : Program σ φ Unit).run state =
      .ok ((), update state) := rfl

theorem run_bind (program : Program σ φ α) (next : α → Program σ φ β)
    (state : σ) :
    (program >>= next).run state =
      (program.run state).bind fun result => (next result.1).run result.2 := by
  change (program.bind next).run state = _
  induction program generalizing state with
  | ret value => rfl
  | fail fault => rfl
  | access update rest ih => exact ih state (update state)

theorem bind_bind (program : Program σ φ α) (next : α → Program σ φ β)
    (last : β → Program σ φ γ) :
    program >>= next >>= last =
      program >>= fun value => next value >>= last := by
  change (program.bind next).bind last =
    program.bind fun value => (next value).bind last
  induction program with
  | ret value => rfl
  | fail fault => rfl
  | access update rest ih =>
      unfold bind
      exact congrArg (access update) (funext ih)

theorem zoom_bind (get : τ → σ) (put : σ → τ → τ) (program : Program σ φ α)
    (next : α → Program σ φ β) :
    (program >>= next).zoom get put =
      program.zoom get put >>= fun value => (next value).zoom get put := by
  change (program.bind next).zoom get put =
    (program.zoom get put).bind fun value => (next value).zoom get put
  induction program with
  | ret value => rfl
  | fail fault => rfl
  | access update rest ih =>
      exact congrArg (access fun whole => put (update (get whole)) whole)
        (funext fun whole => ih (get whole))

@[simp] theorem run_read_bind (view : σ → α) (next : α → Program σ φ β)
    (state : σ) :
    (read view >>= next).run state = (next (view state)).run state := rfl

@[simp] theorem run_write_bind (update : σ → σ)
    (next : Unit → Program σ φ β) (state : σ) :
    (write update >>= next).run state = (next ()).run (update state) := rfl

@[simp] theorem run_pure_bind (value : α) (next : α → Program σ φ β)
    (state : σ) :
    ((pure value : Program σ φ α) >>= next).run state =
      (next value).run state := rfl

@[simp] theorem run_fail_bind (fault : φ) (next : α → Program σ φ β)
    (state : σ) :
    ((fail fault : Program σ φ α) >>= next).run state = .error fault := rfl

theorem run_bind_ok {program : Program σ φ α} {state after : σ} {value : α}
    (h : program.run state = .ok (value, after))
    (next : α → Program σ φ β) :
    (program >>= next).run state = (next value).run after := by
  rw [run_bind, h]
  rfl

theorem run_bind_error {program : Program σ φ α} {state : σ} {fault : φ}
    (h : program.run state = .error fault) (next : α → Program σ φ β) :
    (program >>= next).run state = .error fault := by
  rw [run_bind, h]
  rfl

theorem run_bind_eq_ok {program : Program σ φ α} {next : α → Program σ φ β}
    {state : σ} {result : β × σ} :
    (program >>= next).run state = .ok result ↔
      ∃ value middle, program.run state = .ok (value, middle) ∧
        (next value).run middle = .ok result := by
  rw [run_bind]
  cases h : program.run state with
  | error fault => simp [Except.bind]
  | ok pair =>
      obtain ⟨value, middle⟩ := pair
      constructor
      · exact fun ended => ⟨value, middle, rfl, ended⟩
      · rintro ⟨_, _, same, ended⟩
        cases same
        exact ended

@[simp] theorem run_ite (c : Prop) [Decidable c]
    (first second : Program σ φ α) (state : σ) :
    (if c then first else second).run state =
      if c then first.run state else second.run state := by
  split <;> rfl

theorem run_zoom (get : τ → σ) (put : σ → τ → τ)
    (hgetPut : ∀ part whole, get (put part whole) = part)
    (hputPut : ∀ first second whole,
      put first (put second whole) = put first whole)
    (hputGet : ∀ whole, put (get whole) whole = whole)
    (program : Program σ φ α) (whole : τ) :
    (program.zoom get put).run whole =
      (program.run (get whole)).map
        fun result => (result.1, put result.2 whole) := by
  induction program generalizing whole with
  | ret value => simp [zoom, Except.map, hputGet]
  | fail fault => rfl
  | access update rest ih =>
      simp only [zoom, run_access]
      rw [ih, hgetPut]
      simp [hputPut]

@[simp] theorem run_forRange_zero (body : Nat → β → Program σ φ (β ⊕ γ))
    (start : Nat) (value : β) (state : σ) :
    (forRange body start 0 value).run state =
      .ok (.inl value, state) := rfl

theorem run_forRange_next {body : Nat → β → Program σ φ (β ⊕ γ)}
    {start : Nat} {value next : β} {state after : σ}
    (h : (body start value).run state = .ok (.inl next, after))
    (count : Nat) :
    (forRange body start (count + 1) value).run state =
      (forRange body (start + 1) count next).run after := by
  rw [forRange, run_bind_ok h]

theorem run_forRange_leave {body : Nat → β → Program σ φ (β ⊕ γ)}
    {start : Nat} {value : β} {result : γ} {state after : σ}
    (h : (body start value).run state = .ok (.inr result, after))
    (count : Nat) :
    (forRange body start (count + 1) value).run state =
      .ok (.inr result, after) := by
  rw [forRange, run_bind_ok h]
  rfl

theorem run_forRange_find {body : Nat → Unit → Program σ φ (Unit ⊕ γ)}
    {found : Nat → Bool} {result : Nat → γ × σ} {state : σ}
    (hnext : ∀ index, found index = false →
      (body index ()).run state = .ok (.inl (), state))
    (hleave : ∀ index, found index = true →
      (body index ()).run state =
        .ok (.inr (result index).1, (result index).2))
    (start count : Nat) :
    (forRange body start count ()).run state =
      match (List.range' start count).find? found with
      | none => .ok (.inl (), state)
      | some index => .ok (.inr (result index).1, (result index).2) := by
  induction count generalizing start with
  | zero => rfl
  | succ count ih =>
      rw [List.range'_succ, List.find?_cons]
      cases hfound : found start with
      | true => exact run_forRange_leave (hleave start hfound) count
      | false => exact (run_forRange_next (hnext start hfound) count).trans (ih _)

theorem run_forEach {body : Nat → Program σ φ Unit} {states : Nat → σ}
    {start count : Nat}
    (h : ∀ index, index < count →
      (body (start + index)).run (states index) =
        .ok ((), states (index + 1))) :
    (forEach body start count).run (states 0) = .ok ((), states count) := by
  induction count generalizing start states with
  | zero => rfl
  | succ count ih =>
      have hfirst : (body start).run (states 0) = .ok ((), states 1) :=
        h 0 (Nat.succ_pos count)
      rw [forEach, run_bind_ok hfirst]
      apply @ih (fun index => states (index + 1)) (start + 1)
      intro index hindex
      have hnext := h (index + 1) (Nat.succ_lt_succ hindex)
      rwa [← Nat.add_assoc, Nat.add_right_comm] at hnext

theorem run_forEach_leads {body : Nat → Program σ φ Unit}
    {reached : Nat → σ → Prop} {start count : Nat} {state : σ}
    (h : ∀ index, start ≤ index → index < start + count →
      ∀ state, reached index state →
        ∃ after, (body index).run state = .ok ((), after) ∧
          reached (index + 1) after)
    (hstate : reached start state) :
    ∃ after, (forEach body start count).run state = .ok ((), after) ∧
      reached (start + count) after := by
  induction count generalizing start state with
  | zero => exact ⟨state, rfl, hstate⟩
  | succ count ih =>
      obtain ⟨middle, hfirst, hmiddle⟩ :=
        h start (Nat.le_refl start) (by omega) state hstate
      rw [forEach, run_bind_ok hfirst, Nat.add_comm count, ← Nat.add_assoc]
      apply ih _ hmiddle
      intro index hlow hhigh
      exact h index (Nat.le_of_succ_le hlow) (by omega)

theorem run_forEach_error {body : Nat → Program σ φ Unit}
    {states : Nat → σ} {start count failing : Nat} {fault : φ}
    (hfailing : failing < count)
    (h : ∀ index, index < failing →
      (body (start + index)).run (states index) =
        .ok ((), states (index + 1)))
    (failed : (body (start + failing)).run (states failing) =
      .error fault) :
    (forEach body start count).run (states 0) = .error fault := by
  induction failing generalizing start count states with
  | zero =>
      obtain ⟨count, rfl⟩ := Nat.exists_eq_add_of_lt hfailing
      rw [Nat.zero_add, forEach]
      exact run_bind_error failed _
  | succ failing ih =>
      obtain ⟨count, rfl⟩ : ∃ smaller, count = smaller + 1 :=
        Nat.exists_eq_succ_of_ne_zero (Nat.ne_zero_of_lt hfailing)
      have hfirst : (body start).run (states 0) = .ok ((), states 1) :=
        h 0 (Nat.succ_pos failing)
      rw [forEach, run_bind_ok hfirst]
      apply @ih (fun index => states (index + 1)) (start + 1) count
      · exact Nat.lt_of_succ_lt_succ hfailing
      · intro index hindex
        have hnext := h (index + 1) (Nat.succ_lt_succ hindex)
        rwa [← Nat.add_assoc, Nat.add_right_comm] at hnext
      · rwa [← Nat.add_assoc, Nat.add_right_comm] at failed

theorem run_forEach_fill {get : σ → Nat → α} {put : (Nat → α) → σ → σ}
    (hgetPut : ∀ part whole, get (put part whole) = part)
    (hputPut : ∀ first second whole,
      put first (put second whole) = put first whole)
    (hputGet : ∀ whole, put (get whole) whole = whole)
    {body : Nat → Program σ φ Unit} {start first count : Nat}
    {value : Nat → α}
    (h : ∀ index, index < count → ∀ state,
      (body (start + index)).run state = .ok ((),
        put (Function.update (get state) (first + index)
          (value (first + index))) state))
    (state : σ) :
    (forEach body start count).run state = .ok ((), put (fun index =>
      if first ≤ index ∧ index < first + count then value index
      else get state index) state) := by
  have hstart : put (fun index =>
      if first ≤ index ∧ index < first + 0 then value index
      else get state index) state = state := by
    have hsame : (fun index =>
        if first ≤ index ∧ index < first + 0 then value index
        else get state index) = get state := by
      funext index
      exact if_neg (by omega)
    rw [hsame, hputGet]
  rw [← hstart]
  have hloop := @run_forEach _ _ body (fun done => put (fun index =>
    if first ≤ index ∧ index < first + done then value index
    else get state index) state) start count
    (by
      intro index hindex
      rw [h index hindex, hgetPut, hputPut]
      congr 3
      funext other
      by_cases heq : other = first + index
      · subst other
        rw [Function.update_self, if_pos (by omega)]
      · have hin : (first ≤ other ∧ other < first + (index + 1)) ↔
            first ≤ other ∧ other < first + index := by omega
        rw [Function.update_of_ne heq]
        simp only [hin])
  rw [hstart] at hloop ⊢
  exact hloop

@[simp] theorem run_whileLoop_zero (exhausted : φ)
    (body : β → Program σ φ (β ⊕ γ)) (value : β) (state : σ) :
    (whileLoop exhausted body 0 value).run state = .error exhausted := rfl

theorem run_whileLoop_next {exhausted : φ}
    {body : β → Program σ φ (β ⊕ γ)} {value next : β} {state after : σ}
    (h : (body value).run state = .ok (.inl next, after)) (budget : Nat) :
    (whileLoop exhausted body (budget + 1) value).run state =
      (whileLoop exhausted body budget next).run after := by
  rw [whileLoop, run_bind_ok h]

theorem run_whileLoop_leave {exhausted : φ}
    {body : β → Program σ φ (β ⊕ γ)} {value : β} {result : γ}
    {state after : σ}
    (h : (body value).run state = .ok (.inr result, after)) (budget : Nat) :
    (whileLoop exhausted body (budget + 1) value).run state =
      .ok (result, after) := by
  rw [whileLoop, run_bind_ok h]
  rfl

end Run

/-! Programs with a loop budget. -/

/-- With a budget above `need` the program returns `result`; with a smaller
one it returns the same or exhausts the budget. -/
def Returns (exhausted : φ) (program : Nat → Program σ φ α) (state : σ)
    (need : Nat) (result : α × σ) : Prop :=
  ∀ budget, (program budget).run state = .ok result ∨
    (budget ≤ need ∧ (program budget).run state = .error exhausted)

section Returns

variable {σ φ α β γ : Type} {exhausted : φ}
  {program : Nat → Program σ φ α} {state : σ} {need : Nat} {result : α × σ}

theorem Returns.run_eq (returns : Returns exhausted program state need result)
    {budget : Nat} (h : need < budget) :
    (program budget).run state = .ok result := by
  rcases returns budget with ended | ⟨hle, _⟩
  · exact ended
  · omega

theorem Returns.unique (returns : Returns exhausted program state need result)
    {budget : Nat} {other : α × σ}
    (h : (program budget).run state = .ok other) : other = result := by
  rcases returns budget with ended | ⟨_, failed⟩
  · exact Except.ok.inj (h.symm.trans ended)
  · rw [failed] at h
    cases h

theorem Returns.weaken (returns : Returns exhausted program state need result)
    {larger : Nat} (h : need ≤ larger) :
    Returns exhausted program state larger result := by
  intro budget
  rcases returns budget with ended | ⟨hle, failed⟩
  · exact .inl ended
  · exact .inr ⟨Nat.le_trans hle h, failed⟩

theorem returns_of_run {fixed : Program σ φ α}
    (h : fixed.run state = .ok result) (need : Nat) :
    Returns exhausted (fun _ => fixed) state need result :=
  fun _ => .inl h

theorem Returns.of_run_eq {other : Nat → Program σ φ α} {before : σ}
    (returns : Returns exhausted program state need result)
    (h : ∀ budget, (other budget).run before = (program budget).run state) :
    Returns exhausted other before need result := by
  intro budget
  rw [h budget]
  exact returns budget

theorem Returns.bind {value : α} {middle : σ} {last : β × σ}
    {next : Nat → α → Program σ φ β}
    (first : Returns exhausted program state need (value, middle))
    (second : Returns exhausted (fun budget => next budget value) middle need
      last) :
    Returns exhausted (fun budget => program budget >>= next budget) state need
      last := by
  intro budget
  rcases first budget with ended | ⟨hle, failed⟩
  · rw [run_bind_ok ended]
    exact second budget
  · exact .inr ⟨hle, run_bind_error failed _⟩

theorem returns_whileLoop_leave {body : β → Program σ φ (β ⊕ γ)} {value : β}
    {leave : γ} {after : σ}
    (h : (body value).run state = .ok (.inr leave, after)) (need : Nat) :
    Returns exhausted (fun budget => whileLoop exhausted body budget value)
      state need (leave, after) := by
  intro budget
  cases budget with
  | zero => exact .inr ⟨Nat.zero_le _, rfl⟩
  | succ budget => exact .inl (run_whileLoop_leave h budget)

theorem returns_whileLoop_next {body : β → Program σ φ (β ⊕ γ)}
    {value next : β} {after : σ} {last : γ × σ}
    (h : (body value).run state = .ok (.inl next, after))
    (rest : Returns exhausted
      (fun budget => whileLoop exhausted body budget next) after need last) :
    Returns exhausted (fun budget => whileLoop exhausted body budget value)
      state (need + 1) last := by
  intro budget
  cases budget with
  | zero => exact .inr ⟨Nat.zero_le _, rfl⟩
  | succ budget =>
      rw [run_whileLoop_next h]
      rcases rest budget with ended | ⟨hle, failed⟩
      · exact .inl ended
      · exact .inr ⟨by omega, failed⟩

end Returns

/-! Programs executed one access at a time. -/

inductive Step : Program σ φ α × σ → Program σ φ α × σ → Prop
  | access (update : σ → σ) (next : σ → Program σ φ α) (state : σ) :
      Step (.access update next, state) (next state, update state)

abbrev Steps (first last : Program σ φ α × σ) : Prop :=
  Relation.ReflTransGen Step first last

theorem Step.run_eq {first last : Program σ φ α × σ} (h : Step first last) :
    last.1.run last.2 = first.1.run first.2 := by
  cases h
  rfl

/-- What is left of a program after some of its accesses ends as the whole
program would have. -/
theorem Steps.run_eq {first last : Program σ φ α × σ}
    (h : Steps first last) :
    last.1.run last.2 = first.1.run first.2 := by
  induction h with
  | refl => rfl
  | tail _ step ih => exact step.run_eq.trans ih

theorem steps_of_run {program : Program σ φ α} {state after : σ} {value : α}
    (h : program.run state = .ok (value, after))
    (next : α → Program σ φ β) :
    Steps (program >>= next, state) (next value, after) := by
  change Steps (program.bind next, state) (next value, after)
  induction program generalizing state with
  | ret result =>
      cases h
      exact .refl
  | fail fault => cases h
  | access update rest ih =>
      exact .head (.access update _ state) (ih state h)

theorem steps_ret {program : Program σ φ α} {state after : σ} {value : α}
    (h : program.run state = .ok (value, after)) :
    Steps (program, state) (.ret value, after) := by
  induction program generalizing state with
  | ret result =>
      cases h
      exact .refl
  | fail fault => cases h
  | access update rest ih =>
      exact .head (.access update _ state) (ih state h)

end Program

end Planetoid
