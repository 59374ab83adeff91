import Mathlib.Logic.Function.Basic
import Planetoid.Base.Program

namespace Planetoid.Interrupts

open Program

/-! The table of interrupt handlers, `core/interrupts.cpp`. -/

def maxInterrupts : Nat := 1024

/-- `handlers`; a handler is named by an `η`. -/
abbrev Handlers (η : Type) := Fin maxInterrupts → Option η

abbrev Dispatch (η α : Type) := Program (Handlers η) Fault α

variable {η : Type}

def setHandler (id : Fin maxInterrupts) (handler : Option η) :
    Dispatch η Unit :=
  write fun handlers => Function.update handlers id handler

def init : Dispatch η Unit :=
  forEach (fun i =>
    if h : i < maxInterrupts then setHandler ⟨i, h⟩ none else pure ())
    0 maxInterrupts

def registerHandler (interruptId : Nat) (handler : Option η) :
    Dispatch η Bool :=
  if h : interruptId < maxInterrupts then
    match handler with
    | none => pure false
    | some handler => do
      if (← read (· ⟨interruptId, h⟩)).isSome then pure false
      else do
        setHandler ⟨interruptId, h⟩ (some handler)
        pure true
  else pure false

def unregisterHandler (interruptId : Nat) : Dispatch η Bool :=
  if h : interruptId < maxInterrupts then do
    if (← read (· ⟨interruptId, h⟩)).isNone then pure false
    else do
      setHandler ⟨interruptId, h⟩ none
      pure true
  else pure false

def dispatchInterrupt (interruptId : Nat) : Dispatch η (Option η) :=
  if h : interruptId < maxInterrupts then read (· ⟨interruptId, h⟩)
  else pure none

def handlerOf (handlers : Handlers η) (interruptId : Nat) : Option η :=
  if h : interruptId < maxInterrupts then handlers ⟨interruptId, h⟩ else none

theorem run_clear (handlers : Handlers η) {count : Nat}
    (hcount : count ≤ maxInterrupts) :
    (forEach (fun i =>
      if h : i < maxInterrupts then setHandler ⟨i, h⟩ none else pure ())
      0 count).run handlers =
        .ok ((), fun id => if id < count then none else handlers id) := by
  have hloop := @run_forEach _ Fault (fun i =>
    if h : i < maxInterrupts then setHandler (η := η) ⟨i, h⟩ none
    else pure ()) (fun done id => if id < done then none else handlers id)
    0 count (by
      intro index hindex
      rw [Nat.zero_add, dif_pos (Nat.lt_of_lt_of_le hindex hcount),
        setHandler, run_write]
      congr 2
      funext id
      rw [Function.update_apply]
      by_cases heq : id = ⟨index, Nat.lt_of_lt_of_le hindex hcount⟩
      · subst heq
        rw [if_pos rfl, if_pos (Nat.lt_succ_self index)]
      · have hne : id.val ≠ index := fun h => heq (Fin.ext h)
        have hsame : id.val < index ↔ id.val < index + 1 := by omega
        rw [if_neg heq]
        simp only [hsame])
  have hstart : (fun id : Fin maxInterrupts =>
      if id.val < 0 then none else handlers id) = handlers := by
    funext id
    exact if_neg (Nat.not_lt_zero _)
  rw [← hloop, hstart]

theorem run_init (handlers : Handlers η) :
    init.run handlers = .ok ((), fun _ => none) := by
  rw [init, run_clear handlers (Nat.le_refl maxInterrupts)]
  congr 2
  funext id
  exact if_pos id.isLt

theorem run_dispatchInterrupt (handlers : Handlers η) (interruptId : Nat) :
    (dispatchInterrupt interruptId).run handlers =
      .ok (handlerOf handlers interruptId, handlers) := by
  unfold dispatchInterrupt handlerOf
  by_cases h : interruptId < maxInterrupts
  · rw [dif_pos h, dif_pos h]
    rfl
  · rw [dif_neg h, dif_neg h]
    rfl

theorem run_registerHandler (handlers : Handlers η) (interruptId : Nat)
    (handler : η) :
    (registerHandler interruptId (some handler)).run handlers =
      .ok (if h : interruptId < maxInterrupts then
        if handlers ⟨interruptId, h⟩ = none then
          (true, Function.update handlers ⟨interruptId, h⟩ (some handler))
        else (false, handlers)
      else (false, handlers)) := by
  unfold registerHandler
  by_cases h : interruptId < maxInterrupts
  · rw [dif_pos h, dif_pos h]
    dsimp only
    rw [run_read_bind]
    cases hold : handlers ⟨interruptId, h⟩ with
    | none => simp [setHandler]
    | some old => simp
  · rw [dif_neg h, dif_neg h]
    rfl

end Planetoid.Interrupts
