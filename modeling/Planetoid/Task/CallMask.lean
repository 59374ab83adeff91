import Planetoid.Task.InterruptMask

namespace Planetoid.Task

open Planetoid Program Links Arch

/-! The mask across a call, whatever switches the task away before the call
returns. -/

structure Unmaskable (state : State) : Prop where
  resumes : ResumesUnmasked state
  daif : unmasked state.daif = 0

theorem unmaskable_inert : Inert Unmaskable := by
  intro before after hdaif hlocked hpstate h
  refine ⟨resumesUnmasked_inert before after hdaif hlocked hpstate h.resumes,
    ?_⟩
  rw [hdaif]
  exact h.daif

theorem unmasked_irqBit {daif : Nat} (h : unmasked daif = 0) :
    unmasked (daif ||| Interrupts.irqBit) = 0 := by
  have hsmall : daif = 0 ∨ daif = 2 := by
    unfold unmasked Interrupts.irqBit at h
    split at h
    · exact .inl h
    · rename_i hset
      have hle : daif = 0 ∨ daif = 1 ∨ daif = 2 := by omega
      rcases hle with rfl | rfl | rfl
      · exact .inl rfl
      · exact absurd rfl hset
      · exact .inr rfl
  rcases hsmall with rfl | rfl <;> decide

section

variable {invariant : State → Prop}

theorem keeps_saveTo (inert : Inert invariant) {task : TaskRef}
    {save : Registers → CPUContext → CPUContext}
    (h : ∀ registers context, (save registers context).pstate =
      context.pstate) :
    (saveTo task save).Keeps fun core => invariant core.state := by
  intro _ _ core hcore
  have hafter : invariant (core.state.setTask task fun fields =>
      { fields with cpuContext := save core.registers fields.cpuContext }) := by
    refine inert core.state _ rfl rfl ?_ hcore
    intro other
    by_cases heq : other = task
    · subst other
      simp [h]
    · rw [State.setTask_of_ne _ _ _ _ heq]
  refine ⟨hafter, ?_⟩
  by_cases valid : core.state.Valid task
  · simp only [if_pos valid]
    exact hafter
  · simp only [if_neg valid]
    exact trivial

theorem keeps_loadFrom (task : TaskRef)
    (load : CPUContext → Registers → Registers) :
    (loadFrom task load).Keeps fun core => invariant core.state := by
  intro _ _ core hcore
  refine ⟨hcore, ?_⟩
  by_cases valid : core.state.Valid task
  · simp only [if_pos valid]
    exact hcore
  · simp only [if_neg valid]
    exact trivial

theorem keeps_kernel {program : Sched α} (keeps : program.Keeps invariant) :
    (kernel program).Keeps fun core => invariant core.state :=
  keeps_zoom keeps (fun _ h => h) fun _ _ _ h => h

theorem switchTo_upholds (inert : Inert invariant)
    (hunmask : ∀ state, invariant state →
      invariant (state.withDaif (unmasked state.daif)))
    {post : Unit → Core → Prop}
    (hpost : ∀ core : Core, invariant core.state → ∀ registers,
      post () ⟨core.state.withDaif (unmasked core.state.daif), registers⟩)
    (map : CodeMap) (previous next : TaskRef) {core : Core}
    (h : invariant core.state) :
    (switchTo map previous next).Upholds (fun core => invariant core.state)
      post core := by
  have saves : ∀ {save : Registers → CPUContext → CPUContext},
      (∀ registers context, (save registers context).pstate =
        context.pstate) → ∀ core : Core, invariant core.state →
      (saveTo previous save).Upholds (fun core => invariant core.state)
        (fun _ after => invariant after.state) core :=
    fun hsave => keeps_saveTo inert hsave
  refine upholds_bind (saves ?_ core h) fun _ first hfirst => ?_
  · exact fun _ _ => rfl
  refine upholds_bind (saves ?_ first hfirst) fun _ second hsecond => ?_
  · exact fun _ _ => rfl
  refine upholds_bind (saves ?_ second hsecond) fun _ third hthird => ?_
  · exact fun _ _ => rfl
  refine upholds_bind (keeps_loadFrom next _ third hthird)
    fun _ fourth hfourth => ?_
  refine upholds_bind (keeps_loadFrom next _ fourth hfourth)
    fun _ fifth hfifth => ?_
  refine upholds_bind (keeps_loadFrom next _ fifth hfifth) fun _ _ _ => ?_
  intro last hlast
  exact ⟨hunmask last.state hlast, hpost last hlast _⟩

end

theorem Unmaskable.unmask {state : State} (h : Unmaskable state) :
    Unmaskable (state.withDaif (unmasked state.daif)) := by
  refine ⟨h.resumes, ?_⟩
  have hzero : (state.withDaif (unmasked state.daif)).daif = 0 := h.daif
  rw [hzero]
  decide

/-- After a routine that chose another task, no mask bit is set. -/
def Unmasks (service : Service) (core : Core) : Prop :=
  match service with
  | .switched _ => core.state.daif = 0
  | _ => True

theorem switchTo_unmasks (map : CodeMap) (previous next : TaskRef)
    {core : Core} (h : Unmaskable core.state) :
    (switchTo map previous next).Upholds (fun core => Unmaskable core.state)
      (fun _ after => after.state.daif = 0) core :=
  @switchTo_upholds Unmaskable unmaskable_inert
    (fun _ hstate => hstate.unmask) (fun _ after => after.state.daif = 0)
    (fun _ hlast _ => hlast.daif) map previous next core h

theorem leave_upholds (map : CodeMap) {back : Service}
    (hback : ∀ core, Unmasks back core) (exit : Exit) {core : Core}
    (h : Unmaskable core.state) :
    (leave map back exit).Upholds (fun core => Unmaskable core.state) Unmasks
      core := by
  cases exit with
  | returned => exact hback core
  | switched previous next =>
      exact upholds_bind (switchTo_unmasks map previous next h)
        fun _ _ hafter => hafter

theorem unmasks_done (core : Core) : Unmasks .done core := trivial

theorem unmasks_again (core : Core) : Unmasks .again core := trivial

theorem Routine.program_upholds (map : CodeMap) (budget : Nat)
    (routine : Routine) {core : Core} (h : Unmaskable core.state) :
    (routine.program map budget).Upholds (fun core => Unmaskable core.state)
      Unmasks core := by
  cases routine with
  | start =>
      refine upholds_bind (keeps_kernel
        (Scheduler.keeps_start unmaskable_inert) core h)
        fun exit after hafter => ?_
      exact leave_upholds map unmasks_done exit hafter
  | terminate =>
      refine upholds_bind (keeps_kernel
        (Scheduler.keeps_terminateCurrent unmaskable_inert budget) core h)
        fun exit after hafter => ?_
      cases exit with
      | none => exact unmasks_again after
      | some exit => exact leave_upholds map unmasks_again exit hafter

structure MaskAfter (daif : Nat) (service : Service) (core : Core) : Prop where
  resumes : ResumesUnmasked core.state
  mask : match service with
    | .done => core.state.daif = daif
    | .again => False
    | .switched _ => daif = 0 → core.state.daif = 0

theorem switchTo_ends {daif masked : Nat} {core : Core}
    (h : MaskIs masked core.state) (hmasked : daif = 0 → unmasked masked = 0)
    (map : CodeMap) (previous next : TaskRef) :
    (switchTo map previous next).Ends (fun _ after =>
      MaskAfter daif (.switched ⟨previous, next⟩) after) core := by
  by_cases hdaif : daif = 0
  · have start : Unmaskable core.state := by
      refine ⟨h.resumes, ?_⟩
      rw [h.daif]
      exact hmasked hdaif
    refine ((switchTo_unmasks map previous next start).ends start).weaken
      fun _ after hafter => ?_
    exact ⟨hafter.2.resumes, fun _ => hafter.1⟩
  · have copies := @switchTo_upholds ResumesUnmasked resumesUnmasked_inert
      (fun _ hstate => hstate) (fun _ _ => True) (fun _ _ _ => trivial) map
      previous next core h.resumes
    refine (copies.ends h.resumes).weaken fun _ after hafter => ?_
    exact ⟨hafter.2, fun hzero => absurd hzero hdaif⟩

theorem leave_ends {daif : Nat} {exit : Exit} {core : Core}
    (h : MaskLeft daif exit core.state) (map : CodeMap) :
    (leave map .done exit).Ends (MaskAfter daif) core := by
  cases exit with
  | returned => exact ⟨h.resumes, h.daif⟩
  | switched previous next =>
      refine ends_bind.mpr ((switchTo_ends h ?_ map previous next).weaken
        fun _ _ hafter => hafter)
      rintro rfl
      decide

/-- Before a round of `lock`, called with the mask `daif`: the mask is this
one, or an earlier round found the mutex taken. -/
def BeforeRound (mutex : Mutex.MutexRef) (daif : Nat) (core : Core) : Prop :=
  ∃ mask, MaskIs mask core.state ∧ (daif = 0 → unmasked mask = 0) ∧
    (core.state.locked mutex = true ∨ mask = daif)

theorem lockOnce_ends {daif : Nat} {mutex : Mutex.MutexRef} {core : Core}
    (h : BeforeRound mutex daif core) (map : CodeMap) (budget : Nat) :
    (lockOnce map budget mutex).Ends (fun result after => match result with
      | .inl _ => BeforeRound mutex daif after
      | .inr service => MaskAfter daif service after) core := by
  obtain ⟨mask, hmask, hunmask, hmutex⟩ := h
  refine ends_bind.mpr (ends_kernel.mpr
    ((Mutex.lockRound_ends hmask budget).weaken fun exit after hafter => ?_))
  cases exit with
  | none =>
      obtain ⟨hfree, hlast⟩ := hafter
      rcases hmutex with htaken | rfl
      · rw [htaken] at hfree
        cases hfree
      · exact ⟨hlast.resumes, hlast.daif⟩
  | some exit =>
      have taken : Mutex.TakenAt mutex (mask ||| Interrupts.irqBit) after :=
        hafter
      have hnext : daif = 0 → unmasked (mask ||| Interrupts.irqBit) = 0 :=
        fun hzero => unmasked_irqBit (hunmask hzero)
      cases exit with
      | returned => exact ⟨_, taken.toMaskIs, hnext, .inl taken.taken⟩
      | switched previous next =>
          have hcore : MaskIs (mask ||| Interrupts.irqBit)
              (core.withState after).state := taken.toMaskIs
          refine ends_bind.mpr (ends_bind.mpr ?_)
          exact (switchTo_ends hcore hnext map previous next).weaken
            fun _ _ hlast => hlast

theorem lockRounds_ends {daif : Nat} {core : Core}
    (h : MaskIs daif core.state) (map : CodeMap) (budget : Nat)
    (mutex : Mutex.MutexRef) :
    (lockRounds map budget mutex).Ends (MaskAfter daif) core := by
  have start : BeforeRound mutex daif core := by
    refine ⟨daif, h, ?_, .inr rfl⟩
    rintro rfl
    decide
  refine @ends_whileLoop Core Fault Unit Service core .budgetExhausted
    (fun _ => lockOnce map budget mutex) (fun _ => BeforeRound mutex daif)
    (MaskAfter daif) (fun _ core hcore => ?_) () start budget
  refine (lockOnce_ends hcore map budget).weaken fun result after hafter => ?_
  cases result with
  | inl _ => exact hafter
  | inr service => exact hafter

theorem Request.program_ends {daif : Nat} {core : Core}
    (h : MaskIs daif core.state) (map : CodeMap) (budget : Nat)
    (request : Request) :
    (request.program map budget).Ends (MaskAfter daif) core := by
  cases request with
  | yield =>
      exact ends_bind.mpr (ends_kernel.mpr
        ((Scheduler.yield_ends h budget).weaken fun exit after hafter =>
          @leave_ends daif exit (core.withState after) hafter map))
  | sleep ticks =>
      exact ends_bind.mpr (ends_kernel.mpr
        ((Scheduler.sleep_ends h budget ticks).weaken fun exit after hafter =>
          @leave_ends daif exit (core.withState after) hafter map))
  | lock mutex => exact lockRounds_ends h map budget mutex

end Planetoid.Task
