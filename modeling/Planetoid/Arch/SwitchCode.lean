import Planetoid.Arch.ExceptionStub
import Planetoid.Task.Execution
import Planetoid.Task.Resumption

namespace Planetoid.Arch

open A64 Program Planetoid.Task

/-! `context_switch.s`, which `taskSwitch` describes on the level of the
scheduler's data. -/

def taskSwitchBody (resume : Nat) : List Instruction :=
  [.stp (.x 19) (.x 20) (.x 0) 152,
    .stp (.x 21) (.x 22) (.x 0) 168,
    .stp (.x 23) (.x 24) (.x 0) 184,
    .stp (.x 25) (.x 26) (.x 0) 200,
    .stp (.x 27) (.x 28) (.x 0) 216,
    .stp (.x 29) (.x 30) (.x 0) 232,
    .mov (.x 2) .sp,
    .str (.x 2) (.x 0) 248,
    .literal (.x 2) resume,
    .str (.x 2) (.x 0) 256,
    .ldp (.x 19) (.x 20) (.x 1) 152,
    .ldp (.x 21) (.x 22) (.x 1) 168,
    .ldp (.x 23) (.x 24) (.x 1) 184,
    .ldp (.x 25) (.x 26) (.x 1) 200,
    .ldp (.x 27) (.x 28) (.x 1) 216,
    .ldp (.x 29) (.x 30) (.x 1) 232,
    .ldr (.x 2) (.x 1) 248,
    .mov .sp (.x 2),
    .ldr (.x 2) (.x 1) 256,
    .daifClr 2,
    .isb]

def resumeOf (start : Nat) : Nat := start + 88

def taskSwitchCode (start : Nat) : List Instruction :=
  taskSwitchBody (resumeOf start) ++ [.br (.x 2), .ret]

/-- `task_entry_trampoline`; `taskTerminated` is where `task_terminated` is. -/
def taskEntryTrampoline (start taskTerminated : Nat) : List Instruction :=
  [.mov (.x 0) (.x 19), .blr (.x 0), .bl taskTerminated, .wfi,
    .b (start + 12)]

structure HoldsContext (words : Nat → Nat) (base : Nat)
    (context : CPUContext) : Prop where
  x : ∀ index, 19 ≤ index → index < 31 →
    words (base / 8 + index) = context.x index
  sp : words (base / 8 + 31) = address context.sp
  pc : words (base / 8 + 32) = context.pc

/-- `offsetof(cpu_context, pstate)`. -/
def contextSize : Nat := 33 * 8

structure AtContext (base : Nat) : Prop where
  aligned : base % 8 = 0
  bounded : base + contextSize ≤ 2 ^ 64

def Apart (first second : Nat) : Prop :=
  first + contextSize ≤ second ∨ second + contextSize ≤ first

structure Places (live : TaskRef → Prop) (place : TaskRef → Nat) : Prop where
  context : ∀ task, live task → AtContext (place task)
  apart : ∀ task other, live task → live other → task ≠ other →
    Apart (place task) (place other)

def HoldsTasks (words : Nat → Nat) (state : State) (live : TaskRef → Prop)
    (place : TaskRef → Nat) : Prop :=
  ∀ task, live task →
    HoldsContext words (place task) (state.tasks task).cpuContext

section

variable {code : Image} {cpu : Cpu}

def switchWords (cpu : Cpu) (base resume : Nat) : Nat → Nat := fun word =>
  if base / 8 + 19 ≤ word ∧ word < base / 8 + 31 then
    cpu.x (word - base / 8)
  else if word = base / 8 + 31 then cpu.sp
  else if word = base / 8 + 32 then resume
  else cpu.words word

def switchCpu (cpu : Cpu) (previous next resume : Nat) : Cpu :=
  let words := switchWords cpu previous resume
  { cpu with
    x := Function.update (fun index =>
      if 19 ≤ index ∧ index < 31 then words (next / 8 + index)
      else cpu.x index) 2 (words (next / 8 + 32))
    sp := words (next / 8 + 31)
    pc := words (next / 8 + 32)
    daif := cpu.daif &&& 13
    words := words }

theorem taskSwitchBody_eq (resume : Nat) : taskSwitchBody resume =
    (storePairs (.x 0) 19 152 6 ++ [.mov (.x 2) .sp,
      .str (.x 2) (.x 0) (31 * 8), .literal (.x 2) resume,
      .str (.x 2) (.x 0) (32 * 8)]) ++
    (loadPairs (.x 1) 19 152 6 ++ [.ldr (.x 2) (.x 1) (31 * 8),
      .mov .sp (.x 2), .ldr (.x 2) (.x 1) (32 * 8), .daifClr 2, .isb]) := rfl

theorem savedWords_eq (cpu : Cpu) (base resume : Nat) :
    Function.update (Function.update (cpu.saved 19 (base / 8 + 19) 12)
      (base / 8 + 31) cpu.sp) (base / 8 + 32) resume =
        switchWords cpu base resume := by
  funext word
  unfold switchWords Cpu.saved
  simp only [Function.update_apply]
  generalize base / 8 = low
  by_cases hpair : low + 19 ≤ word ∧ word < low + 31
  · rw [if_neg (by omega), if_neg (by omega), if_pos (by omega), if_pos hpair]
    exact congrArg cpu.x (by omega)
  · rw [if_neg hpair, if_neg hpair]
    by_cases hsp : word = low + 31
    · rw [if_neg (by omega), if_pos hsp, if_pos hsp]
    · rw [if_neg hsp, if_neg hsp]

theorem execAll_saveContext (context : AtContext (cpu.x 0)) (resume : Nat) :
    execAll (storePairs (.x 0) 19 152 6 ++ [.mov (.x 2) .sp,
      .str (.x 2) (.x 0) (31 * 8), .literal (.x 2) resume,
      .str (.x 2) (.x 0) (32 * 8)]) cpu = some { cpu with
        x := Function.update cpu.x 2 resume
        pc := cpu.pc + 4 * 10
        words := switchWords cpu (cpu.x 0) resume } := by
  obtain ⟨aligned, bounded⟩ := context
  unfold contextSize at bounded
  have hpairs := @execAll_storePairs cpu (.x 0) 19 152 6 (checked_x 0)
    (show (cpu.x 0 + 152) % 8 = 0 by omega)
    (show cpu.x 0 + 152 + 16 * 6 ≤ 2 ^ 64 by omega)
  have hsp := fun words => @execAll_storeValue
    { cpu with pc := cpu.pc + 4 * 6, words := words } (.x 0) 2 cpu.sp
    (by decide) (.mov (.x 2) .sp) rfl (checked_x 0) aligned 31
    (show cpu.x 0 + 31 * 8 < 2 ^ 64 by omega)
  have hpc := fun words => @execAll_storeValue
    { cpu with
      x := Function.update cpu.x 2 cpu.sp
      pc := cpu.pc + 4 * 6 + 8
      words := words } (.x 0) 2 resume (by decide)
    (.literal (.x 2) resume) rfl (checked_x 0) aligned 32
    (show cpu.x 0 + 32 * 8 < 2 ^ 64 by omega) []
  rw [execAll_append, hpairs, Option.bind_some, hsp]
  refine (hpc _).trans ?_
  simp only [execAll, Function.update_idem]
  congr 2
  rw [← savedWords_eq]
  show Function.update (Function.update (cpu.saved 19 ((cpu.x 0 + 152) / 8)
    12) _ _) _ _ = _
  rw [show (cpu.x 0 + 152) / 8 = cpu.x 0 / 8 + 19 from
    Nat.add_mul_div_right _ 19 (show 0 < 8 by decide)]
  rfl

theorem execAll_loadContext (context : AtContext (cpu.x 1)) :
    execAll (loadPairs (.x 1) 19 152 6 ++ [.ldr (.x 2) (.x 1) (31 * 8),
      .mov .sp (.x 2), .ldr (.x 2) (.x 1) (32 * 8), .daifClr 2, .isb]) cpu =
        some { cpu with
          x := Function.update (fun index =>
            if 19 ≤ index ∧ index < 31 then cpu.words (cpu.x 1 / 8 + index)
            else cpu.x index) 2 (cpu.words (cpu.x 1 / 8 + 32))
          sp := cpu.words (cpu.x 1 / 8 + 31)
          pc := cpu.pc + 4 * 11
          daif := cpu.daif &&& 13 } := by
  obtain ⟨aligned, bounded⟩ := context
  unfold contextSize at bounded
  have hpairs := @execAll_loadPairs cpu (.x 1) 19 152 6 (checked_x 1)
    (show (cpu.x 1 + 152) % 8 = 0 by omega)
    (show cpu.x 1 + 152 + 16 * 6 ≤ 2 ^ 64 by omega)
    (by rintro _ ⟨⟩; omega)
  have hx : cpu.restored 19 ((cpu.get (.x 1) + 152) / 8) (2 * 6) =
      fun index => if 19 ≤ index ∧ index < 31 then
        cpu.words (cpu.x 1 / 8 + index) else cpu.x index := by
    funext index
    unfold Cpu.restored
    by_cases hin : 19 ≤ index ∧ index < 31
    · rw [if_pos hin, if_pos hin]
      exact congrArg cpu.words
        (by show (cpu.x 1 + 152) / 8 + (index - 19) = _; omega)
    · rw [if_neg hin, if_neg hin]
  rw [hx] at hpairs
  rw [execAll_append, hpairs, Option.bind_some]
  generalize hloaded : (fun index => if 19 ≤ index ∧ index < 31 then
    cpu.words (cpu.x 1 / 8 + index) else cpu.x index) = loaded
  have hbase : loaded 1 = cpu.x 1 := by
    subst hloaded
    rfl
  rw [@execAll_ldr _ (.x 1) (cpu.x 1) 31, execAll_cons rfl,
    @execAll_ldr _ (.x 1) (cpu.x 1) 32]
  · simp only [execAll, Instruction.exec, Cpu.set, Cpu.get, Cpu.next,
      Option.bind_some, Function.update_self, Function.update_idem]
  all_goals first
    | exact aligned
    | exact checked_x 1
    | exact hbase
    | exact show cpu.x 1 + 31 * 8 < 2 ^ 64 by omega
    | exact show cpu.x 1 + 32 * 8 < 2 ^ 64 by omega

theorem execAll_taskSwitchBody (previous : AtContext (cpu.x 0))
    (next : AtContext (cpu.x 1)) (resume : Nat) :
    execAll (taskSwitchBody resume) cpu =
      some { switchCpu cpu (cpu.x 0) (cpu.x 1) resume with
        pc := cpu.pc + 4 * 21 } := by
  rw [taskSwitchBody_eq, execAll_append,
    execAll_saveContext previous, Option.bind_some]
  refine (@execAll_loadContext { cpu with
    x := Function.update cpu.x 2 resume
    pc := cpu.pc + 4 * 10
    words := switchWords cpu (cpu.x 0) resume } next).trans ?_
  unfold switchCpu
  congr 2
  funext index
  simp only [Function.update_apply]
  by_cases hscratch : index = 2
  · rw [if_pos hscratch, if_pos hscratch]
    rfl
  · rw [if_neg hscratch, if_neg hscratch, if_neg hscratch]
    rfl

theorem taskSwitchBody_isStraight (resume : Nat) :
    ∀ instruction ∈ taskSwitchBody resume, instruction.isStraight = true := by
  simp [taskSwitchBody, Instruction.isStraight]

theorem taskSwitch_reaches (placed : Placed code cpu.pc
      (taskSwitchCode cpu.pc))
    (previous : AtContext (cpu.x 0)) (next : AtContext (cpu.x 1)) :
    Reaches code cpu
      (switchCpu cpu (cpu.x 0) (cpu.x 1) (resumeOf cpu.pc)) := by
  obtain ⟨hbody, hbranch, _⟩ := placed_append.mp placed
  have hrun := execAll_taskSwitchBody previous next (resumeOf cpu.pc)
  obtain ⟨hreaches, hlast⟩ :=
    reaches_execAll hbody (taskSwitchBody_isStraight _) hrun
  have hstep : ∀ last : Cpu, last.pc = cpu.pc +
      4 * (taskSwitchBody (resumeOf cpu.pc)).length →
        Step code last { last with pc := last.x 2 } := by
    intro last hpc
    exact .exec (hpc ▸ hbranch) rfl
  exact hreaches.tail (hstep _ hlast)

theorem and_unmasked {daif : Nat} (fits : daif < 16) :
    daif &&& 13 = unmasked daif := by
  revert fits
  revert daif
  decide

section

variable (cpu : Cpu) (base resume : Nat)

theorem switchWords_x {index : Nat} (hlow : 19 ≤ index) (hhigh : index < 31) :
    switchWords cpu base resume (base / 8 + index) = cpu.x index := by
  refine (if_pos ⟨by omega, by omega⟩).trans ?_
  rw [Nat.add_sub_cancel_left]

theorem switchWords_sp :
    switchWords cpu base resume (base / 8 + 31) = cpu.sp :=
  (if_neg (by omega)).trans (if_pos rfl)

theorem switchWords_pc :
    switchWords cpu base resume (base / 8 + 32) = resume :=
  (if_neg (by omega)).trans ((if_neg (by omega)).trans (if_pos rfl))

end

theorem HoldsContext.switch {registers : Registers} {daif : Nat}
    (shows : Shows cpu registers daif) (base resume : Nat)
    (context : CPUContext) :
    HoldsContext (switchWords cpu base resume) base
      (switchedContext resume registers context) where
  x := by
    intro index hlow hhigh
    rw [switchWords_x cpu base resume hlow hhigh, shows.x index hhigh]
    exact (if_pos ⟨hlow, hhigh⟩).symm
  sp := (switchWords_sp cpu base resume).trans shows.sp
  pc := switchWords_pc cpu base resume

theorem HoldsContext.shows {context : CPUContext} {registers : Registers}
    {daif previous next resume : Nat}
    (holds : HoldsContext (switchWords cpu previous resume) next context)
    (shows : Shows cpu registers daif) (hdaif : daif < 16) :
    Shows (switchCpu cpu previous next resume) (resumed registers context)
      (unmasked daif) where
  x := by
    intro index hindex
    unfold switchCpu resumed
    dsimp only
    rw [Function.update_apply, Function.update_apply]
    by_cases hscratch : index = 2
    · rw [if_pos hscratch, if_pos hscratch]
      exact holds.pc
    · rw [if_neg hscratch, if_neg hscratch]
      unfold copyCalleeSaved
      by_cases hsaved : 19 ≤ index ∧ index < 31
      · rw [if_pos hsaved, if_pos hsaved]
        exact holds.x index hsaved.1 hsaved.2
      · rw [if_neg hsaved, if_neg hsaved]
        exact shows.x index hindex
  sp := holds.sp
  pc := holds.pc
  nzcv := shows.nzcv
  daif := by
    show cpu.daif &&& 13 = _
    rw [shows.daif]
    exact and_unmasked hdaif

theorem switchWords_apart {base word : Nat} (resume : Nat)
    (hapart : word < base / 8 + 19 ∨ base / 8 + 33 ≤ word) :
    switchWords cpu base resume word = cpu.words word := by
  unfold switchWords
  rw [if_neg (by omega), if_neg (by omega), if_neg (by omega)]

theorem HoldsContext.congr {first second : Nat → Nat} {base : Nat}
    {context : CPUContext} (holds : HoldsContext first base context)
    (h : ∀ index, 19 ≤ index → index < 33 →
      second (base / 8 + index) = first (base / 8 + index)) :
    HoldsContext second base context where
  x := by
    intro index hlow hhigh
    rw [h index hlow (by omega)]
    exact holds.x index hlow hhigh
  sp := (h 31 (by decide) (by decide)).trans holds.sp
  pc := (h 32 (by decide) (by decide)).trans holds.pc

variable {state : State} {live : TaskRef → Prop} {place : TaskRef → Nat}
  {previous next : TaskRef} {registers : Registers}

theorem HoldsTasks.switch (holds : HoldsTasks cpu.words state live place)
    (places : Places live place) (hprevious : live previous)
    {daif : Nat} (shows : Shows cpu registers daif) (resume : Nat) :
    HoldsTasks (switchWords cpu (place previous) resume)
      (switchState resume registers state previous) live place := by
  intro task hlive
  by_cases htask : task = previous
  · subst htask
    rw [switchState_context]
    exact .switch shows _ resume _
  · rw [switchState_of_ne _ _ _ _ htask]
    refine (holds task hlive).congr fun index hlow hhigh => ?_
    have halign := (places.context task hlive).aligned
    have hother := (places.context previous hprevious).aligned
    have hapart := places.apart task previous hlive hprevious htask
    unfold Apart contextSize at hapart
    exact switchWords_apart resume (by omega)

/-- A completed `task_switch` on the words of the contexts computes what
`taskSwitch` does with the scheduler's data: it leaves the core as the next
task's context says and the contexts of all tasks as in the new state. -/
theorem taskSwitch_refines {start : Nat}
    (placed : Placed code start (taskSwitchCode start))
    (places : Places live place)
    (holds : HoldsTasks cpu.words state live place)
    (shows : Shows cpu registers state.daif) (hdaif : state.daif < 16)
    (hpc : registers.pc = start) (hcurrent : registers.x 0 = place previous)
    (hnext : registers.x 1 = place next) (livePrevious : live previous)
    (liveNext : live next) {result : Registers × State}
    (run : (taskSwitch (resumeOf start) registers previous next).run state =
      .ok result) :
    ∃ after, Reaches code cpu after ∧
      Shows after result.1 result.2.daif ∧
      HoldsTasks after.words result.2 live place ∧
      ∀ word, word < place previous / 8 + 19 ∨
        place previous / 8 + 33 ≤ word → after.words word = cpu.words word := by
  by_cases hprevious : state.Valid previous
  · by_cases hvalid : state.Valid next
    · rw [run_taskSwitch hprevious hvalid] at run
      obtain rfl := Except.ok.inj run
      have h0 : cpu.x 0 = place previous :=
        (shows.x 0 (by decide)).trans hcurrent
      have h1 : cpu.x 1 = place next := (shows.x 1 (by decide)).trans hnext
      have hstart : cpu.pc = start := shows.pc.trans hpc
      have hreaches := taskSwitch_reaches (by rwa [hstart])
        (h0 ▸ places.context previous livePrevious)
        (h1 ▸ places.context next liveNext)
      rw [h0, h1, hstart] at hreaches
      have hholds := holds.switch places livePrevious shows (resumeOf start)
      exact ⟨_, hreaches, (hholds next liveNext).shows shows hdaif, hholds,
        fun word => switchWords_apart _⟩
    · simp [taskSwitch, store, load, hprevious, hvalid, run_bind,
        Except.bind] at run
  · simp [taskSwitch, store, hprevious, run_bind, Except.bind] at run

structure Loaded (words : Nat → Nat) (base : Nat) (after : Cpu) : Prop where
  x : ∀ index, 19 ≤ index → index < 31 →
    after.x index = words (base / 8 + index)
  sp : after.sp = words (base / 8 + 31)
  pc : after.pc = words (base / 8 + 32)

theorem switchCpu_loaded {current next : Nat} (context : AtContext current)
    (target : AtContext next) (apart : Apart current next) (resume : Nat) :
    Loaded cpu.words next (switchCpu cpu current next resume) := by
  have hwords : ∀ index, 19 ≤ index → index < 33 →
      switchWords cpu current resume (next / 8 + index) =
        cpu.words (next / 8 + index) := by
    intro index hlow hhigh
    have hfirst := context.aligned
    have hsecond := target.aligned
    unfold Apart contextSize at apart
    exact switchWords_apart _ (by omega)
  refine ⟨?_, hwords 31 (by decide) (by decide),
    hwords 32 (by decide) (by decide)⟩
  intro index hlow hhigh
  unfold switchCpu
  dsimp only
  rw [Function.update_of_ne (show index ≠ 2 by omega), if_pos ⟨hlow, hhigh⟩]
  exact hwords index hlow (by omega)

/-- A call of `task_switch(current, next)` returns to its caller, with the
caller's stack and callee-saved registers, when any later call switches back
to a context that is as the first call left it. -/
theorem taskSwitch_returns {start current : Nat}
    (placed : Placed code start (taskSwitchCode start))
    (hpc : cpu.pc = start) (hcurrent : cpu.x 0 = current)
    (context : AtContext current) (target : AtContext (cpu.x 1)) :
    ∃ suspended, Reaches code cpu suspended ∧
      ∀ caller : Cpu, caller.pc = start → caller.x 1 = current →
        AtContext (caller.x 0) → Apart (caller.x 0) current →
        (∀ word, current / 8 + 19 ≤ word → word < current / 8 + 33 →
          caller.words word = suspended.words word) →
        ∃ after, Reaches code caller after ∧ after.pc = cpu.x 30 ∧
          after.sp = cpu.sp ∧ ∀ index, 19 ≤ index → index < 31 →
            after.x index = cpu.x index := by
  subst hpc
  subst hcurrent
  refine ⟨_, taskSwitch_reaches placed context target, ?_⟩
  intro caller hcaller hnext previous apart kept
  have hreaches := taskSwitch_reaches (by rwa [hcaller]) previous
    (hnext ▸ context)
  rw [hcaller, hnext] at hreaches
  have loaded := @switchCpu_loaded caller _ _ previous context apart
    (resumeOf cpu.pc)
  have hx : ∀ index, 19 ≤ index → index < 31 →
      (switchCpu caller (caller.x 0) (cpu.x 0) (resumeOf cpu.pc)).x index =
        cpu.x index := by
    intro index hlow hhigh
    rw [loaded.x index hlow hhigh, kept _ (by omega) (by omega)]
    exact switchWords_x cpu _ _ hlow hhigh
  have hpc : (switchCpu caller (caller.x 0) (cpu.x 0) (resumeOf cpu.pc)).pc =
      resumeOf cpu.pc := by
    rw [loaded.pc, kept _ (by omega) (by omega)]
    exact switchWords_pc ..
  have hsp : (switchCpu caller (caller.x 0) (cpu.x 0) (resumeOf cpu.pc)).sp =
      cpu.sp := by
    rw [loaded.sp, kept _ (by omega) (by omega)]
    exact switchWords_sp ..
  have hret : code (switchCpu caller (caller.x 0) (cpu.x 0)
      (resumeOf cpu.pc)).pc = some .ret := by
    rw [hpc]
    exact (placed_append.mp placed).2.2.1
  exact ⟨_, hreaches.tail (.exec hret rfl), hx 30 (by decide) (by decide),
    hsp, hx⟩

/-- A call of `task_switch(current, next)` enters the function of a new task
on the task's stack, and the function returns to a call of
`task_terminated`. -/
theorem taskSwitch_enters {start trampoline taskTerminated current next : Nat}
    (placed : Placed code start (taskSwitchCode start))
    (entry : Placed code trampoline
      (taskEntryTrampoline trampoline taskTerminated))
    (hpc : cpu.pc = start) (hcurrent : cpu.x 0 = current)
    (hnext : cpu.x 1 = next) (context : AtContext current)
    (target : AtContext next) (apart : Apart current next)
    (fresh : cpu.words (next / 8 + 32) = trampoline) :
    ∃ entered, Reaches code cpu entered ∧
      entered.pc = cpu.words (next / 8 + 19) ∧
      entered.sp = cpu.words (next / 8 + 31) ∧
      entered.daif = cpu.daif &&& 13 ∧
      ∀ returned : Cpu, returned.pc = entered.x 30 →
        ∃ left, Reaches code returned left ∧ left.pc = taskTerminated ∧
          left.sp = returned.sp := by
  subst hpc
  subst hcurrent
  subst hnext
  obtain ⟨hmov, hblr, hbl, _⟩ := entry
  have hreaches := taskSwitch_reaches placed context target
  have loaded := @switchCpu_loaded cpu _ _ context target apart
    (resumeOf cpu.pc)
  have hdaif : (switchCpu cpu (cpu.x 0) (cpu.x 1) (resumeOf cpu.pc)).daif =
      cpu.daif &&& 13 := rfl
  generalize switchCpu cpu (cpu.x 0) (cpu.x 1) (resumeOf cpu.pc) = first
    at hreaches loaded hdaif
  have hfirst : first.pc = trampoline := loaded.pc.trans fresh
  rw [← hfirst] at hmov hblr hbl
  have hmoved : Step code first (first.set (.x 0) (first.x 19)).next :=
    .exec hmov rfl
  have hentered : Step code (first.set (.x 0) (first.x 19)).next
      { ((first.set (.x 0) (first.x 19)).next.set (.x 30)
        (first.pc + 4 + 4)) with pc := first.x 19 } :=
    .exec hblr rfl
  refine ⟨_, (hreaches.tail hmoved).tail hentered,
    loaded.x 19 (by decide) (by decide), loaded.sp, hdaif, ?_⟩
  intro returned hreturned
  have hcall : code returned.pc = some (.bl taskTerminated) := by
    rw [hreturned]
    exact hbl
  exact ⟨_, .single (.exec hcall rfl), rfl, rfl⟩

end

/-! The code at fixed addresses, and the launch context and the idle task. -/

def switchImage : Image := fun pc =>
  if pc < 4096 then (taskEntryTrampoline 12 2048)[(pc - 12) / 4]?
  else (taskSwitchCode 4096)[(pc - 4096) / 4]?

theorem switchImage_switch :
    Placed switchImage 4096 (taskSwitchCode 4096) := by
  refine placed_of_getElem? fun index instruction hindex => ?_
  unfold switchImage
  rw [if_neg (by omega), show (4096 + 4 * index - 4096) / 4 = index by omega]
  exact hindex

theorem switchImage_trampoline :
    Placed switchImage 12 (taskEntryTrampoline 12 2048) := by
  refine placed_of_getElem? fun index instruction hindex => ?_
  have hlast : index < 5 := (List.getElem?_eq_some_iff.mp hindex).1
  unfold switchImage
  rw [if_pos (by omega), show (12 + 4 * index - 12) / 4 = index by omega]
  exact hindex

def contextWord (context : CPUContext) (index : Nat) : Nat :=
  if index = 31 then address context.sp
  else if index = 32 then context.pc
  else context.x index

abbrev isSmall (task : Nat) : Prop := task < 2

def smallPlace (task : Nat) : Nat := 512 * task

def switchingCpu : Cpu where
  x := fun index => if index = 1 then 512 else 0
  sp := 4097
  pc := 4096
  nzcv := 0
  daif := 2
  system := fun _ => 0
  words := fun word =>
    contextWord (smallTask (word / 64)).cpuContext (word % 64)
  stackCheck := true

def switchingRegisters : Registers where
  x := switchingCpu.x
  sp := ⟨1, 4096⟩
  pc := 4096
  nzcv := 0

def switchingState : State := { smallState with daif := 2 }

theorem switching_places : Places isSmall smallPlace where
  context := by
    intro task hlive
    unfold isSmall at hlive
    unfold smallPlace
    constructor
    · omega
    · unfold contextSize
      omega
  apart := by
    intro task other _ _ hne
    unfold Apart contextSize smallPlace
    obtain hlow | hhigh := Nat.lt_or_gt_of_ne hne
    · omega
    · omega

theorem switching_holds :
    HoldsTasks switchingCpu.words switchingState isSmall smallPlace := by
  intro task _
  have hword : ∀ index, index < 64 →
      switchingCpu.words (smallPlace task / 8 + index) =
        contextWord (smallTask task).cpuContext index := by
    intro index hindex
    have hplace : smallPlace task / 8 = 64 * task := by
      unfold smallPlace
      omega
    unfold switchingCpu
    dsimp only
    rw [hplace, Nat.mul_add_div (by decide), Nat.div_eq_of_lt hindex,
      Nat.add_zero, Nat.mul_add_mod, Nat.mod_eq_of_lt hindex]
  constructor
  · intro index hlow hhigh
    rw [hword index (by omega)]
    exact (if_neg (by omega)).trans (if_neg (by omega))
  · exact hword 31 (by decide)
  · exact hword 32 (by decide)

theorem switching_shows :
    Shows switchingCpu switchingRegisters switchingState.daif :=
  ⟨fun _ _ => rfl, rfl, rfl, rfl, rfl⟩

theorem taskSwitch_refines_idle :
    ∃ after, Reaches switchImage switchingCpu after ∧
      Shows after (resumed switchingRegisters
        ((switchState (resumeOf 4096) switchingRegisters switchingState
          0).tasks 1).cpuContext) (unmasked 2) ∧
      HoldsTasks after.words (switchState (resumeOf 4096) switchingRegisters
        switchingState 0) isSmall smallPlace ∧
      ∀ word, word < 19 ∨ 33 ≤ word →
        after.words word = switchingCpu.words word :=
  taskSwitch_refines switchImage_switch switching_places switching_holds
    switching_shows (by decide) rfl rfl rfl (by decide) (by decide)
    (run_taskSwitch (by decide) (by decide) (resumeOf 4096)
      switchingRegisters)

theorem taskSwitch_returns_idle :
    ∃ suspended, Reaches switchImage switchingCpu suspended ∧
      ∀ caller : Cpu, caller.pc = 4096 → caller.x 1 = 0 →
        AtContext (caller.x 0) → Apart (caller.x 0) 0 →
        (∀ word, 0 / 8 + 19 ≤ word → word < 0 / 8 + 33 →
          caller.words word = suspended.words word) →
        ∃ after, Reaches switchImage caller after ∧
          after.pc = switchingCpu.x 30 ∧ after.sp = 4097 ∧
          ∀ index, 19 ≤ index → index < 31 →
            after.x index = switchingCpu.x index :=
  taskSwitch_returns switchImage_switch rfl rfl
    (switching_places.context 0 (by decide))
    (switching_places.context 1 (by decide))

theorem taskSwitch_enters_idle :
    ∃ entered, Reaches switchImage switchingCpu entered ∧
      entered.pc = 101 ∧ entered.sp = 4098 ∧ entered.daif = 0 ∧
      ∀ returned : Cpu, returned.pc = entered.x 30 →
        ∃ left, Reaches switchImage returned left ∧ left.pc = 2048 ∧
          left.sp = returned.sp :=
  taskSwitch_enters switchImage_switch switchImage_trampoline rfl rfl rfl
    (switching_places.context 0 (by decide))
    (switching_places.context 1 (by decide))
    (switching_places.apart 0 1 (by decide) (by decide) (by decide)) rfl

end Planetoid.Arch
