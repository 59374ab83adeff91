import Mathlib.Tactic.IntervalCases
import Planetoid.Arch.ContextSwitch
import Planetoid.Base.A64

namespace Planetoid.Arch

open A64 Planetoid.Task

/-! `exception_irq` in `exception.s`, and the frame that it leaves to
`irq_exception_handler`. -/

def exceptionIrqEntry : List Instruction :=
  [.sub .sp .sp (36 * 8),
    .stp (.x 0) (.x 1) .sp (0 * 16),
    .stp (.x 2) (.x 3) .sp (1 * 16),
    .stp (.x 4) (.x 5) .sp (2 * 16),
    .stp (.x 6) (.x 7) .sp (3 * 16),
    .stp (.x 8) (.x 9) .sp (4 * 16),
    .stp (.x 10) (.x 11) .sp (5 * 16),
    .stp (.x 12) (.x 13) .sp (6 * 16),
    .stp (.x 14) (.x 15) .sp (7 * 16),
    .stp (.x 16) (.x 17) .sp (8 * 16),
    .stp (.x 18) (.x 19) .sp (9 * 16),
    .stp (.x 20) (.x 21) .sp (10 * 16),
    .stp (.x 22) (.x 23) .sp (11 * 16),
    .stp (.x 24) (.x 25) .sp (12 * 16),
    .stp (.x 26) (.x 27) .sp (13 * 16),
    .stp (.x 28) (.x 29) .sp (14 * 16),
    .str (.x 30) .sp (30 * 8),
    .mrs (.x 0) .elr,
    .str (.x 0) .sp (31 * 8),
    .mrs (.x 0) .esr,
    .str (.x 0) .sp (32 * 8),
    .mrs (.x 0) .far,
    .str (.x 0) .sp (33 * 8),
    .mrs (.x 0) .spsr,
    .str (.x 0) .sp (34 * 8),
    .add (.x 0) .sp (36 * 8),
    .str (.x 0) .sp (35 * 8),
    .mov (.x 0) .sp]

def exceptionIrqExit : List Instruction :=
  [.mov (.x 30) .sp,
    .ldr (.x 0) (.x 30) (31 * 8),
    .msr .elr (.x 0),
    .ldr (.x 0) (.x 30) (34 * 8),
    .msr .spsr (.x 0),
    .ldr (.x 16) (.x 30) (35 * 8),
    .ldp (.x 0) (.x 1) (.x 30) (0 * 16),
    .ldp (.x 2) (.x 3) (.x 30) (1 * 16),
    .ldp (.x 4) (.x 5) (.x 30) (2 * 16),
    .ldp (.x 6) (.x 7) (.x 30) (3 * 16),
    .ldp (.x 8) (.x 9) (.x 30) (4 * 16),
    .ldp (.x 10) (.x 11) (.x 30) (5 * 16),
    .ldp (.x 12) (.x 13) (.x 30) (6 * 16),
    .ldp (.x 14) (.x 15) (.x 30) (7 * 16),
    .ldp (.x 17) (.x 18) (.x 30) (17 * 8),
    .ldp (.x 19) (.x 20) (.x 30) (19 * 8),
    .ldp (.x 21) (.x 22) (.x 30) (21 * 8),
    .ldp (.x 23) (.x 24) (.x 30) (23 * 8),
    .ldp (.x 25) (.x 26) (.x 30) (25 * 8),
    .ldp (.x 27) (.x 28) (.x 30) (27 * 8),
    .ldr (.x 29) (.x 30) (29 * 8),
    .mov .sp (.x 16),
    .ldr (.x 16) (.x 30) (16 * 8),
    .ldr (.x 30) (.x 30) (30 * 8)]

def exceptionIrq (irqExceptionHandler : Nat) : List Instruction :=
  exceptionIrqEntry ++ .bl irqExceptionHandler ::
    (exceptionIrqExit ++ [.eret])

def exceptionVectorTable (sync irq fiq serror : Nat) : List Instruction :=
  (List.replicate 4 [.b sync, .b irq, .b fiq, .b serror]).flatten

/-- The addresses that `exception.s` gives its code, and the code there. -/
structure Vectors (code : Image) where
  table : Nat
  sync : Nat
  irq : Nat
  fiq : Nat
  serror : Nat
  irqExceptionHandler : Nat
  branches : ∀ entry instruction,
    (exceptionVectorTable sync irq fiq serror)[entry]? = some instruction →
      code (table + 128 * entry) = some instruction
  stub : Placed code irq (exceptionIrq irqExceptionHandler)

def address (pointer : StackPointer) : Nat := pointer.stack + pointer.offset

def spsrOf (pstate : PState) : Nat :=
  pstate.nzcv * 2 ^ 28 + pstate.daif * 2 ^ 6 + Cpu.spsrMode

structure Shows (cpu : Cpu) (registers : Registers) (daif : Nat) : Prop where
  x : ∀ index, index < 31 → cpu.x index = registers.x index
  sp : cpu.sp = address registers.sp
  pc : cpu.pc = registers.pc
  nzcv : cpu.nzcv = registers.nzcv
  daif : cpu.daif = daif

structure Fits (pstate : PState) : Prop where
  nzcv : pstate.nzcv < 16
  daif : pstate.daif < 16

structure HoldsFrame (words : Nat → Nat) (base : Nat)
    (frame : ExceptionContext) : Prop where
  x : ∀ index, index < 31 → words (base / 8 + index) = frame.x index
  elr : words (base / 8 + 31) = frame.elr
  esr : words (base / 8 + 32) = frame.esr
  far : words (base / 8 + 33) = frame.far
  spsr : words (base / 8 + 34) = spsrOf frame.spsr
  sp : words (base / 8 + 35) = address frame.sp
  fits : Fits frame.spsr

/-- `sizeof(exception_context)`. -/
def frameSize : Nat := 36 * 8

/-- The entry of the core to the IRQ vector of its own exception level. -/
def takeIrq (table : Nat) (cpu : Cpu) : Cpu :=
  { cpu with
    pc := table + 0x280
    daif := 15
    system := Function.update (Function.update cpu.system .elr cpu.pc) .spsr
      (spsrOf { nzcv := cpu.nzcv, daif := cpu.daif }) }

section

variable {code : Image} {cpu : Cpu}

theorem exceptionIrqEntry_eq : exceptionIrqEntry =
    [.sub .sp .sp (36 * 8)] ++ (storePairs .sp 0 0 15 ++
      exceptionIrqEntry.drop 16) := rfl

theorem exceptionIrqExit_eq : exceptionIrqExit =
    exceptionIrqExit.take 6 ++ ((loadPairs (.x 30) 0 0 8 ++
      loadPairs (.x 30) 17 136 6) ++ exceptionIrqExit.drop 20) := rfl

/-- The words of the frame that the stub builds at `base`. -/
def frameWords (cpu : Cpu) (base : Nat) (index : Nat) : Nat :=
  if index = 31 then cpu.system .elr
  else if index = 32 then cpu.system .esr
  else if index = 33 then cpu.system .far
  else if index = 34 then cpu.system .spsr
  else if index = 35 then base + frameSize
  else cpu.x index

theorem execAll_saveSystem (checked : cpu.Checked .sp)
    (aligned : cpu.sp % 8 = 0) {index : Nat}
    (fits : cpu.sp + index * 8 < 2 ^ 64) (register : SystemRegister)
    (rest : List Instruction) :
    execAll (.mrs (.x 0) register :: .str (.x 0) .sp (index * 8) :: rest)
      cpu = execAll rest { cpu with
        x := Function.update cpu.x 0 (cpu.system register)
        pc := cpu.pc + 8
        words := Function.update cpu.words (cpu.sp / 8 + index)
          (cpu.system register) } :=
  @execAll_storeValue cpu .sp 0 _ nofun _ rfl checked aligned index fits rest

theorem tailWords_eq (cpu : Cpu) :
    Function.update (Function.update (Function.update (Function.update
      (Function.update (Function.update cpu.words (cpu.sp / 8 + 30)
        (cpu.x 30)) (cpu.sp / 8 + 31) (cpu.system .elr)) (cpu.sp / 8 + 32)
          (cpu.system .esr)) (cpu.sp / 8 + 33) (cpu.system .far))
            (cpu.sp / 8 + 34) (cpu.system .spsr)) (cpu.sp / 8 + 35)
              (cpu.sp + frameSize) = fun word =>
      if cpu.sp / 8 + 30 ≤ word ∧ word < cpu.sp / 8 + 36 then
        frameWords cpu cpu.sp (word - cpu.sp / 8)
      else cpu.words word := by
  funext word
  generalize cpu.sp / 8 = base
  by_cases hin : base + 30 ≤ word ∧ word < base + 36
  · obtain ⟨index, rfl⟩ := Nat.exists_eq_add_of_le
      (Nat.le_trans (Nat.le_add_right base 30) hin.1)
    have hlow : 30 ≤ index := Nat.le_of_add_le_add_left hin.1
    have hhigh : index < 36 := Nat.lt_of_add_lt_add_left hin.2
    rw [if_pos hin, Nat.add_sub_cancel_left]
    simp only [Function.update_apply, Nat.add_left_cancel_iff, frameWords]
    interval_cases index <;> rfl
  · rw [if_neg hin]
    simp only [Function.update_apply]
    repeat rw [if_neg (by omega)]

theorem execAll_frameTail (checked : cpu.Checked .sp)
    (aligned : cpu.sp % 8 = 0) (fits : cpu.sp + frameSize < 2 ^ 64) :
    execAll (exceptionIrqEntry.drop 16) cpu = some { cpu with
      x := Function.update cpu.x 0 cpu.sp
      pc := cpu.pc + 4 * 12
      words := fun word =>
        if cpu.sp / 8 + 30 ≤ word ∧ word < cpu.sp / 8 + 36 then
          frameWords cpu cpu.sp (word - cpu.sp / 8)
        else cpu.words word } := by
  unfold frameSize at fits
  show execAll [.str (.x 30) .sp (30 * 8), .mrs (.x 0) .elr,
    .str (.x 0) .sp (31 * 8), .mrs (.x 0) .esr, .str (.x 0) .sp (32 * 8),
    .mrs (.x 0) .far, .str (.x 0) .sp (33 * 8), .mrs (.x 0) .spsr,
    .str (.x 0) .sp (34 * 8), .add (.x 0) .sp (36 * 8),
    .str (.x 0) .sp (35 * 8), .mov (.x 0) .sp] cpu = _
  have inside : ∀ index, index < 36 → cpu.sp + index * 8 < 2 ^ 64 := by
    intro index hindex
    omega
  have hlast : (cpu.sp + 36 * 8) % 2 ^ 64 = cpu.sp + frameSize :=
    Nat.mod_eq_of_lt fits
  rw [execAll_str, execAll_saveSystem, execAll_saveSystem,
    execAll_saveSystem, execAll_saveSystem, execAll_cons rfl,
    execAll_str, execAll_cons rfl]
  · simp only [execAll, Cpu.set, Cpu.get, Cpu.next, Function.update_self,
      hlast, Function.update_idem]
    congr 2
    exact tailWords_eq cpu
  all_goals first
    | exact aligned
    | exact checked
    | exact inside _ (by decide)

theorem execAll_exceptionIrqEntry {base : Nat}
    (hsp : cpu.sp = base + frameSize) (aligned : base % 8 = 0)
    (checked : cpu.stackCheck = true → base % 16 = 0)
    (fits : cpu.sp < 2 ^ 64) :
    execAll exceptionIrqEntry cpu = some { cpu with
      x := Function.update cpu.x 0 base
      sp := base
      pc := cpu.pc + 4 * exceptionIrqEntry.length
      words := fun word =>
        if base / 8 ≤ word ∧ word < base / 8 + 36 then
          frameWords cpu base (word - base / 8)
        else cpu.words word } := by
  have hbase : base + 36 * 8 < 2 ^ 64 := hsp ▸ fits
  have hopen : execAll [.sub .sp .sp (36 * 8)] cpu =
      some { cpu with sp := base, pc := cpu.pc + 4 } := by
    have hlow : (cpu.sp + 2 ^ 64 - 36 * 8) % 2 ^ 64 = base := by
      rw [hsp, frameSize]
      omega
    simp only [execAll, Instruction.exec, Cpu.get, hlow]
    rfl
  have hpairs := @execAll_storePairs { cpu with sp := base, pc := cpu.pc + 4 }
    .sp 0 0 15 (fun _ => checked) (show (base + 0) % 8 = 0 from aligned)
    (show base + 0 + 16 * 15 ≤ 2 ^ 64 by omega)
  have htail := fun words => @execAll_frameTail { cpu with
    sp := base, pc := cpu.pc + 4 + 4 * 15, words := words }
    (fun _ => checked) aligned hbase
  rw [exceptionIrqEntry_eq, execAll_append, hopen, Option.bind_some,
    execAll_append, hpairs, Option.bind_some]
  refine (htail _).trans ?_
  congr 2
  funext word
  unfold Cpu.saved
  dsimp only [Cpu.get]
  simp only [Nat.add_zero, Nat.zero_add]
  by_cases htail : base / 8 + 30 ≤ word ∧ word < base / 8 + 36
  · rw [if_pos htail, if_pos (by omega)]
    rfl
  · rw [if_neg htail]
    by_cases hpair : base / 8 ≤ word ∧ word < base / 8 + 2 * 15
    · rw [if_pos hpair, if_pos (by omega)]
      unfold frameWords
      repeat rw [if_neg (by omega)]
    · rw [if_neg hpair, if_neg (by omega)]

theorem holdsFrame_takeIrq {registers : Registers} {daif : Nat}
    (shows : Shows cpu registers daif) (table : Nat) {base : Nat}
    (hsp : cpu.sp = base + frameSize)
    (fits : Fits { nzcv := registers.nzcv, daif := daif })
    {words : Nat → Nat}
    (hwords : ∀ index, index < 36 →
      words (base / 8 + index) = frameWords (takeIrq table cpu) base index) :
    HoldsFrame words base (saveFrame registers daif (cpu.system .esr)
      (cpu.system .far)) where
  x := by
    intro index hindex
    rw [hwords index (by omega)]
    unfold frameWords
    repeat rw [if_neg (by omega)]
    exact shows.x index hindex
  elr := (hwords 31 (by decide)).trans shows.pc
  esr := hwords 32 (by decide)
  far := hwords 33 (by decide)
  spsr := by
    rw [hwords 34 (by decide)]
    show spsrOf { nzcv := cpu.nzcv, daif := cpu.daif } = _
    rw [shows.nzcv, shows.daif]
    rfl
  sp := by
    rw [hwords 35 (by decide)]
    exact hsp.symm.trans shows.sp
  fits := fits

/-- The core when the stub begins with the pairs of the frame. -/
def unframed (cpu : Cpu) : Cpu :=
  { cpu with
    x := Function.update (Function.update (Function.update cpu.x 30 cpu.sp) 0
      (cpu.words (cpu.sp / 8 + 34))) 16 (cpu.words (cpu.sp / 8 + 35))
    pc := cpu.pc + 4 * 6
    system := Function.update (Function.update cpu.system .elr
      (cpu.words (cpu.sp / 8 + 31))) .spsr (cpu.words (cpu.sp / 8 + 34)) }

theorem execAll_unframed (aligned : cpu.sp % 8 = 0)
    (fits : cpu.sp + frameSize < 2 ^ 64) :
    execAll (exceptionIrqExit.take 6) cpu = some (unframed cpu) := by
  unfold frameSize at fits
  have inside : ∀ index, index < 36 → cpu.sp + index * 8 < 2 ^ 64 := by
    intro index hindex
    omega
  show execAll [.mov (.x 30) .sp, .ldr (.x 0) (.x 30) (31 * 8),
    .msr .elr (.x 0), .ldr (.x 0) (.x 30) (34 * 8), .msr .spsr (.x 0),
    .ldr (.x 16) (.x 30) (35 * 8)] cpu = _
  rw [execAll_cons rfl, @execAll_ldr _ (.x 30) cpu.sp 31, execAll_cons rfl,
    @execAll_ldr _ (.x 30) cpu.sp 34, execAll_cons rfl,
    @execAll_ldr _ (.x 30) cpu.sp 35]
  · simp only [execAll, Cpu.set, Cpu.get, Cpu.next, Function.update_self,
      Function.update_idem]
    rfl
  all_goals first
    | exact aligned
    | exact checked_x 30
    | exact inside _ (by decide)
    | simp [Cpu.set, Cpu.get, Cpu.next]

/-- The registers that the pairs leave to the last four instructions. -/
structure Reloaded (cpu last : Cpu) : Prop where
  x : ∀ index, index < 31 → index ≠ 16 → index ≠ 29 → index ≠ 30 →
    last.x index = cpu.words (cpu.sp / 8 + index)
  stack : last.x 16 = cpu.words (cpu.sp / 8 + 35)
  base : last.x 30 = cpu.sp
  elr : last.system .elr = cpu.words (cpu.sp / 8 + 31)
  spsr : last.system .spsr = cpu.words (cpu.sp / 8 + 34)
  words : last.words = cpu.words

theorem execAll_pairs (aligned : cpu.sp % 8 = 0)
    (fits : cpu.sp + frameSize < 2 ^ 64) :
    ∃ last, execAll (loadPairs (.x 30) 0 0 8 ++
        loadPairs (.x 30) 17 136 6) (unframed cpu) = some last ∧
      Reloaded cpu last := by
  unfold frameSize at fits
  have hlow := @execAll_loadPairs (unframed cpu) (.x 30) 0 0 8 (checked_x 30)
    (show (cpu.sp + 0) % 8 = 0 by omega)
    (show cpu.sp + 0 + 16 * 8 ≤ 2 ^ 64 by omega)
    (by rintro _ ⟨⟩; omega)
  generalize hmiddle : ({ unframed cpu with
    pc := (unframed cpu).pc + 4 * 8
    x := (unframed cpu).restored 0 (((unframed cpu).get (.x 30) + 0) / 8)
      (2 * 8) } : Cpu) = middle at hlow
  have hbase : middle.x 30 = cpu.sp := by
    subst hmiddle
    rfl
  have hhigh := @execAll_loadPairs middle (.x 30) 17 136 6 (checked_x 30)
    (show (middle.x 30 + 136) % 8 = 0 by omega)
    (show middle.x 30 + 136 + 16 * 6 ≤ 2 ^ 64 by omega)
    (by rintro _ ⟨⟩; omega)
  rw [execAll_append, hlow, Option.bind_some]
  refine ⟨_, hhigh, ?_⟩
  have hfirst : ∀ index, index < 16 →
      middle.x index = cpu.words (cpu.sp / 8 + index) := by
    intro index hindex
    subst hmiddle
    refine (if_pos (by omega)).trans ?_
    exact congrArg cpu.words
      (by show (cpu.sp + 0) / 8 + (index - 0) = _; omega)
  have hwords : middle.words = cpu.words := by
    subst hmiddle
    rfl
  refine ⟨?_, ?_, ?_, ?_, ?_, hwords⟩
  · intro index hindex h16 h29 h30
    by_cases hsmall : index < 16
    · exact (if_neg (by omega)).trans (hfirst index hsmall)
    · refine (if_pos (by omega)).trans ?_
      rw [hwords]
      exact congrArg cpu.words
        (by show (middle.x 30 + 136) / 8 + (index - 17) = _; omega)
  · subst hmiddle
    rfl
  · exact hbase
  · subst hmiddle
    rfl
  · subst hmiddle
    rfl

theorem execAll_reframed {last : Cpu} (reloaded : Reloaded cpu last)
    (aligned : cpu.sp % 8 = 0) (fits : cpu.sp + frameSize < 2 ^ 64) :
    ∃ after, execAll (exceptionIrqExit.drop 20) last = some after ∧
      (∀ index, index < 31 →
        after.x index = cpu.words (cpu.sp / 8 + index)) ∧
      after.sp = cpu.words (cpu.sp / 8 + 35) ∧
      after.system = last.system ∧ after.words = cpu.words := by
  unfold frameSize at fits
  have inside : ∀ index, index < 36 → cpu.sp + index * 8 < 2 ^ 64 := by
    intro index hindex
    omega
  show ∃ after, execAll [.ldr (.x 29) (.x 30) (29 * 8), .mov .sp (.x 16),
    .ldr (.x 16) (.x 30) (16 * 8), .ldr (.x 30) (.x 30) (30 * 8)] last =
      some after ∧ _
  rw [@execAll_ldr _ (.x 30) cpu.sp 29, execAll_cons rfl,
    @execAll_ldr _ (.x 30) cpu.sp 16, @execAll_ldr _ (.x 30) cpu.sp 30]
  · refine ⟨_, rfl, ?_, ?_, rfl, reloaded.words⟩
    · intro index hindex
      simp only [Cpu.set, Cpu.next, Function.update_apply, reloaded.words]
      split
      · rename_i heq
        rw [heq]
      · split
        · rename_i heq
          rw [heq]
        · split
          · rename_i heq
            rw [heq]
          · exact reloaded.x index hindex ‹_› ‹_› ‹_›
    · exact reloaded.stack
  all_goals first
    | exact aligned
    | exact checked_x 30
    | exact inside _ (by decide)
    | exact reloaded.base

theorem execAll_exceptionIrqExit (aligned : cpu.sp % 8 = 0)
    (fits : cpu.sp + frameSize < 2 ^ 64) :
    ∃ after, execAll exceptionIrqExit cpu = some after ∧
      (∀ index, index < 31 →
        after.x index = cpu.words (cpu.sp / 8 + index)) ∧
      after.sp = cpu.words (cpu.sp / 8 + 35) ∧
      after.system .elr = cpu.words (cpu.sp / 8 + 31) ∧
      after.system .spsr = cpu.words (cpu.sp / 8 + 34) ∧
      after.words = cpu.words := by
  obtain ⟨last, hpairs, reloaded⟩ := execAll_pairs aligned fits
  obtain ⟨after, hlast, hx, hsp, hsystem, hwords⟩ :=
    execAll_reframed reloaded aligned fits
  refine ⟨after, ?_, hx, hsp, ?_, ?_, hwords⟩
  · rw [exceptionIrqExit_eq, execAll_append, execAll_unframed aligned fits,
      Option.bind_some, execAll_append, hpairs, Option.bind_some, hlast]
  · rw [hsystem, reloaded.elr]
  · rw [hsystem, reloaded.spsr]

theorem spsrOf_decodes {pstate : PState} (fits : Fits pstate) :
    spsrOf pstate % 32 = Cpu.spsrMode ∧
      spsrOf pstate / 2 ^ 28 % 16 = pstate.nzcv ∧
      spsrOf pstate / 2 ^ 6 % 16 = pstate.daif := by
  obtain ⟨hnzcv, hdaif⟩ := fits
  unfold spsrOf Cpu.spsrMode
  omega

structure CallsHandler (handler base : Nat) (frame : ExceptionContext)
    (cpu called : Cpu) : Prop where
  pc : called.pc = handler
  context : called.x 0 = base
  sp : called.sp = base
  masked : called.daif = 15
  frame : HoldsFrame called.words base frame
  others : ∀ word, word < base / 8 ∨ base / 8 + 36 ≤ word →
    called.words word = cpu.words word

theorem exceptionIrq_calls (vectors : Vectors code) {registers : Registers}
    {daif : Nat} (shows : Shows cpu registers daif)
    (fits : Fits { nzcv := registers.nzcv, daif := daif }) {base : Nat}
    (hsp : cpu.sp = base + frameSize) (aligned : base % 8 = 0)
    (checked : cpu.stackCheck = true → base % 16 = 0)
    (bounded : cpu.sp < 2 ^ 64) :
    ∃ called, Reaches code (takeIrq vectors.table cpu) called ∧
      called.x 30 = vectors.irq + 4 * exceptionIrqEntry.length + 4 ∧
      CallsHandler vectors.irqExceptionHandler base
        (saveFrame registers daif (cpu.system .esr) (cpu.system .far)) cpu
          called := by
  have hvector : Step code (takeIrq vectors.table cpu)
      { takeIrq vectors.table cpu with pc := vectors.irq } :=
    .exec (vectors.branches 5 (.b vectors.irq) rfl) rfl
  obtain ⟨hentry, hcall, _⟩ := placed_append.mp vectors.stub
  have hrun := @execAll_exceptionIrqEntry
    { takeIrq vectors.table cpu with pc := vectors.irq } base hsp aligned
    checked bounded
  obtain ⟨hreaches, hpc⟩ := reaches_execAll hentry (by decide) hrun
  have hlast : ∀ after : Cpu, after.pc = vectors.irq +
      4 * exceptionIrqEntry.length → ∃ called, Step code after called ∧
        called.x 30 = after.pc + 4 ∧ called.x 0 = after.x 0 ∧
        called = { after with
          x := called.x, pc := vectors.irqExceptionHandler } := by
    intro after hafter
    refine ⟨{ (after.set (.x 30) (after.pc + 4)) with
      pc := vectors.irqExceptionHandler }, ?_, rfl, rfl, rfl⟩
    exact .exec (hafter ▸ hcall) rfl
  obtain ⟨called, hstep, hreturn, hcontext, hrest⟩ := hlast _ hpc
  refine ⟨called, .trans (.single hvector) (hreaches.tail hstep), ?_, ?_⟩
  · rw [hreturn, hpc]
  · rw [hrest]
    refine ⟨rfl, hcontext, rfl, rfl, ?_, ?_⟩
    · refine holdsFrame_takeIrq shows vectors.table hsp fits fun index hindex => ?_
      refine (if_pos (by omega)).trans ?_
      rw [Nat.add_sub_cancel_left]
      rfl
    · exact fun word hword => if_neg (by omega)

theorem exceptionIrq_resumes (vectors : Vectors code) {base : Nat}
    {frame : ExceptionContext} (aligned : base % 8 = 0)
    (bounded : base + frameSize < 2 ^ 64)
    (hpc : cpu.pc = vectors.irq + 4 * exceptionIrqEntry.length + 4)
    (hsp : cpu.sp = base) (holds : HoldsFrame cpu.words base frame)
    (registers : Registers) :
    ∃ resumed, Reaches code cpu resumed ∧
      Shows resumed (loadFrame frame registers) frame.spsr.daif ∧
      resumed.words = cpu.words := by
  subst hsp
  obtain ⟨_, _, hrest⟩ := placed_append.mp vectors.stub
  obtain ⟨hexit, heret, _⟩ := placed_append.mp hrest
  rw [← hpc] at hexit heret
  obtain ⟨after, hrun, hx, hafter, helr, hspsr, hwords⟩ :=
    execAll_exceptionIrqExit aligned bounded
  obtain ⟨hreaches, hlast⟩ := reaches_execAll hexit (by decide) hrun
  obtain ⟨hmode, hnzcv, hdaif⟩ := spsrOf_decodes holds.fits
  rw [holds.spsr] at hspsr
  have hexec : Instruction.exec after .eret = some { after with
      pc := after.system .elr
      nzcv := after.system .spsr / 2 ^ 28 % 16
      daif := after.system .spsr / 2 ^ 6 % 16 } := by
    rw [Instruction.exec, hspsr]
    exact if_pos hmode
  refine ⟨_, hreaches.tail (.exec ?_ hexec), ?_, hwords⟩
  · rw [hlast]
    exact heret
  · constructor
    · intro index hindex
      refine (hx index hindex).trans ((holds.x index hindex).trans ?_)
      exact (if_pos hindex).symm
    · exact hafter.trans holds.sp
    · exact helr.trans holds.elr
    · show after.system .spsr / 2 ^ 28 % 16 = frame.spsr.nzcv
      rw [hspsr, hnzcv]
    · show after.system .spsr / 2 ^ 6 % 16 = frame.spsr.daif
      rw [hspsr, hdaif]

/-- Whatever the core executes when it takes an interrupt, `exception_irq`
calls the handler with the frame that `saveFrame` describes, and, whatever
frame the handler leaves when it returns, goes on with the registers and the
mask that `loadFrame` gives for it. -/
theorem exceptionIrq_refines (vectors : Vectors code) {registers : Registers}
    {daif : Nat} (shows : Shows cpu registers daif)
    (fits : Fits { nzcv := registers.nzcv, daif := daif }) {base : Nat}
    (hsp : cpu.sp = base + frameSize) (aligned : base % 8 = 0)
    (checked : cpu.stackCheck = true → base % 16 = 0)
    (bounded : cpu.sp < 2 ^ 64) :
    ∃ called, Reaches code (takeIrq vectors.table cpu) called ∧
      CallsHandler vectors.irqExceptionHandler base
        (saveFrame registers daif (cpu.system .esr) (cpu.system .far)) cpu
          called ∧
      ∀ (returned : Cpu) (frame : ExceptionContext),
        returned.pc = called.x 30 → returned.sp = base →
        HoldsFrame returned.words base frame →
        ∃ resumed, Reaches code returned resumed ∧
          Shows resumed (loadFrame frame registers) frame.spsr.daif ∧
          resumed.words = returned.words := by
  obtain ⟨called, hreaches, hreturn, hcalled⟩ :=
    exceptionIrq_calls vectors shows fits hsp aligned checked bounded
  refine ⟨called, hreaches, hcalled, ?_⟩
  intro returned frame hpc hreturned holds
  exact exceptionIrq_resumes vectors aligned (hsp ▸ bounded)
    (hpc.trans hreturn) hreturned holds registers

end

/-! The code at fixed addresses, and a core that does nothing. -/

def smallCode : Image := fun pc =>
  if pc < 2048 then (exceptionVectorTable 8192 4096 8192 8192)[pc / 128]?
  else (exceptionIrq 8192)[(pc - 4096) / 4]?

def smallVectors : Vectors smallCode where
  table := 0
  sync := 8192
  irq := 4096
  fiq := 8192
  serror := 8192
  irqExceptionHandler := 8192
  branches := by
    intro entry instruction hentry
    have hlast := (List.getElem?_eq_some_iff.mp hentry).1
    rw [show (exceptionVectorTable 8192 4096 8192 8192).length = 16 from rfl]
      at hlast
    unfold smallCode
    rw [if_pos (by omega), show (0 + 128 * entry) / 128 = entry by omega]
    exact hentry
  stub := by
    refine placed_of_getElem? fun index instruction hindex => ?_
    unfold smallCode
    rw [if_neg (by omega), show (4096 + 4 * index - 4096) / 4 = index by omega]
    exact hindex

def idleRegisters : Registers where
  x := fun _ => 0
  sp := ⟨0x10018, 0x1000⟩
  pc := 0x3000
  nzcv := 0

def idleCpu : Cpu where
  x := fun _ => 0
  sp := 0x11018
  pc := 0x3000
  nzcv := 0
  daif := 0
  system := fun _ => 0
  words := fun _ => 0
  stackCheck := false

theorem idleCpu_shows : Shows idleCpu idleRegisters 0 :=
  ⟨fun _ _ => rfl, rfl, rfl, rfl, rfl⟩

/-- The stack pointer of a task of which the stack came from `kmalloc`. -/
theorem exceptionIrq_refines_idle :
    ∃ called, Reaches smallCode (takeIrq 0 idleCpu) called ∧
      CallsHandler 8192 (0x11018 - frameSize)
        (saveFrame idleRegisters 0 0 0) idleCpu called ∧
      ∀ (returned : Cpu) (frame : ExceptionContext),
        returned.pc = called.x 30 → returned.sp = 0x11018 - frameSize →
        HoldsFrame returned.words (0x11018 - frameSize) frame →
        ∃ resumed, Reaches smallCode returned resumed ∧
          Shows resumed (loadFrame frame idleRegisters) frame.spsr.daif ∧
          resumed.words = returned.words :=
  exceptionIrq_refines smallVectors idleCpu_shows
    ⟨by decide, by decide⟩ rfl rfl nofun (by decide)

end Planetoid.Arch
