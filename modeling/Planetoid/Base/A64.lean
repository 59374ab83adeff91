import Mathlib.Algebra.Group.Nat.Defs
import Mathlib.Data.List.Range
import Mathlib.Logic.Function.Basic
import Mathlib.Logic.Relation

namespace Planetoid.A64

/-! A part of the A64 instruction set, and the execution of code without
branches. -/

inductive Operand where
  | x (index : Nat)
  | sp
  | xzr
  deriving DecidableEq, Repr

inductive SystemRegister where
  | elr
  | spsr
  | esr
  | far
  deriving DecidableEq, Repr

/-- A core at EL1. Its memory consists of words of eight bytes, which are
accessed as a whole. `stackCheck` is the bit `SA` of SCTLR_EL1. -/
structure Cpu where
  x : Nat → Nat
  sp : Nat
  pc : Nat
  nzcv : Nat
  daif : Nat
  system : SystemRegister → Nat
  words : Nat → Nat
  stackCheck : Bool

/-- `target` is an address, and `value` what the linker puts in its place. -/
inductive Instruction where
  | add (rd rn : Operand) (immediate : Nat)
  | sub (rd rn : Operand) (immediate : Nat)
  | mov (rd rn : Operand)
  | literal (rd : Operand) (value : Nat)
  | str (rt rn : Operand) (offset : Nat)
  | stp (rt rt2 rn : Operand) (offset : Nat)
  | ldr (rt rn : Operand) (offset : Nat)
  | ldp (rt rt2 rn : Operand) (offset : Nat)
  | mrs (rt : Operand) (register : SystemRegister)
  | msr (register : SystemRegister) (rt : Operand)
  | daifClr (immediate : Nat)
  | isb
  | cmp (rn rm : Operand)
  | b (target : Nat)
  | bhs (target : Nat)
  | bl (target : Nat)
  | blr (rn : Operand)
  | br (rn : Operand)
  | wfi
  | ret
  | eret
  deriving DecidableEq, Repr

namespace Cpu

def get (cpu : Cpu) : Operand → Nat
  | .x index => cpu.x index
  | .sp => cpu.sp
  | .xzr => 0

def set (cpu : Cpu) (operand : Operand) (value : Nat) : Cpu :=
  match operand with
  | .x index => { cpu with x := Function.update cpu.x index value }
  | .sp => { cpu with sp := value }
  | .xzr => cpu

def next (cpu : Cpu) : Cpu := { cpu with pc := cpu.pc + 4 }

def Checked (cpu : Cpu) (rn : Operand) : Prop :=
  rn = .sp → cpu.stackCheck = true → cpu.sp % 16 = 0

instance (cpu : Cpu) (rn : Operand) : Decidable (cpu.Checked rn) :=
  inferInstanceAs (Decidable (_ → _ → _))

/-- The address of an access, if it is one of a whole word. -/
def address (cpu : Cpu) (rn : Operand) (offset : Nat) : Option Nat :=
  let address := (cpu.get rn + offset) % 2 ^ 64
  if cpu.Checked rn ∧ address % 8 = 0 then some address else none

def store (cpu : Cpu) (address value : Nat) : Cpu :=
  { cpu with words := Function.update cpu.words (address / 8) value }

def compare (first second : Nat) : Nat :=
  let result := (first + 2 ^ 64 - second) % 2 ^ 64
  let negative := result / 2 ^ 63
  let overflow :=
    if first / 2 ^ 63 ≠ second / 2 ^ 63 ∧ result / 2 ^ 63 ≠ first / 2 ^ 63
    then 1 else 0
  8 * negative + 4 * (if result = 0 then 1 else 0) +
    2 * (if second ≤ first then 1 else 0) + overflow

/-- SPSR holds a state of EL1 that uses its own stack pointer. -/
def spsrMode : Nat := 5

end Cpu

open Cpu in
def Instruction.exec (cpu : Cpu) : Instruction → Option Cpu
  | .add rd rn immediate =>
    some (cpu.set rd ((cpu.get rn + immediate) % 2 ^ 64)).next
  | .sub rd rn immediate =>
    some (cpu.set rd ((cpu.get rn + 2 ^ 64 - immediate) % 2 ^ 64)).next
  | .mov rd rn => some (cpu.set rd (cpu.get rn)).next
  | .literal rd value => some (cpu.set rd value).next
  | .str rt rn offset => do
    let address ← cpu.address rn offset
    some (cpu.store address (cpu.get rt)).next
  | .stp rt rt2 rn offset => do
    let first ← cpu.address rn offset
    let second ← cpu.address rn (offset + 8)
    some ((cpu.store first (cpu.get rt)).store second (cpu.get rt2)).next
  | .ldr rt rn offset => do
    let address ← cpu.address rn offset
    some (cpu.set rt (cpu.words (address / 8))).next
  | .ldp rt rt2 rn offset => do
    let first ← cpu.address rn offset
    let second ← cpu.address rn (offset + 8)
    some ((cpu.set rt (cpu.words (first / 8))).set rt2
      (cpu.words (second / 8))).next
  | .mrs rt register => some (cpu.set rt (cpu.system register)).next
  | .msr register rt => some { cpu with
      system := Function.update cpu.system register (cpu.get rt) }.next
  | .daifClr immediate => some { cpu with
      daif := cpu.daif &&& (15 - immediate) }.next
  | .isb => some cpu.next
  | .cmp rn rm => some { cpu with
      nzcv := compare (cpu.get rn) (cpu.get rm) }.next
  | .b target => some { cpu with pc := target }
  | .bhs target =>
    some (if cpu.nzcv / 2 % 2 = 1 then { cpu with pc := target } else cpu.next)
  | .bl target => some { (cpu.set (.x 30) (cpu.pc + 4)) with pc := target }
  | .blr rn =>
    some { (cpu.set (.x 30) (cpu.pc + 4)) with pc := cpu.get rn }
  | .br rn => some { cpu with pc := cpu.get rn }
  | .wfi => some cpu.next
  | .ret => some { cpu with pc := cpu.x 30 }
  | .eret =>
    if cpu.system .spsr % 32 = spsrMode then
      some { cpu with
        pc := cpu.system .elr
        nzcv := cpu.system .spsr / 2 ^ 28 % 16
        daif := cpu.system .spsr / 2 ^ 6 % 16 }
    else none

def Instruction.isStraight : Instruction → Bool
  | .b _ | .bhs _ | .bl _ | .blr _ | .br _ | .ret | .eret => false
  | _ => true

abbrev Image := Nat → Option Instruction

inductive Step (code : Image) : Cpu → Cpu → Prop
  | exec {cpu after : Cpu} {instruction : Instruction}
      (fetched : code cpu.pc = some instruction)
      (executed : instruction.exec cpu = some after) : Step code cpu after

abbrev Reaches (code : Image) : Cpu → Cpu → Prop :=
  Relation.ReflTransGen (Step code)

def Placed (code : Image) : Nat → List Instruction → Prop
  | _, [] => True
  | address, instruction :: rest =>
    code address = some instruction ∧ Placed code (address + 4) rest

def execAll : List Instruction → Cpu → Option Cpu
  | [], cpu => some cpu
  | instruction :: rest, cpu => (instruction.exec cpu).bind (execAll rest)

section

variable {code : Image} {cpu middle after : Cpu}

@[simp] theorem next_pc : cpu.next.pc = cpu.pc + 4 := rfl
@[simp] theorem next_x : cpu.next.x = cpu.x := rfl
@[simp] theorem next_sp : cpu.next.sp = cpu.sp := rfl
@[simp] theorem next_words : cpu.next.words = cpu.words := rfl
@[simp] theorem next_system : cpu.next.system = cpu.system := rfl
@[simp] theorem next_daif : cpu.next.daif = cpu.daif := rfl
@[simp] theorem next_nzcv : cpu.next.nzcv = cpu.nzcv := rfl

@[simp] theorem set_pc (operand : Operand) (value : Nat) :
    (cpu.set operand value).pc = cpu.pc := by
  cases operand <;> rfl

theorem exec_pc {instruction : Instruction}
    (straight : instruction.isStraight = true)
    (h : instruction.exec cpu = some after) : after.pc = cpu.pc + 4 := by
  cases instruction with
  | add | sub | mov | literal | mrs =>
      obtain rfl := Option.some.inj h
      rw [next_pc, set_pc]
  | msr | daifClr | isb | cmp | wfi =>
      obtain rfl := Option.some.inj h
      rfl
  | str rt rn offset =>
      simp only [Instruction.exec, Option.bind_eq_bind, Option.bind_eq_some_iff]
        at h
      obtain ⟨_, _, h⟩ := h
      obtain rfl := Option.some.inj h
      rfl
  | stp rt rt2 rn offset =>
      simp only [Instruction.exec, Option.bind_eq_bind, Option.bind_eq_some_iff]
        at h
      obtain ⟨_, _, _, _, h⟩ := h
      obtain rfl := Option.some.inj h
      rfl
  | ldr rt rn offset =>
      simp only [Instruction.exec, Option.bind_eq_bind, Option.bind_eq_some_iff]
        at h
      obtain ⟨_, _, h⟩ := h
      obtain rfl := Option.some.inj h
      rw [next_pc, set_pc]
  | ldp rt rt2 rn offset =>
      simp only [Instruction.exec, Option.bind_eq_bind, Option.bind_eq_some_iff]
        at h
      obtain ⟨_, _, _, _, h⟩ := h
      obtain rfl := Option.some.inj h
      rw [next_pc, set_pc, set_pc]
  | b | bhs | bl | blr | br | ret | eret => cases straight

theorem reaches_execAll {block : List Instruction}
    (placed : Placed code cpu.pc block)
    (straight : ∀ instruction ∈ block, instruction.isStraight = true)
    (h : execAll block cpu = some after) :
    Reaches code cpu after ∧ after.pc = cpu.pc + 4 * block.length := by
  induction block generalizing cpu with
  | nil =>
      obtain rfl := Option.some.inj h
      exact ⟨.refl, rfl⟩
  | cons instruction rest ih =>
      obtain ⟨middle, hfirst, hrest⟩ := Option.bind_eq_some_iff.mp h
      have hpc := exec_pc (straight instruction (.head _)) hfirst
      obtain ⟨hreaches, hlast⟩ := ih (hpc ▸ placed.2)
        (fun other hother => straight other (.tail _ hother)) hrest
      refine ⟨.head (.exec placed.1 hfirst) hreaches, ?_⟩
      rw [hlast, hpc, List.length_cons]
      omega

theorem execAll_append (first second : List Instruction) :
    execAll (first ++ second) cpu = (execAll first cpu).bind
      (execAll second) := by
  induction first generalizing cpu with
  | nil => rfl
  | cons instruction rest ih =>
      simp only [List.cons_append, execAll]
      cases instruction.exec cpu with
      | none => rfl
      | some middle => exact ih

theorem placed_append {first second : List Instruction} {address : Nat} :
    Placed code address (first ++ second) ↔
      Placed code address first ∧
        Placed code (address + 4 * first.length) second := by
  induction first generalizing address with
  | nil => simp [Placed]
  | cons instruction rest ih =>
      simp only [List.cons_append, Placed, ih, and_assoc, List.length_cons]
      rw [show address + 4 + 4 * rest.length =
        address + 4 * (rest.length + 1) by omega]

theorem checked_x (index : Nat) : cpu.Checked (.x index) := by
  intro h
  cases h

theorem address_eq {rn : Operand} {offset : Nat} (checked : cpu.Checked rn)
    (aligned : (cpu.get rn + offset) % 8 = 0)
    (fits : cpu.get rn + offset < 2 ^ 64) :
    cpu.address rn offset = some (cpu.get rn + offset) := by
  unfold Cpu.address
  rw [Nat.mod_eq_of_lt fits]
  exact if_pos ⟨checked, aligned⟩

theorem placed_of_getElem? {block : List Instruction} {address : Nat}
    (h : ∀ index instruction, block[index]? = some instruction →
      code (address + 4 * index) = some instruction) :
    Placed code address block := by
  induction block generalizing address with
  | nil => trivial
  | cons first rest ih =>
      refine ⟨h 0 first rfl, ih fun index instruction hindex => ?_⟩
      rw [show address + 4 + 4 * index = address + 4 * (index + 1) by omega]
      exact h (index + 1) instruction hindex

theorem execAll_cons {instruction : Instruction}
    (h : instruction.exec cpu = some middle) (rest : List Instruction) :
    execAll (instruction :: rest) cpu = execAll rest middle := by
  rw [execAll, h, Option.bind_some]

theorem exec_str {rn : Operand} {offset : Nat} (checked : cpu.Checked rn)
    (aligned : (cpu.get rn + offset) % 8 = 0)
    (fits : cpu.get rn + offset < 2 ^ 64) (rt : Operand) :
    (Instruction.str rt rn offset).exec cpu =
      some (cpu.store (cpu.get rn + offset) (cpu.get rt)).next := by
  simp only [Instruction.exec, address_eq checked aligned fits]
  rfl

theorem exec_ldr {rn : Operand} {offset : Nat} (checked : cpu.Checked rn)
    (aligned : (cpu.get rn + offset) % 8 = 0)
    (fits : cpu.get rn + offset < 2 ^ 64) (rt : Operand) :
    (Instruction.ldr rt rn offset).exec cpu =
      some (cpu.set rt (cpu.words ((cpu.get rn + offset) / 8))).next := by
  simp only [Instruction.exec, address_eq checked aligned fits]
  rfl

theorem execAll_str {rn : Operand} (checked : cpu.Checked rn)
    (aligned : cpu.get rn % 8 = 0) {index : Nat}
    (fits : cpu.get rn + index * 8 < 2 ^ 64) (rt : Operand)
    (rest : List Instruction) :
    execAll (.str rt rn (index * 8) :: rest) cpu = execAll rest { cpu with
      pc := cpu.pc + 4
      words := Function.update cpu.words (cpu.get rn / 8 + index)
        (cpu.get rt) } := by
  refine (execAll_cons (exec_str checked ?_ fits rt) rest).trans ?_
  · omega
  · unfold Cpu.store Cpu.next
    rw [Nat.add_mul_div_right _ _ (by decide)]

theorem execAll_storeValue {rn : Operand} {scratch value : Nat}
    (other : rn ≠ .x scratch) {instruction : Instruction}
    (moved : instruction.exec cpu = some (cpu.set (.x scratch) value).next)
    (checked : cpu.Checked rn) (aligned : cpu.get rn % 8 = 0) {index : Nat}
    (fits : cpu.get rn + index * 8 < 2 ^ 64) (rest : List Instruction) :
    execAll (instruction :: .str (.x scratch) rn (index * 8) :: rest) cpu =
      execAll rest { cpu with
        x := Function.update cpu.x scratch value
        pc := cpu.pc + 8
        words := Function.update cpu.words (cpu.get rn / 8 + index)
          value } := by
  have hget : (cpu.set (.x scratch) value).next.get rn = cpu.get rn := by
    cases rn with
    | x index =>
        have hother : index ≠ scratch := by
          rintro rfl
          exact other rfl
        exact Function.update_of_ne hother value cpu.x
    | sp | xzr => rfl
  have hvalue : (cpu.set (.x scratch) value).next.get (.x scratch) =
      value := by
    show Function.update cpu.x scratch value scratch = value
    rw [Function.update_self]
  rw [execAll_cons moved]
  refine (@execAll_str (cpu.set (.x scratch) value).next rn checked
    (by rwa [hget]) index (by rwa [hget]) (.x scratch) rest).trans ?_
  rw [hget, hvalue]
  rfl

theorem execAll_ldr {rn : Operand} {base index : Nat}
    (hbase : cpu.get rn = base) (checked : cpu.Checked rn)
    (aligned : base % 8 = 0) (fits : base + index * 8 < 2 ^ 64)
    (rt : Operand) (rest : List Instruction) :
    execAll (.ldr rt rn (index * 8) :: rest) cpu = execAll rest
      (cpu.set rt (cpu.words (base / 8 + index))).next := by
  subst hbase
  refine (execAll_cons (exec_ldr checked ?_ fits rt) rest).trans ?_
  · omega
  · rw [Nat.add_mul_div_right _ _ (by decide)]

end

/-! Saving and restoring consecutive registers in consecutive words. -/

/-- `stp` of the registers `first`, `first + 1` and so on in pairs. -/
def storePairs (rn : Operand) (first offset count : Nat) :
    List Instruction :=
  (List.range count).map fun pair =>
    .stp (.x (first + 2 * pair)) (.x (first + 2 * pair + 1)) rn
      (offset + 16 * pair)

def loadPairs (rn : Operand) (first offset count : Nat) :
    List Instruction :=
  (List.range count).map fun pair =>
    .ldp (.x (first + 2 * pair)) (.x (first + 2 * pair + 1)) rn
      (offset + 16 * pair)

namespace Cpu

/-- `count` registers from `first` on are in the words from `word` on. -/
def saved (cpu : Cpu) (first word count : Nat) : Nat → Nat :=
  fun index =>
    if word ≤ index ∧ index < word + count then cpu.x (first + (index - word))
    else cpu.words index

/-- `count` registers from `first` on have the words from `word` on. -/
def restored (cpu : Cpu) (first word count : Nat) : Nat → Nat :=
  fun index =>
    if first ≤ index ∧ index < first + count then
      cpu.words (word + (index - first))
    else cpu.x index

theorem saved_next (cpu : Cpu) (first word count : Nat) :
    Function.update (cpu.saved first word count) (word + count)
      (cpu.x (first + count)) = cpu.saved first word (count + 1) := by
  funext index
  unfold saved
  rw [Function.update_apply]
  by_cases heq : index = word + count
  · subst heq
    rw [if_pos rfl, if_pos (by omega), Nat.add_sub_cancel_left]
  · have hsame : (word ≤ index ∧ index < word + count) ↔
        word ≤ index ∧ index < word + (count + 1) := by omega
    rw [if_neg heq]
    simp only [hsame]

theorem restored_next (cpu : Cpu) (first word count : Nat) :
    Function.update (cpu.restored first word count) (first + count)
      (cpu.words (word + count)) = cpu.restored first word (count + 1) := by
  funext index
  unfold restored
  rw [Function.update_apply]
  by_cases heq : index = first + count
  · subst heq
    rw [if_pos rfl, if_pos (by omega), Nat.add_sub_cancel_left]
  · have hsame : (first ≤ index ∧ index < first + count) ↔
        first ≤ index ∧ index < first + (count + 1) := by omega
    rw [if_neg heq]
    simp only [hsame]

end Cpu

section

variable {cpu : Cpu} {rn : Operand} {first offset count : Nat}

theorem storePairs_succ : storePairs rn first offset (count + 1) =
    storePairs rn first offset count ++
      [.stp (.x (first + 2 * count)) (.x (first + 2 * count + 1)) rn
        (offset + 16 * count)] := by
  unfold storePairs
  rw [List.range_succ, List.map_append]
  rfl

theorem loadPairs_succ : loadPairs rn first offset (count + 1) =
    loadPairs rn first offset count ++
      [.ldp (.x (first + 2 * count)) (.x (first + 2 * count + 1)) rn
        (offset + 16 * count)] := by
  unfold loadPairs
  rw [List.range_succ, List.map_append]
  rfl

theorem address_word (checked : cpu.Checked rn)
    (aligned : (cpu.get rn + offset) % 8 = 0) {index : Nat} (fits : cpu.get rn + offset + 8 * index < 2 ^ 64) :
    ∃ address, cpu.address rn (offset + 8 * index) = some address ∧
      address / 8 = (cpu.get rn + offset) / 8 + index :=
  ⟨_, address_eq checked (by omega) (by omega), by omega⟩

theorem execAll_storePairs (checked : cpu.Checked rn)
    (aligned : (cpu.get rn + offset) % 8 = 0)
    (fits : cpu.get rn + offset + 16 * count ≤ 2 ^ 64) :
    execAll (storePairs rn first offset count) cpu = some { cpu with
      pc := cpu.pc + 4 * count
      words := cpu.saved first ((cpu.get rn + offset) / 8) (2 * count) } := by
  induction count with
  | zero =>
      have hwords : cpu.saved first ((cpu.get rn + offset) / 8) (2 * 0) =
          cpu.words := by
        funext index
        exact if_neg (by omega)
      rw [hwords]
      rfl
  | succ count ih =>
      rw [storePairs_succ, execAll_append, ih (by omega)]
      generalize hmiddle : ({ cpu with
        pc := cpu.pc + 4 * count
        words := cpu.saved first ((cpu.get rn + offset) / 8) (2 * count) } :
          Cpu) = middle
      have hget : middle.get rn = cpu.get rn := by
        subst hmiddle
        cases rn <;> rfl
      have hchecked : middle.Checked rn := by
        subst hmiddle
        exact checked
      obtain ⟨low, hlow, hlowWord⟩ := @address_word middle rn offset
        hchecked (by rwa [hget]) (2 * count) (by rw [hget]; omega)
      obtain ⟨high, hhigh, hhighWord⟩ := @address_word middle rn offset
        hchecked (by rwa [hget]) (2 * count + 1) (by rw [hget]; omega)
      rw [hget] at hlowWord hhighWord
      have hexec : execAll [.stp (.x (first + 2 * count))
          (.x (first + 2 * count + 1)) rn (offset + 16 * count)] middle =
          some ((middle.store low (middle.x (first + 2 * count))).store high
            (middle.x (first + 2 * count + 1))).next := by
        simp only [execAll, Instruction.exec,
          show offset + 16 * count = offset + 8 * (2 * count) by omega, hlow,
          show offset + 8 * (2 * count) + 8 = offset + 8 * (2 * count + 1)
            by omega, hhigh]
        rfl
      refine hexec.trans (congrArg some ?_)
      subst hmiddle
      unfold Cpu.store Cpu.next
      dsimp only
      rw [hlowWord, hhighWord, Cpu.saved_next, Nat.add_assoc first,
        Cpu.saved_next]
      rfl

theorem execAll_loadPairs (checked : cpu.Checked rn)
    (aligned : (cpu.get rn + offset) % 8 = 0)
    (fits : cpu.get rn + offset + 16 * count ≤ 2 ^ 64)
    (base : ∀ index, rn = .x index →
      index < first ∨ first + 2 * count ≤ index) :
    execAll (loadPairs rn first offset count) cpu = some { cpu with
      pc := cpu.pc + 4 * count
      x := cpu.restored first ((cpu.get rn + offset) / 8) (2 * count) } := by
  induction count with
  | zero =>
      have hx : cpu.restored first ((cpu.get rn + offset) / 8) (2 * 0) =
          cpu.x := by
        funext index
        exact if_neg (by omega)
      rw [hx]
      rfl
  | succ count ih =>
      rw [loadPairs_succ, execAll_append,
        ih (by omega) fun index hindex => by have := base index hindex; omega]
      generalize hmiddle : ({ cpu with
        pc := cpu.pc + 4 * count
        x := cpu.restored first ((cpu.get rn + offset) / 8) (2 * count) } :
          Cpu) = middle
      have hget : middle.get rn = cpu.get rn := by
        subst hmiddle
        cases rn with
        | x index =>
            have hapart := base index rfl
            exact if_neg (by omega)
        | sp | xzr => rfl
      have hchecked : middle.Checked rn := by
        subst hmiddle
        exact checked
      obtain ⟨low, hlow, hlowWord⟩ := @address_word middle rn offset
        hchecked (by rwa [hget]) (2 * count) (by rw [hget]; omega)
      obtain ⟨high, hhigh, hhighWord⟩ := @address_word middle rn offset
        hchecked (by rwa [hget]) (2 * count + 1) (by rw [hget]; omega)
      rw [hget] at hlowWord hhighWord
      have hexec : execAll [.ldp (.x (first + 2 * count))
          (.x (first + 2 * count + 1)) rn (offset + 16 * count)] middle =
          some ((middle.set (.x (first + 2 * count))
            (middle.words (low / 8))).set (.x (first + 2 * count + 1))
              (middle.words (high / 8))).next := by
        simp only [execAll, Instruction.exec,
          show offset + 16 * count = offset + 8 * (2 * count) by omega, hlow,
          show offset + 8 * (2 * count) + 8 = offset + 8 * (2 * count + 1)
            by omega, hhigh]
        rfl
      refine hexec.trans (congrArg some ?_)
      subst hmiddle
      unfold Cpu.set Cpu.next
      dsimp only
      rw [hlowWord, hhighWord, Cpu.restored_next, Nat.add_assoc first,
        Cpu.restored_next]
      rfl

end

end Planetoid.A64
