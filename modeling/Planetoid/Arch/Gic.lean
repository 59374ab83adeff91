import Mathlib.Tactic.IntervalCases
import Planetoid.Base.Program
import Planetoid.Memory.Platform

namespace Planetoid.Arch

open Program Planetoid.Memory

/-! The interrupt controller, a GICv2, and its driver `gic.cpp`. -/

/-- The controller. An interrupt is named by what a read of IAR gives for it:
its id in the ten low bits, above them the core that it comes from. -/
structure Gic where
  distCtl : Nat
  typer : Nat
  enabled : Nat → Bool
  priority : Nat → Nat
  cpuCtl : Nat
  pmr : Nat
  pending : Nat → Bool
  active : List Nat

/-- What a read of IAR gives when no interrupt is signalled. -/
def spurious : Nat := 1023

def interruptId (name : Nat) : Nat := name % 1024

namespace Gic

def lineCount (gic : Gic) : Nat := 32 * ((gic.typer &&& 0x1F) + 1)

/-- A write to ISENABLER or ICENABLER of a bank of 32 interrupts. -/
def writeEnable (gic : Gic) (bank value : Nat) (enable : Bool) : Gic :=
  { gic with enabled := fun id =>
      if id / 32 = bank ∧ value.testBit (id % 32) then enable
      else gic.enabled id }

/-- A write to IPRIORITYR, one byte for each of four interrupts. -/
def writePriority (gic : Gic) (group value : Nat) : Gic :=
  { gic with priority := fun id =>
      if id / 4 = group then value >>> (8 * (id % 4)) % 256
      else gic.priority id }

def writeDist (gic : Gic) (offset value : Nat) : Gic :=
  if offset = 0x000 then { gic with distCtl := value }
  else if 0x100 ≤ offset ∧ offset < 0x180 then
    gic.writeEnable ((offset - 0x100) / 4) value true
  else if 0x180 ≤ offset ∧ offset < 0x200 then
    gic.writeEnable ((offset - 0x180) / 4) value false
  else if 0x400 ≤ offset ∧ offset < 0x800 then
    gic.writePriority ((offset - 0x400) / 4) value
  else gic

/-- A write to EOIR of a value that was not acknowledged is ignored. -/
def writeCpu (gic : Gic) (offset value : Nat) : Gic :=
  if offset = 0x000 then { gic with cpuCtl := value }
  else if offset = 0x004 then { gic with pmr := value }
  else if offset = 0x010 then
    { gic with active := gic.active.erase value }
  else gic

/-- The controller has the interrupt, it is enabled, and its priority lets it
through. -/
structure Forwards (gic : Gic) (name : Nat) : Prop where
  dist : gic.distCtl % 2 = 1
  cpu : gic.cpuCtl % 2 = 1
  exist : interruptId name < gic.lineCount
  known : interruptId name < 1020
  enabled : gic.enabled (interruptId name) = true
  unmasked : gic.priority (interruptId name) < gic.pmr
  preempts : ∀ running ∈ gic.active,
    gic.priority (interruptId name) < gic.priority (interruptId running)

end Gic

namespace GIC

abbrev GicCode (α : Type) := Program Gic Fault α

section

variable (platform : Platform)

def gicDistBase : Platform → Nat
  | .virt => 0x08000000
  | .pi5 => 0x107FFF9000

def gicCpuBase : Platform → Nat
  | .virt => 0x08010000
  | .pi5 => 0x107FFFA000

def gicDistCtl : Nat := gicDistBase platform + 0x000
def gicDistIsenablerBase : Nat := gicDistBase platform + 0x100
def gicDistIcenablerBase : Nat := gicDistBase platform + 0x180
def gicDistPriorityBase : Nat := gicDistBase platform + 0x400

def gicCpuCtl : Nat := gicCpuBase platform + 0x000
def gicCpuPmr : Nat := gicCpuBase platform + 0x004
def gicCpuEoi : Nat := gicCpuBase platform + 0x010

def write32 (address value : Nat) : GicCode Unit :=
  write fun gic =>
    if gicCpuBase platform ≤ address ∧
        address < gicCpuBase platform + 0x1000 then
      gic.writeCpu (address - gicCpuBase platform) value
    else if gicDistBase platform ≤ address ∧
        address < gicDistBase platform + 0x1000 then
      gic.writeDist (address - gicDistBase platform) value
    else gic

def init : GicCode Unit := do
  write32 platform (gicDistCtl platform) 0
  let typer ← read (·.typer)
  let interruptLineCount := (typer &&& 0x1F) + 1
  forEach (fun i =>
    write32 platform (gicDistIcenablerBase platform + i * 4) 0xFFFFFFFF)
    1 (interruptLineCount - 1)
  forEach (fun i =>
    write32 platform (gicDistPriorityBase platform + i * 4) 0xA0A0A0A0)
    0 (interruptLineCount * 8)
  write32 platform (gicCpuPmr platform) 0xFF
  write32 platform (gicCpuCtl platform) 1
  write32 platform (gicDistCtl platform) 1

def enableInterrupt (interruptId : Nat) : GicCode Unit :=
  let registerIndex := interruptId / 32
  let bit := interruptId % 32
  write32 platform (gicDistIsenablerBase platform + registerIndex * 4)
    (1 <<< bit)

def endInterrupt (interruptId : Nat) : GicCode Unit :=
  write32 platform (gicCpuEoi platform) interruptId

end

section

variable {platform : Platform} (gic : Gic)

theorem run_write32_dist {offset : Nat} (h : offset < 0x1000) (value : Nat) :
    (write32 platform (gicDistBase platform + offset) value).run gic =
      .ok ((), gic.writeDist offset value) := by
  rw [write32, run_write, if_neg, if_pos, Nat.add_sub_cancel_left]
  · omega
  · cases platform <;> simp only [gicDistBase, gicCpuBase] <;> omega

theorem run_write32_cpu {offset : Nat} (h : offset < 0x1000) (value : Nat) :
    (write32 platform (gicCpuBase platform + offset) value).run gic =
      .ok ((), gic.writeCpu offset value) := by
  rw [write32, run_write, if_pos (by omega), Nat.add_sub_cancel_left]

theorem run_icenabler {bank : Nat} (h : bank < 32) (value : Nat) :
    (write32 platform (gicDistIcenablerBase platform + bank * 4) value).run
      gic = .ok ((), gic.writeEnable bank value false) := by
  rw [gicDistIcenablerBase, Nat.add_assoc, run_write32_dist gic (by omega),
    Gic.writeDist, if_neg (by omega), if_neg (by omega), if_pos (by omega),
    show (0x180 + bank * 4 - 0x180) / 4 = bank by omega]

theorem run_isenabler {bank : Nat} (h : bank < 32) (value : Nat) :
    (write32 platform (gicDistIsenablerBase platform + bank * 4) value).run
      gic = .ok ((), gic.writeEnable bank value true) := by
  rw [gicDistIsenablerBase, Nat.add_assoc, run_write32_dist gic (by omega),
    Gic.writeDist, if_neg (by omega), if_pos (by omega),
    show (0x100 + bank * 4 - 0x100) / 4 = bank by omega]

theorem run_priority {group : Nat} (h : group < 256) (value : Nat) :
    (write32 platform (gicDistPriorityBase platform + group * 4) value).run
      gic = .ok ((), gic.writePriority group value) := by
  rw [gicDistPriorityBase, Nat.add_assoc, run_write32_dist gic (by omega),
    Gic.writeDist, if_neg (by omega), if_neg (by omega), if_neg (by omega),
    if_pos (by omega), show (0x400 + group * 4 - 0x400) / 4 = group by omega]

theorem run_endInterrupt (name : Nat) :
    (endInterrupt platform name).run gic =
      .ok ((), { gic with active := gic.active.erase name }) :=
  run_write32_cpu gic (by decide) name

theorem run_enableInterrupt {id : Nat} (h : id < 1024) :
    (enableInterrupt platform id).run gic =
      .ok ((), { gic with enabled := Function.update gic.enabled id true }) := by
  rw [enableInterrupt, run_isenabler gic (by omega), Gic.writeEnable]
  congr 3
  funext other
  have hbit : (1 <<< (id % 32)).testBit (other % 32) =
      decide (id % 32 = other % 32) := by
    rw [Nat.one_shiftLeft, Nat.testBit_two_pow]
  rw [hbit, Function.update_apply]
  congr 1
  simp only [decide_eq_true_eq, eq_iff_iff]
  omega

end

end GIC

/-- The controller after `GIC::init`. The enable bits of the first bank, which
are those of the core, are left as they were. -/
def Gic.initialised (gic : Gic) : Gic :=
  { gic with
    distCtl := 1
    cpuCtl := 1
    pmr := 0xFF
    enabled := fun id =>
      if 32 ≤ id ∧ id < gic.lineCount then false else gic.enabled id
    priority := fun id =>
      if id < gic.lineCount then 0xA0 else gic.priority id }

namespace GIC

def disabled (gic : Gic) (banks : Nat) : Gic :=
  { gic with enabled := fun id =>
      if 32 ≤ id ∧ id < 32 * (banks + 1) then false else gic.enabled id }

/-- The controller whose first `groups` groups have the priority of `init`. -/
def prioritised (gic : Gic) (groups : Nat) : Gic :=
  { gic with priority := fun id =>
      if id < 4 * groups then 0xA0 else gic.priority id }

theorem writeEnable_disabled (gic : Gic) (banks : Nat) :
    (disabled gic banks).writeEnable (1 + banks) 0xFFFFFFFF false =
      disabled gic (banks + 1) := by
  have hbits : ∀ id, (0xFFFFFFFF : Nat).testBit (id % 32) = true := by
    intro id
    rw [show (0xFFFFFFFF : Nat) = 2 ^ 32 - 1 from rfl,
      Nat.testBit_two_pow_sub_one, decide_eq_true_eq]
    exact Nat.mod_lt id (by decide)
  unfold Gic.writeEnable disabled
  simp only [hbits, and_true]
  congr 1
  funext id
  by_cases hbank : id / 32 = 1 + banks
  · rw [if_pos hbank, if_pos (by omega)]
  · rw [if_neg hbank]
    have hsame : (32 ≤ id ∧ id < 32 * (banks + 1)) ↔
        32 ≤ id ∧ id < 32 * (banks + 1 + 1) := by omega
    simp only [hsame]

theorem writePriority_prioritised (gic : Gic) (groups : Nat) :
    (prioritised gic groups).writePriority (0 + groups) 0xA0A0A0A0 =
      prioritised gic (groups + 1) := by
  have hbyte : ∀ id, (0xA0A0A0A0 : Nat) >>> (8 * (id % 4)) % 256 = 0xA0 := by
    intro id
    have hlt : id % 4 < 4 := Nat.mod_lt id (by decide)
    generalize id % 4 = byte at hlt
    interval_cases byte <;> rfl
  unfold Gic.writePriority prioritised
  simp only [hbyte, Nat.zero_add]
  congr 1
  funext id
  by_cases hgroup : id / 4 = groups
  · rw [if_pos hgroup, if_pos (by omega)]
  · rw [if_neg hgroup]
    have hsame : id < 4 * groups ↔ id < 4 * (groups + 1) := by omega
    simp only [hsame]

theorem run_disable (platform : Platform) (gic : Gic) {banks : Nat}
    (h : banks < 32) :
    (forEach (fun i =>
      write32 platform (gicDistIcenablerBase platform + i * 4) 0xFFFFFFFF)
      1 banks).run gic = .ok ((), disabled gic banks) := by
  have hstart : disabled gic 0 = gic := by
    unfold disabled
    congr 1
    funext id
    exact if_neg (by omega)
  have hloop := @run_forEach _ Fault
    (fun i => write32 platform (gicDistIcenablerBase platform + i * 4)
      0xFFFFFFFF) (disabled gic) 1 banks (by
        intro bank hbank
        rw [run_icenabler _ (by omega), writeEnable_disabled])
  rwa [hstart] at hloop

theorem run_prioritise (platform : Platform) (gic : Gic) {groups : Nat}
    (h : groups ≤ 256) :
    (forEach (fun i =>
      write32 platform (gicDistPriorityBase platform + i * 4) 0xA0A0A0A0)
      0 groups).run gic = .ok ((), prioritised gic groups) := by
  have hstart : prioritised gic 0 = gic := by
    unfold prioritised
    congr 1
  have hloop := @run_forEach _ Fault
    (fun i => write32 platform (gicDistPriorityBase platform + i * 4)
      0xA0A0A0A0) (prioritised gic) 0 groups (by
        intro group hgroup
        rw [Nat.zero_add, run_priority _ (by omega),
          ← writePriority_prioritised, Nat.zero_add])
  rwa [hstart] at hloop

theorem run_init (platform : Platform) (gic : Gic) :
    (init platform).run gic = .ok ((), gic.initialised) := by
  have hlines : gic.typer &&& 0x1F < 2 ^ 5 :=
    Nat.and_lt_two_pow _ (by decide)
  have hstop : (write32 platform (gicDistCtl platform) 0).run gic =
      .ok ((), { gic with distCtl := 0 }) :=
    run_write32_dist gic (by decide) 0
  have hdisable := run_disable platform { gic with distCtl := 0 } hlines
  have hprioritise := run_prioritise platform
    (disabled { gic with distCtl := 0 } (gic.typer &&& 0x1F))
    (show ((gic.typer &&& 0x1F) + 1) * 8 ≤ 256 by omega)
  rw [init, run_bind_ok hstop, run_read_bind]
  dsimp only
  rw [Nat.add_sub_cancel, run_bind_ok hdisable, run_bind_ok hprioritise]
  generalize hset : prioritised _ _ = set
  have hmask : (write32 platform (gicCpuPmr platform) 0xFF).run set =
      .ok ((), { set with pmr := 0xFF }) :=
    run_write32_cpu set (by decide) 0xFF
  have hinterface : ∀ gic, (write32 platform (gicCpuCtl platform) 1).run gic =
      .ok ((), { gic with cpuCtl := 1 }) :=
    fun gic => run_write32_cpu gic (by decide) 1
  have hforward : ∀ gic, (write32 platform (gicDistCtl platform) 1).run gic =
      .ok ((), { gic with distCtl := 1 }) :=
    fun gic => run_write32_dist gic (by decide) 1
  have hgroups : 4 * (((gic.typer &&& 0x1F) + 1) * 8) = gic.lineCount := by
    unfold Gic.lineCount
    omega
  rw [run_bind_ok hmask, run_bind_ok (hinterface _), hforward, ← hset]
  unfold Gic.initialised disabled prioritised
  rw [hgroups]
  rfl

end GIC

end Planetoid.Arch
