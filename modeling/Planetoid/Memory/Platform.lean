import Mathlib.Data.Nat.Bitwise

namespace Planetoid.Memory

/-! The two platforms and the layout that the linker scripts give the kernel. -/

inductive Platform where
  | virt
  | pi5
  deriving DecidableEq, Repr

def pageSize : Nat := 4096

namespace Platform

def physicalMemoryBase : Platform → Nat
  | virt => 0x40000000
  | pi5 => 0x00000000

def kernelBase : Platform → Nat
  | virt => 0x40000000
  | pi5 => 0x00200000

end Platform

/-! `memory/memory_map.cpp`. -/

inductive ERegionType where
  | usable
  | reserved
  | device
  deriving DecidableEq, Repr

structure MemoryRegion where
  base : Nat
  size : Nat
  type : ERegionType

abbrev MemoryMap := List MemoryRegion

/-- `get_memory_map()`. -/
def Platform.memoryMap : Platform → MemoryMap
  | virt => [{ base := 0x40000000, size := 0x100000000, type := .usable }]
  | pi5 => [{ base := 0x00000000, size := 0x40000000, type := .usable }]

structure Section where
  start : Nat
  stop : Nat

/-- The symbols of the linker script, and the addresses of the page tables
that `mmu.cpp` declares. -/
structure KernelImage (platform : Platform) where
  text : Section
  rodata : Section
  data : Section
  bss : Section
  stack : Section
  level1Table : Nat
  level3KernelTable : Nat
  level2LowTable : Nat
  level2HighTable : Nat
  aligned : ∀ part ∈ [text, rodata, data, bss, stack],
    part.start % pageSize = 0
  ordered : ∀ part ∈ [text, rodata, data, bss, stack],
    part.start ≤ part.stop
  consecutive : text.stop ≤ rodata.start ∧ rodata.stop ≤ data.start ∧
    data.stop ≤ bss.start ∧ bss.stop ≤ stack.start
  inWindow : platform.kernelBase ≤ text.start ∧
    stack.stop ≤ platform.kernelBase + 0x200000
  tables_aligned : ∀ table ∈ [level1Table, level3KernelTable, level2LowTable,
    level2HighTable], table % pageSize = 0
  tables_bss : ∀ table ∈ [level1Table, level3KernelTable, level2LowTable,
    level2HighTable], bss.start ≤ table ∧ table + pageSize ≤ bss.stop
  tables_nodup : [level1Table, level3KernelTable, level2LowTable,
    level2HighTable].Nodup

def KernelImage.kernelStart (image : KernelImage platform) : Nat :=
  image.text.start

def KernelImage.kernelEnd (image : KernelImage platform) : Nat :=
  image.stack.stop

end Planetoid.Memory
