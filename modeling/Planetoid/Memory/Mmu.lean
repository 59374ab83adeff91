import Planetoid.Memory.PhysicalMemory

namespace Planetoid.Memory

open Planetoid Program

/-! `memory/mmu.cpp`. -/

namespace MemoryBlockAttributes

def attrNormalMemory : Nat := 0 <<< 2
def attrDeviceMemory : Nat := 1 <<< 2
def attrAccess : Nat := 1 <<< 10
def attrShareable : Nat := 0b11 <<< 8
def attrEl1Rw : Nat := 0b00 <<< 6
def attrEl1Ro : Nat := 0b10 <<< 6
def attrPxn : Nat := 1 <<< 53
def attrUxn : Nat := 1 <<< 54

end MemoryBlockAttributes

namespace Mmu

open MemoryBlockAttributes

def tableDescriptor : Nat := 0b11
def blockDescriptor : Nat := 0b01
def pageDescriptor : Nat := 0b11

def addressMask : Nat := 0x0000FFFFFFFFF000

def makeTableDescriptor (address : Nat) : Nat :=
  (address &&& addressMask) ||| tableDescriptor

def makeNormalBlockDescriptor (address permissions : Nat) : Nat :=
  (address &&& addressMask) ||| blockDescriptor ||| attrNormalMemory |||
    attrAccess ||| attrShareable ||| permissions

def makeDeviceBlockDescriptor (address permissions : Nat) : Nat :=
  (address &&& addressMask) ||| blockDescriptor ||| attrDeviceMemory |||
    attrAccess ||| permissions

def makeNormalPageDescriptor (address permissions : Nat) : Nat :=
  (address &&& addressMask) ||| pageDescriptor ||| attrNormalMemory |||
    attrAccess ||| attrShareable ||| permissions

def makeDevicePageDescriptor (address permissions : Nat) : Nat :=
  (address &&& addressMask) ||| pageDescriptor ||| attrDeviceMemory |||
    attrAccess ||| permissions

def getLevel1Index (virtualAddress : Nat) : Nat :=
  (virtualAddress >>> 30) &&& 0x1FF

def getLevel2Index (virtualAddress : Nat) : Nat :=
  (virtualAddress >>> 21) &&& 0x1FF

def getLevel3Index (virtualAddress : Nat) : Nat :=
  (virtualAddress >>> 12) &&& 0x1FF

def entry (table index : Nat) : Vm Nat := read (·.tables table index)

/-- `table[index] = value`. -/
def setEntry (table index value : Nat) : Vm Unit :=
  write fun state => { state with
    tables := Function.update state.tables table
      (Function.update (state.tables table) index value) }

def invalidateTlb (virtualAddress : Nat) : Vm Unit :=
  write fun state => { state with
    tlb := Function.update state.tlb (virtualAddress >>> 12) none }

def invalidateTlbAll : Vm Unit :=
  write fun state => { state with tlb := fun _ => none }

section

variable {platform : Platform} (image : KernelImage platform)

def allocatePageTable (platform : Platform) : Vm (Option Nat) := do
  let physicalAddress ← PhysicalMemory.allocateFrame platform
  if physicalAddress = 0 then
    pure none
  else do
    forEach (fun i => setEntry physicalAddress i 0) 0 512
    pure (some physicalAddress)

def getOrCreateLevel2Table (virtualAddress : Nat) : Vm (Option Nat) := do
  let level1Index := getLevel1Index virtualAddress
  let level1Entry ← entry image.level1Table level1Index
  if level1Entry ≠ 0 then
    pure (some (level1Entry &&& addressMask))
  else
    match ← allocatePageTable platform with
    | none => pure none
    | some pageTable => do
      setEntry image.level1Table level1Index (makeTableDescriptor pageTable)
      pure (some pageTable)

def getOrCreateLevel3Table (platform : Platform)
    (level2Table virtualAddress : Nat) : Vm (Option Nat) := do
  let level2Index := getLevel2Index virtualAddress
  let level2Entry ← entry level2Table level2Index
  if level2Entry ≠ 0 then
    if level2Entry &&& 0b11 ≠ tableDescriptor then
      pure none
    else
      pure (some (level2Entry &&& addressMask))
  else
    match ← allocatePageTable platform with
    | none => pure none
    | some pageTable => do
      setEntry level2Table level2Index (makeTableDescriptor pageTable)
      pure (some pageTable)

inductive EMemoryType where
  | normal
  | device
  deriving DecidableEq, Repr

def makePageDescriptor (memoryType : EMemoryType)
    (physicalAddress permissions : Nat) : Nat :=
  match memoryType with
  | .normal => makeNormalPageDescriptor physicalAddress permissions
  | .device => makeDevicePageDescriptor physicalAddress permissions

def mapPage (virtualAddress physicalAddress : Nat) (memoryType : EMemoryType)
    (permissions : Nat) : Vm Bool :=
  if virtualAddress &&& 0xFFF ≠ 0 ∨ physicalAddress &&& 0xFFF ≠ 0 then
    pure false
  else do
    match ← getOrCreateLevel2Table image virtualAddress with
    | none => pure false
    | some level2Table =>
      match ← getOrCreateLevel3Table platform level2Table virtualAddress with
      | none => pure false
      | some level3Table => do
        let level3Index := getLevel3Index virtualAddress
        if (← entry level3Table level3Index) ≠ 0 then
          pure false
        else do
          setEntry level3Table level3Index
            (makePageDescriptor memoryType physicalAddress permissions)
          invalidateTlb virtualAddress
          pure true

/-- The walk of `unmap_page` and `get_physical_address` to the level 3
table. -/
def findLevel3Table (virtualAddress : Nat) : Vm (Option Nat) := do
  let level1Entry ← entry image.level1Table (getLevel1Index virtualAddress)
  if level1Entry = 0 then
    pure none
  else if level1Entry &&& 0b11 ≠ tableDescriptor then
    pure none
  else do
    let level2Table := level1Entry &&& addressMask
    let level2Entry ← entry level2Table (getLevel2Index virtualAddress)
    if level2Entry = 0 then
      pure none
    else if level2Entry &&& 0b11 ≠ tableDescriptor then
      pure none
    else
      pure (some (level2Entry &&& addressMask))

def unmapPage (virtualAddress : Nat) : Vm Bool :=
  if virtualAddress &&& 0xFFF ≠ 0 then
    pure false
  else do
    match ← findLevel3Table image virtualAddress with
    | none => pure false
    | some level3Table => do
      let level3Index := getLevel3Index virtualAddress
      if (← entry level3Table level3Index) = 0 then
        pure false
      else do
        setEntry level3Table level3Index 0
        invalidateTlb virtualAddress
        pure true

def getPhysicalAddress (virtualAddress : Nat) : Vm Nat := do
  let pageOffset := virtualAddress &&& 0xFFF
  match ← findLevel3Table image virtualAddress with
  | none => pure 0
  | some level3Table => do
    let level3Entry ← entry level3Table (getLevel3Index virtualAddress)
    if level3Entry = 0 then
      pure 0
    else if level3Entry &&& 0b11 ≠ pageDescriptor then
      pure 0
    else
      pure ((level3Entry &&& addressMask) + pageOffset)

end

section

variable {platform : Platform} (image : KernelImage platform)

def initPi5 : Vm Unit := do
  setEntry image.level1Table 0 (makeTableDescriptor image.level2LowTable)
  setEntry image.level1Table 65 (makeTableDescriptor image.level2HighTable)
  forEach (fun i => setEntry image.level2LowTable i
    (makeNormalBlockDescriptor (i * 0x200000) attrEl1Rw)) 0 512
  setEntry image.level2LowTable 1
    (makeTableDescriptor image.level3KernelTable)
  setEntry image.level2HighTable 488
    (makeDeviceBlockDescriptor 0x107D000000 (attrEl1Rw ||| attrPxn ||| attrUxn))
  setEntry image.level2HighTable 490
    (makeDeviceBlockDescriptor 0x107D400000 (attrEl1Rw ||| attrPxn ||| attrUxn))
  setEntry image.level2HighTable 511
    (makeDeviceBlockDescriptor 0x107FE00000 (attrEl1Rw ||| attrPxn ||| attrUxn))

def initVirt : Vm Unit := do
  setEntry image.level1Table 0 (makeTableDescriptor image.level2LowTable)
  setEntry image.level1Table 1 (makeTableDescriptor image.level2HighTable)
  setEntry image.level2LowTable 64
    (makeDeviceBlockDescriptor 0x08000000 (attrEl1Rw ||| attrPxn ||| attrUxn))
  setEntry image.level2LowTable 72
    (makeDeviceBlockDescriptor 0x09000000 (attrEl1Rw ||| attrPxn ||| attrUxn))
  setEntry image.level2HighTable 0
    (makeTableDescriptor image.level3KernelTable)
  forEach (fun i => setEntry image.level2HighTable i
    (makeNormalBlockDescriptor (0x40000000 + i * 0x200000) attrEl1Rw)) 1 511

def initPlatform : Vm Unit :=
  match platform with
  | .pi5 => initPi5 image
  | .virt => initVirt image

def mapSection (part : Section) (permissions : Nat) : Vm Unit :=
  forEach (fun step =>
    let address := part.start + step * 0x1000
    setEntry image.level3KernelTable
      ((address - platform.kernelBase) / 0x1000)
      (makeNormalPageDescriptor address permissions))
    0 ((part.stop - part.start + 0xFFF) / 0x1000)

def init : Vm Unit := do
  forEach (fun i => do
    setEntry image.level1Table i 0
    setEntry image.level3KernelTable i 0
    setEntry image.level2LowTable i 0
    setEntry image.level2HighTable i 0) 0 512
  initPlatform image
  forEach (fun i => setEntry image.level3KernelTable i
    (makeNormalPageDescriptor (platform.kernelBase + i * 0x1000) attrEl1Rw))
    0 512
  mapSection image image.text attrEl1Ro
  mapSection image image.rodata (attrEl1Ro ||| attrPxn)
  mapSection image image.data (attrEl1Rw ||| attrPxn)
  mapSection image image.bss (attrEl1Rw ||| attrPxn)
  mapSection image image.stack (attrEl1Rw ||| attrPxn)
  invalidateTlbAll

end

end Mmu

end Planetoid.Memory
