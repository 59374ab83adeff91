import Planetoid.Memory.Mmu

namespace Planetoid.Memory.VirtualMemory

open Planetoid Program Mmu MemoryBlockAttributes

/-! `memory/virtual_memory.cpp`. -/

def virtualMemoryStart : Nat := 0x80000000

def virtualMemoryEnd : Nat := 0x81000000

def virtualPageCount : Nat :=
  (virtualMemoryEnd - virtualMemoryStart) / pageSize

theorem virtualPageCount_eq : virtualPageCount = 4096 := by decide

def virtualBitmapSize : Nat := virtualPageCount / 8

def setPageUsed (page : Nat) : Vm Unit := do
  let byte ← read (·.virtualBitmap (page / 8))
  write fun state => { state with
    virtualBitmap := Function.update state.virtualBitmap (page / 8)
      (byte ||| (1#8 <<< (page % 8))) }

def setPageFree (page : Nat) : Vm Unit := do
  let byte ← read (·.virtualBitmap (page / 8))
  write fun state => { state with
    virtualBitmap := Function.update state.virtualBitmap (page / 8)
      (byte &&& ~~~(1#8 <<< (page % 8))) }

def isPageUsed (page : Nat) : Vm Bool :=
  read (·.virtualBitmap.test page)

def findFreePage : Vm Nat := do
  match ← forRange (fun page _ => do
      if ← isPageUsed page then pure (.inl ()) else pure (.inr page))
      0 virtualPageCount () with
  | .inl _ => pure virtualPageCount
  | .inr page => pure page

def init : Vm Unit :=
  forEach (fun i => write fun state => { state with
    virtualBitmap := Function.update state.virtualBitmap i 0#8 })
    0 virtualBitmapSize

section

variable {platform : Platform} (image : KernelImage platform)

def poolPermissions : Nat := attrEl1Rw ||| attrPxn

def allocatePage : Vm Nat := do
  let page ← findFreePage
  if page = virtualPageCount then
    pure 0
  else do
    let frame ← PhysicalMemory.allocateFrame platform
    if frame = 0 then
      pure 0
    else do
      let virtualAddress := virtualMemoryStart + page * pageSize
      if ← mapPage image virtualAddress frame .normal poolPermissions then do
        setPageUsed page
        pure virtualAddress
      else do
        PhysicalMemory.freeFrame platform frame
        pure 0

/-- The body of the first loop of `allocate_pages`, over
`consecutive_free_pages`, which leaves it with `first_page`. -/
def countFreePage (pageCount currentPage consecutiveFreePages : Nat) :
    Vm (Nat ⊕ Nat) := do
  if ← isPageUsed currentPage then
    pure (.inl 0)
  else if consecutiveFreePages + 1 = pageCount then
    -- `current_page - page_count + 1`, which wraps back to 0 on page 0
    pure (.inr (currentPage + 1 - pageCount))
  else
    pure (.inl (consecutiveFreePages + 1))

def findFreePages (pageCount : Nat) : Vm Nat := do
  match ← forRange (countFreePage pageCount) 0 virtualPageCount 0 with
  | .inl _ => pure virtualPageCount
  | .inr firstPage => pure firstPage

/-- The body of the second loop of `allocate_pages`, over
`allocated_page_count`, which a `break` returns. -/
def allocateNext (page allocatedPageCount : Nat) : Vm (Nat ⊕ Nat) := do
  let virtualAddress := virtualMemoryStart + page * pageSize
  let frame ← PhysicalMemory.allocateFrame platform
  if frame = 0 then
    pure (.inr allocatedPageCount)
  else if ← mapPage image virtualAddress frame .normal poolPermissions then do
    setPageUsed page
    pure (.inl (allocatedPageCount + 1))
  else do
    PhysicalMemory.freeFrame platform frame
    pure (.inr allocatedPageCount)

def rollBack (page : Nat) : Vm Unit := do
  let virtualAddress := virtualMemoryStart + page * pageSize
  let frame ← getPhysicalAddress image virtualAddress
  let _ ← unmapPage image virtualAddress
  PhysicalMemory.freeFrame platform frame
  setPageFree page

def allocatePages (pageCount : Nat) : Vm Nat :=
  if pageCount = 0 then
    pure 0
  else if pageCount > virtualPageCount then
    pure 0
  else do
    let firstPage ← findFreePages pageCount
    if firstPage = virtualPageCount then
      pure 0
    else do
      let stopped ← forRange (allocateNext image) firstPage pageCount 0
      let allocatedPageCount := stopped.elim id id
      if allocatedPageCount ≠ pageCount then do
        forEach (rollBack image) firstPage allocatedPageCount
        pure 0
      else
        pure (virtualMemoryStart + firstPage * pageSize)

def freePage (virtualAddress : Nat) : Vm Bool :=
  if virtualAddress < virtualMemoryStart ∨
      virtualAddress ≥ virtualMemoryEnd then
    pure false
  else if virtualAddress &&& (pageSize - 1) ≠ 0 then
    pure false
  else do
    let page := (virtualAddress - virtualMemoryStart) / pageSize
    if !(← isPageUsed page) then
      pure false
    else do
      let physicalAddress ← getPhysicalAddress image virtualAddress
      if physicalAddress = 0 then
        pure false
      else if !(← unmapPage image virtualAddress) then
        pure false
      else do
        PhysicalMemory.freeFrame platform physicalAddress
        setPageFree page
        pure true

def checkPage (virtualAddress i : Nat) : Vm (Unit ⊕ Bool) := do
  let pageAddress := virtualAddress + i * pageSize
  if !(← isPageUsed ((pageAddress - virtualMemoryStart) / pageSize)) then
    pure (.inr false)
  else if (← getPhysicalAddress image pageAddress) = 0 then
    pure (.inr false)
  else
    pure (.inl ())

def freePages (virtualAddress pageCount : Nat) : Vm Bool :=
  if pageCount = 0 ∨ pageCount > virtualPageCount then
    pure false
  else if virtualAddress < virtualMemoryStart ∨
      virtualAddress ≥ virtualMemoryEnd then
    pure false
  else if virtualAddress &&& (pageSize - 1) ≠ 0 then
    pure false
  else
    let lastVirtualAddress := virtualAddress + (pageCount - 1) * pageSize
    if lastVirtualAddress ≥ virtualMemoryEnd then
      pure false
    else do
      match ← forRange (fun i _ => checkPage image virtualAddress i)
          0 pageCount () with
      | .inr result => pure result
      | .inl _ =>
        match ← forRange (fun i _ => do
            if !(← freePage image (virtualAddress + i * pageSize)) then
              pure (.inr false)
            else
              pure (.inl ())) 0 pageCount () with
        | .inr result => pure result
        | .inl _ => pure true

end

end Planetoid.Memory.VirtualMemory
