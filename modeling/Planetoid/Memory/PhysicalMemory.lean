import Planetoid.Base.Bitmap
import Planetoid.Base.Program
import Planetoid.Memory.Platform

namespace Planetoid.Memory

open Planetoid Program

/-- The globals of `physical_memory.cpp`, `virtual_memory.cpp` and `mmu.cpp`.
A page table is an array of entries at a page-aligned physical address. -/
structure MemoryState where
  physicalBitmap : Bitmap
  frameCount : Nat
  virtualBitmap : Bitmap
  tables : Nat → Nat → Nat
  /-- The translation that the TLB holds for a page. -/
  tlb : Nat → Option Nat

abbrev Vm := Program MemoryState Fault

namespace PhysicalMemory

/-! `memory/physical_memory.cpp`. -/

def bitmapSize : Nat := 0x20000

def setFrameUsed (frame : Nat) : Vm Unit := do
  let byte ← read (·.physicalBitmap (frame / 8))
  write fun state => { state with
    physicalBitmap := Function.update state.physicalBitmap (frame / 8)
      (byte ||| (1#8 <<< (frame % 8))) }

def setFrameFree (frame : Nat) : Vm Unit := do
  let byte ← read (·.physicalBitmap (frame / 8))
  write fun state => { state with
    physicalBitmap := Function.update state.physicalBitmap (frame / 8)
      (byte &&& ~~~(1#8 <<< (frame % 8))) }

def isFrameUsed (frame : Nat) : Vm Bool :=
  read (·.physicalBitmap.test frame)

section

variable (platform : Platform)

def getFrameNumber (address : Nat) : Nat :=
  (address - platform.physicalMemoryBase) / pageSize

/-- `x & ~(PAGE_SIZE - 1)`. -/
def alignDown (address : Nat) : Nat := address - address % pageSize

def setFrameRangeUsed (address size : Nat) : Vm Unit :=
  let alignedStart := alignDown address
  let alignedEnd := alignDown (address + size + pageSize - 1)
  let firstFrame := getFrameNumber platform alignedStart
  let frameCountInRange := (alignedEnd - alignedStart) / pageSize
  forEach (fun frame => setFrameUsed (firstFrame + frame)) 0 frameCountInRange

/-- The loop of `init` over the regions of the memory map. -/
def freeRegions : MemoryMap → Vm Unit
  | [] => pure ()
  | region :: rest => do
    if region.type = .usable then do
      let firstFrame := getFrameNumber platform region.base
      let frameCountInRegion := region.size / pageSize
      write fun state => { state with
        frameCount := state.frameCount + frameCountInRegion }
      forEach (fun frame => setFrameFree (firstFrame + frame)) 0
        frameCountInRegion
      freeRegions rest
    else
      freeRegions rest

def init (map : MemoryMap) (kernelStart kernelEnd : Nat) : Vm Unit := do
  forEach (fun i => write fun state => { state with
    physicalBitmap := Function.update state.physicalBitmap i 0xFF#8 })
    0 bitmapSize
  write fun state => { state with frameCount := 0 }
  freeRegions platform map
  if platform = .pi5 then
    setFrameRangeUsed platform 0 kernelStart
  setFrameRangeUsed platform kernelStart (kernelEnd - kernelStart)

def allocateFrame : Vm Nat := do
  let frameCount ← read (·.frameCount)
  match ← forRange (fun frame _ => do
      if ← isFrameUsed frame then
        pure (.inl ())
      else do
        setFrameUsed frame
        pure (.inr (platform.physicalMemoryBase + frame * pageSize)))
      0 frameCount () with
  | .inl _ => pure 0
  | .inr address => pure address

def freeFrame (address : Nat) : Vm Unit := do
  if address < platform.physicalMemoryBase then
    pure ()
  else if address % pageSize ≠ 0 then
    pure ()
  else do
    let frame := getFrameNumber platform address
    if frame ≥ (← read (·.frameCount)) then
      pure ()
    else
      setFrameFree frame

end

end PhysicalMemory

end Planetoid.Memory
