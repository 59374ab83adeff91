import Planetoid.Base.Bytes
import Planetoid.Memory.Paging
import Planetoid.Memory.VirtualMemory

namespace Planetoid.Memory

open Planetoid Program Mmu

/-- The heap with the memory that it uses, in words of 8 bytes at their
physical addresses. -/
structure HeapState where
  memory : MemoryState
  ram : Nat → BitVec 64
  firstBlock : Nat
  created : List Nat

abbrev HeapProgram := Program HeapState Fault

section

variable {platform : Platform} (image : KernelImage platform)

def HeapState.translate (state : HeapState) (address : Nat) : Option Nat :=
  let entry := leafAt image state.memory (level1Of address)
    (level2Of address) (level3Of address)
  if entry &&& 0b11 = pageDescriptor then
    some ((entry &&& addressMask) + address % pageSize)
  else
    none

/-- One store to a word, which may keep a part of it. -/
def HeapState.modify (state : HeapState) (address : Nat)
    (change : BitVec 64 → BitVec 64) : HeapState :=
  match state.translate image address with
  | none => state
  | some physical => { state with
    ram := Function.update state.ram physical (change (state.ram physical)) }

namespace KernelHeapAllocator

/-! `memory/kernel_heap.cpp`. -/

/-- An access to an address without a page is a fault. -/
def loadWord (address : Nat) : HeapProgram (BitVec 64) :=
  .access id fun state => match state.translate image address with
    | none => .fail .unmapped
    | some physical => .ret (state.ram physical)

def modifyWord (address : Nat) (change : BitVec 64 → BitVec 64) :
    HeapProgram Unit :=
  .access (·.modify image address change) fun state =>
    match state.translate image address with
    | none => .fail .unmapped
    | some _ => .ret ()

def loadByte (address : Nat) : HeapProgram (BitVec 8) := do
  let word ← loadWord image (address - address % 8)
  pure (byteOf word (address % 8))

def storeByte (address : Nat) (byte : BitVec 8) : HeapProgram Unit :=
  modifyWord image (address - address % 8) fun word =>
    setByte word (address % 8) byte

/-! `struct Block`: `size` at 0, `free` at 8, `large` at 9 and `next` at 16. -/

def sizeofBlock : Nat := 24

def loadSize (block : Nat) : HeapProgram Nat := do
  let word ← loadWord image block
  pure word.toNat

def storeSize (block size : Nat) : HeapProgram Unit :=
  modifyWord image block fun _ => BitVec.ofNat 64 size

def loadFree (block : Nat) : HeapProgram Bool := do
  let byte ← loadByte image (block + 8)
  pure (byte != 0)

def storeFree (block : Nat) (free : Bool) : HeapProgram Unit :=
  storeByte image (block + 8) (if free then 1 else 0)

def loadLarge (block : Nat) : HeapProgram Bool := do
  let byte ← loadByte image (block + 9)
  pure (byte != 0)

def storeLarge (block : Nat) (large : Bool) : HeapProgram Unit :=
  storeByte image (block + 9) (if large then 1 else 0)

def loadNext (block : Nat) : HeapProgram Nat := do
  let word ← loadWord image (block + 16)
  pure word.toNat

def storeNext (block next : Nat) : HeapProgram Unit :=
  modifyWord image (block + 16) fun _ => BitVec.ofNat 64 next

def callVm (program : Vm α) : HeapProgram α :=
  program.zoom HeapState.memory fun memory state =>
    { state with memory := memory }

def uint64 (value : Nat) : Nat := value % 2 ^ 64

def alignSize (size : Nat) : Nat :=
  let rounded := uint64 (size + 7)
  rounded - rounded % 8

/-- `(total_size / PAGE_SIZE) + ((total_size % PAGE_SIZE) != 0)`. -/
def pageCount (size : Nat) : Nat :=
  let totalSize := uint64 (size + sizeofBlock)
  totalSize / pageSize + (if totalSize % pageSize ≠ 0 then 1 else 0)

def createBlock : HeapProgram Nat := do
  let address ← callVm (VirtualMemory.allocatePage image)
  if address = 0 then
    pure 0
  else do
    write fun state => { state with created := address :: state.created }
    storeSize image address (pageSize - sizeofBlock)
    storeFree image address true
    storeLarge image address false
    storeNext image address 0
    pure address

def splitBlock (block size : Nat) : HeapProgram Unit := do
  let currentSize ← loadSize image block
  let next ← loadNext image block
  storeFree image block false
  storeSize image block size
  storeNext image block (block + sizeofBlock + size)
  storeSize image (← loadNext image block)
    (uint64 (currentSize + 2 ^ 64 - size - sizeofBlock))
  storeFree image (← loadNext image block) true
  storeNext image (← loadNext image block) next

def allocateFromBlock (block size : Nat) : HeapProgram Nat := do
  if block = 0 then
    pure 0
  else if !(← loadFree image block) then
    pure 0
  else if (← loadSize image block) < size then
    pure 0
  else if (← loadSize image block) ≥ size + sizeofBlock + 8 then do
    splitBlock image block size
    pure (block + sizeofBlock)
  else do
    storeFree image block false
    pure (block + sizeofBlock)

def init : HeapProgram Unit := do
  let block ← createBlock image
  write fun state => { state with firstBlock := block }

def allocateLarge (size : Nat) : HeapProgram Nat := do
  let address ← callVm (VirtualMemory.allocatePages image (pageCount size))
  if address = 0 then
    pure 0
  else do
    storeSize image address size
    storeFree image address false
    storeLarge image address true
    storeNext image address 0
    pure (address + sizeofBlock)

/-- `block->free && block->size >= size`. -/
def blockFits (size block : Nat) : HeapProgram Bool := do
  if ← loadFree image block then
    pure (decide ((← loadSize image block) ≥ size))
  else
    pure false

/-- The body of the search of `kmalloc`, over `previous` and `block`. It leaves
the loop with them, `block` being `nullptr` when no block fits. -/
def searchBlock (size : Nat) (pointers : Nat × Nat) :
    HeapProgram ((Nat × Nat) ⊕ (Nat × Nat)) := do
  let (previous, block) := pointers
  if block = 0 then
    pure (.inr (previous, 0))
  else if ← blockFits image size block then
    pure (.inr (previous, block))
  else
    pure (.inl (block, ← loadNext image block))

def extendHeap (previous size : Nat) : HeapProgram Nat := do
  let newBlock ← createBlock image
  if newBlock = 0 then
    pure 0
  else if previous = 0 then do
    write fun state => { state with firstBlock := newBlock }
    allocateFromBlock image newBlock size
  else do
    storeNext image previous newBlock
    allocateFromBlock image newBlock size

def allocateSmall (budget size : Nat) : HeapProgram Nat := do
  let first ← read HeapState.firstBlock
  let (previous, block) ← whileLoop .budgetExhausted (searchBlock image size)
    budget (0, first)
  if block = 0 then
    extendHeap image previous size
  else
    allocateFromBlock image block size

def kmalloc (budget size : Nat) : HeapProgram Nat :=
  if size = 0 then
    pure 0
  else if alignSize size > 2 ^ 64 - 1 - sizeofBlock then
    pure 0
  else if alignSize size > pageSize - sizeofBlock then
    allocateLarge image (alignSize size)
  else
    allocateSmall image budget (alignSize size)

/-- The body of the loop of `kfree` over `gained_size` and `next`. -/
def absorbNext (block : Nat) (pointers : Nat × Nat) :
    HeapProgram ((Nat × Nat) ⊕ (Nat × Nat)) := do
  let (gainedSize, next) := pointers
  if next = 0 then
    pure (.inr (gainedSize, next))
  else if !(← loadFree image next) then
    pure (.inr (gainedSize, next))
  else if next ≠ uint64 (block + sizeofBlock + gainedSize) then
    pure (.inr (gainedSize, next))
  else do
    let size ← loadSize image next
    let gainedSize := uint64 (gainedSize + (sizeofBlock + size))
    pure (.inl (gainedSize, ← loadNext image next))

/-- The body of the loop of `kfree` that looks for `block` in the list. -/
def findBlock (block : Nat) (pointers : Nat × Nat) :
    HeapProgram ((Nat × Nat) ⊕ Nat) := do
  let (previous, current) := pointers
  if current ≠ 0 ∧ current ≠ block then
    pure (.inl (current, ← loadNext image current))
  else
    pure (.inr previous)

def mergePrevious (previous block : Nat) : HeapProgram Unit := do
  if previous ≠ 0 then
    if ← loadFree image previous then
      if uint64 (previous + sizeofBlock + (← loadSize image previous)) =
          block then do
        let size ← loadSize image previous
        storeSize image previous (uint64 (size + (sizeofBlock +
          (← loadSize image block))))
        storeNext image previous (← loadNext image block)

def freeSmall (budget block : Nat) : HeapProgram Unit := do
  storeFree image block true
  let next ← loadNext image block
  let size ← loadSize image block
  let (gainedSize, next) ← whileLoop .budgetExhausted
    (absorbNext image block) budget (size, next)
  storeSize image block gainedSize
  storeNext image block next
  let first ← read HeapState.firstBlock
  let previous ← whileLoop .budgetExhausted (findBlock image block) budget
    (0, first)
  mergePrevious image previous block

def freeLarge (block : Nat) : HeapProgram Unit := do
  let size ← loadSize image block
  let _ ← callVm (VirtualMemory.freePages image block (pageCount size))

def kfree (budget memory : Nat) : HeapProgram Unit := do
  if memory = 0 then
    pure ()
  else do
    let block := memory - sizeofBlock
    if ← loadLarge image block then
      freeLarge image block
    else
      freeSmall image budget block

end KernelHeapAllocator

end

end Planetoid.Memory
