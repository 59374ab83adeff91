import Planetoid.Memory.HeapFreeing
import Planetoid.Memory.HeapNormal

namespace Planetoid.Memory

open Planetoid Program VirtualMemory KernelHeapAllocator

/-! The list of blocks by itself, whatever else is in the pool. -/

section

variable {platform : Platform} (image : KernelImage platform)

/-- The blocks are linked in this order and fill used pages of the pool. -/
structure Chained (state : HeapState) (blocks : List Chunk) : Prop where
  sound : Sound image state.memory none
  created : ∀ address ∈ state.created, ∃ page, page < virtualPageCount ∧
    address = pageAddress page ∧
    state.memory.virtualBitmap.test page = true
  tiling : Tiling state.created blocks
  first : state.firstBlock = headPointer blocks 0
  headers : Headers (state.view image) blocks 0

def Clear (words : View) (chunk : Chunk) : Prop :=
  ∃ flags, words (chunk.address + 8) = some flags ∧ byteOf flags 1 = 0

end

section

variable {platform : Platform} {image : KernelImage platform}
  {state after : HeapState} {words words' : View}
  {blocks before behind : List Chunk} {chunk : Chunk}

theorem Clear.congr (clear : Clear words chunk)
    (h : words' (chunk.address + 8) = words (chunk.address + 8)) :
    Clear words' chunk := by
  unfold Clear
  rw [h]
  exact clear

theorem Clear.setFlag (clear : Clear words chunk) (place : Nat) (flag : Bool) :
    Clear (words.setFlag place 0 flag) chunk := by
  by_cases h : chunk.address + 8 = place
  · obtain ⟨flags, hflags, hclear⟩ := clear
    subst h
    refine ⟨_, View.setFlag_self _ hflags 0 flag, ?_⟩
    rw [byteOf_setByte_of_ne flags (by decide) (by decide)]
    exact hclear
  · exact clear.congr (View.setFlag_of_ne _ h _ _)

theorem Clear.run_loadLarge (clear : Clear (state.view image) chunk) :
    (loadLarge image chunk.address).run state = .ok (false, state) := by
  obtain ⟨flags, hflags, hclear⟩ := clear
  rw [KernelHeapAllocator.run_loadLarge hflags, hclear]
  rfl

theorem Chained.inPool (chained : Chained image state blocks) :
    InPool state.created := by
  intro address hmem
  obtain ⟨page, hpage, rfl, _⟩ := chained.created address hmem
  rw [virtualPageCount_eq] at hpage
  unfold pageAddress virtualMemoryStart virtualMemoryEnd pageSize
  omega

theorem Chained.backed (chained : Chained image state blocks)
    (hmem : chunk ∈ blocks) : Backed (state.view image) chunk := by
  intro place hcovers haligned
  obtain ⟨address, haddress, hlow, hhigh⟩ :=
    chained.tiling.inside chunk hmem place hcovers
  obtain ⟨page, hpage, rfl, hused⟩ := chained.created address haddress
  apply @view_of_used _ _ _ chained.sound page 1 hpage
  · intro other hfirst hlast
    obtain rfl : other = page := by omega
    exact hused
  · unfold InRun
    omega
  · exact haligned

theorem Chained.stores (chained : Chained image state blocks)
    (stores : Stores image state after words) {next : List Chunk}
    (tiling : Tiling state.created next)
    (hfirst : headPointer next 0 = headPointer blocks 0)
    (headers : Headers words next 0) : Chained image after next where
  sound := stores.sound chained.sound
  created := by
    rw [stores.created, stores.memory]
    exact chained.created
  tiling := by
    rw [stores.created]
    exact tiling
  first := by
    rw [stores.firstBlock, hfirst]
    exact chained.first
  headers := by
    rw [stores.view]
    exact headers

theorem Chained.not_headerWord (chained : Chained image state blocks)
    (hmem : chunk ∈ blocks) {place : Nat} (hlow : chunk.payload ≤ place)
    (hhigh : place < chunk.finish) {other : Chunk} (hother : other ∈ blocks) :
    ¬ HeaderWord other place := by
  intro hheader
  by_cases heq : other.address = chunk.address
  · unfold HeaderWord at hheader
    unfold Chunk.payload sizeofBlock at hlow
    omega
  · apply chained.tiling.apart_of_mem hother hmem heq _
      (Chunk.covers_of_headerWord hheader)
    unfold Chunk.payload at hlow
    unfold Chunk.Covers
    omega

theorem Chained.storePayload (chained : Chained image state blocks)
    (hmem : chunk ∈ blocks) {address : Nat}
    (hlow : chunk.payload ≤ address) (hhigh : address < chunk.finish)
    {byte : BitVec 8}
    (hrun : (storeByte image address byte).run state = .ok ((), after)) :
    Chained image after blocks ∧ ∀ other ∈ blocks, ∀ place,
      HeaderWord other place →
        after.view image place = state.view image place := by
  have haligned := (chained.tiling.aligned chunk hmem).1
  have hword : chunk.payload ≤ address - address % 8 := by
    unfold Chunk.payload sizeofBlock at *
    omega
  have hcovers : chunk.Covers (address - address % 8) := by
    unfold Chunk.payload at hword
    unfold Chunk.Covers
    omega
  obtain ⟨word, hview⟩ := chained.backed hmem _ hcovers (by omega)
  have hmodify := run_modifyWord hview fun word =>
    setByte word (address % 8) byte
  cases hrun.symm.trans hmodify
  have stores : Stores image state (state.modify image (address - address % 8)
      fun word => setByte word (address % 8) byte) (Function.update
        (state.view image) (address - address % 8)
        (some (setByte word (address % 8) byte))) :=
    ⟨modify_memory .., modify_firstBlock .., modify_created ..,
      view_modify chained.sound hview _⟩
  have hkept : ∀ other ∈ blocks, ∀ place, HeaderWord other place →
      place ≠ address - address % 8 := by
    rintro other hother place hheader rfl
    exact chained.not_headerWord hmem hword (by omega) hother hheader
  refine ⟨chained.stores stores chained.tiling rfl ?_, ?_⟩
  · apply chained.headers.congr
    intro other hother place hheader
    exact Function.update_of_ne (hkept other hother place hheader) ..
  · intro other hother place hheader
    rw [stores.view]
    exact Function.update_of_ne (hkept other hother place hheader) ..

theorem Chained.kmalloc
    (chained : Chained image state (before ++ chunk :: behind)) {size : Nat}
    (hne : size ≠ 0) (hsize : alignSize size ≤ pageSize - sizeofBlock)
    (hbefore : ∀ other ∈ before, ¬ Fits (alignSize size) other)
    (hfits : Fits (alignSize size) chunk) :
    ∃ after, Returns .budgetExhausted
        (fun budget => KernelHeapAllocator.kmalloc image budget size) state
        (before ++ chunk :: behind).length (chunk.payload, after) ∧
      Chained image after
        (before ++ place chunk (alignSize size) ++ behind) ∧
      Stores image state after (allocateWords (state.view image) chunk
        (alignSize size) (headPointer behind 0)) := by
  have hmem : chunk ∈ before ++ chunk :: behind := by simp
  have haligned := alignSize_aligned size
  obtain ⟨after, hrun, stores⟩ := run_allocateFromBlock chained.sound
    chained.headers.header (chained.backed hmem) hfits haligned
  refine ⟨after, ?_, chained.stores stores (chained.tiling.place haligned)
    (headPointer_place ..) (headers_allocate chained.tiling chained.inPool
      chained.headers (chained.backed hmem) hfits.2 haligned), stores⟩
  apply (allocateSmall_found chained.headers chained.first hbefore hfits
    hrun).of_run_eq
  intro budget
  rw [kmalloc_eq_allocateSmall hne hsize]

theorem Chained.kfree
    (chained : Chained image state (before ++ chunk :: behind))
    (clear : Clear (state.view image) chunk) :
    ∃ after, Returns .budgetExhausted
        (fun budget => KernelHeapAllocator.kfree image budget chunk.payload)
        state (before.length + behind.length) ((), after) ∧
      Chained image after (release before chunk behind) ∧
      ∀ address, (∀ other ∈ before ++ [chunk], ¬ LinkWord other address) →
        after.view image address =
          (state.view image).setFlag (chunk.address + 8) 0 true address := by
  obtain ⟨after, words, hreturns, stores, hheaders, hframe⟩ :=
    freeSmall_returns chained.sound chained.tiling chained.inPool
      chained.first chained.headers
  refine ⟨after, kfree_clear clear.run_loadLarge hreturns, chained.stores
    stores chained.tiling.release (headPointer_release ..) hheaders, ?_⟩
  rw [stores.view]
  exact hframe

end

end Planetoid.Memory
