import Planetoid.Memory.HeapRelease

namespace Planetoid.Memory

open Planetoid Program VirtualMemory KernelHeapAllocator

/-! The pages that the heap obtains from `VirtualMemory` and returns. -/

def pagesFor (size : Nat) : Nat :=
  (size + sizeofBlock + (pageSize - 1)) / pageSize

theorem pagesFor_spec (size : Nat) :
    size + sizeofBlock ≤ pagesFor size * pageSize ∧
      pagesFor size * pageSize < size + sizeofBlock + pageSize := by
  unfold pagesFor sizeofBlock pageSize
  omega

theorem pageCount_eq {size : Nat} (h : size + sizeofBlock < 2 ^ 64) :
    pageCount size = pagesFor size := by
  unfold pageCount
  rw [uint64_eq h]
  unfold pagesFor sizeofBlock pageSize
  simp only
  split <;> omega

def headerWords (words : View) (block size : Nat) (free large : Bool) : View :=
  (((words.setWord block size).setFlag (block + 8) 0 free).setFlag
    (block + 8) 1 large).setWord (block + 16) 0

theorem headerWords_of_ne {words : View} {block size address : Nat}
    {free large : Bool}
    (h : address ≠ block ∧ address ≠ block + 8 ∧ address ≠ block + 16) :
    headerWords words block size free large address = words address := by
  obtain ⟨hsize, hflags, hnext⟩ := h
  unfold headerWords
  rw [View.setWord_of_ne _ hnext, View.setFlag_of_ne _ hflags,
    View.setFlag_of_ne _ hflags, View.setWord_of_ne _ hsize]

section

variable {words : View} {block size : Nat} {free large : Bool}

theorem headerWords_size :
    headerWords words block size free large block =
      some (BitVec.ofNat 64 size) := by
  unfold headerWords
  rw [View.setWord_of_ne _ (by omega), View.setFlag_of_ne _ (by omega),
    View.setFlag_of_ne _ (by omega), View.setWord_self]

theorem headerWords_flags {old : BitVec 64}
    (h : words (block + 8) = some old) :
    ∃ flags, headerWords words block size free large (block + 8) =
        some flags ∧
      (byteOf flags 0 != 0) = free ∧ (byteOf flags 1 != 0) = large := by
  have hold : words.setWord block size (block + 8) = some old := by
    rw [View.setWord_of_ne _ (by omega), h]
  refine ⟨setByte (setByte old 0 (if free then 1 else 0)) 1
    (if large then 1 else 0), ?_, ?_, ?_⟩
  · unfold headerWords
    rw [View.setWord_of_ne _ (by omega)]
    exact View.setFlag_self _ (View.setFlag_self _ hold 0 free) 1 large
  · rw [byteOf_setByte_of_ne _ (by decide) (by decide)]
    exact byteOf_flag old free
  · rw [byteOf_setByte _ (by decide)]
    cases large <;> rfl

theorem header_headerWords {old : BitVec 64}
    (h : words (block + 8) = some old) (hsize : size < 2 ^ 64) :
    Header (headerWords words block size free large) ⟨block, size, free⟩ 0 := by
  obtain ⟨flags, hflags, hfree, _⟩ :=
    @headerWords_flags words block size free large old h
  exact header_of_words headerWords_size hflags hfree (View.setWord_self ..)
    hsize (Nat.two_pow_pos 64)

end

section

variable {platform : Platform} {image : KernelImage platform}
  {state : HeapState}

theorem run_newHeader (sound : Sound image state.memory none) {block : Nat}
    (hwords : ∀ offset, offset ≤ 16 → offset % 8 = 0 →
      ∃ word, state.view image (block + offset) = some word)
    (size : Nat) (free large : Bool) :
    ∃ after, Stores image state after
        (headerWords (state.view image) block size free large) ∧
      ∀ (rest : HeapProgram Nat), (do
        storeSize image block size
        storeFree image block free
        storeLarge image block large
        storeNext image block 0
        rest).run state = rest.run after := by
  obtain ⟨size₀, hsize₀⟩ := hwords 0 (by decide) (by decide)
  obtain ⟨flags, hflags⟩ := hwords 8 (by decide) (by decide)
  obtain ⟨next₀, hnext₀⟩ := hwords 16 (by decide) (by decide)
  rw [Nat.add_zero] at hsize₀
  obtain ⟨first, hfirst, stores₁⟩ :=
    run_storeSize sound (Stores.refl state) hsize₀ size
  have hflags₁ : (state.view image).setWord block size (block + 8) =
      some flags := by
    rw [View.setWord_of_ne _ (by omega), hflags]
  obtain ⟨second, hsecond, stores₂⟩ :=
    run_storeFree sound stores₁ hflags₁ free
  obtain ⟨third, hthird, stores₃⟩ := run_storeLarge sound stores₂
    (View.setFlag_self _ hflags₁ 0 free) large
  obtain ⟨fourth, hfourth, stores₄⟩ := run_storeNext sound stores₃
    ((View.setFlag_of_ne _ (by omega) _ _).trans
      ((View.setFlag_of_ne _ (by omega) _ _).trans
        ((View.setWord_of_ne _ (by omega) _).trans hnext₀))) 0
  refine ⟨fourth, stores₄, ?_⟩
  intro rest
  rw [run_bind_ok hfirst, run_bind_ok hsecond, run_bind_ok hthird,
    run_bind_ok hfourth]

def InRun (first count address : Nat) : Prop :=
  pageAddress first ≤ address ∧ address < pageAddress first + count * pageSize

theorem inRun_iff {first count address : Nat} (h : PoolWord address) :
    InRun first count address ↔
      first ≤ pageOf address ∧ pageOf address < first + count := by
  obtain ⟨hstart, _, _⟩ := h
  unfold InRun pageOf pageAddress virtualMemoryStart pageSize at *
  omega

theorem view_of_bits {memory : MemoryState} {first count : Nat} {used : Bool}
    (bits : Bits image state.memory memory first count used) {address : Nat}
    (h : ¬ InRun first count address) :
    ({ state with memory := memory } : HeapState).view image address =
      state.view image address := by
  apply view_of_leaf
  intro hpool
  apply bits.leaf _ (pageOf_lt hpool)
  rw [inRun_iff hpool] at h
  omega

theorem view_of_used (sound : Sound image state.memory none)
    {first count : Nat} (hbound : first + count ≤ virtualPageCount)
    (hused : ∀ page, first ≤ page → page < first + count →
      state.memory.virtualBitmap.test page = true) {address : Nat}
    (hrun : InRun first count address) (haligned : address % 8 = 0) :
    ∃ word, state.view image address = some word := by
  have hpool : PoolWord address := by
    rw [virtualPageCount_eq] at hbound
    unfold InRun pageAddress pageSize at hrun
    refine ⟨by omega, ?_, haligned⟩
    unfold virtualMemoryStart at hrun
    unfold virtualMemoryEnd
    omega
  obtain ⟨hlow, hhigh⟩ := (inRun_iff hpool).mp hrun
  exact (view_isSome sound hpool).mpr (hused _ hlow hhigh)

structure NewRun (image : KernelImage platform) (before after : HeapState)
    (first count size : Nat) (free large : Bool) : Prop where
  unused : FreeRun before.memory first count
  bits : Bits image before.memory after.memory first count true
  header : Header (after.view image) ⟨pageAddress first, size, free⟩ 0
  flag : ∃ flags, after.view image (pageAddress first + 8) = some flags ∧
    (byteOf flags 1 != 0) = large
  words : ∀ address, ¬ InRun first count address →
    after.view image address = before.view image address

structure SamePages (image : KernelImage platform) (before after : HeapState) :
    Prop where
  bits : ∃ first, Bits image before.memory after.memory first 0 false
  created : after.created = before.created
  words : after.view image = before.view image

theorem samePages_of_bits {memory : MemoryState} {first : Nat}
    (bits : Bits image state.memory memory first 0 false) :
    SamePages image state { state with memory := memory } := by
  refine ⟨⟨first, bits⟩, rfl, ?_⟩
  funext address
  apply view_of_bits bits
  unfold InRun
  omega

theorem pageAddress_ne_zero (page : Nat) : pageAddress page ≠ 0 := by
  unfold pageAddress virtualMemoryStart
  omega

theorem run_newRun {memory : MemoryState} (sound : Sound image memory none)
    {first count : Nat} (hcount : 0 < count)
    (unused : FreeRun state.memory first count)
    (bits : Bits image state.memory memory first count true)
    (created : List Nat) {size : Nat} (hsize : size < 2 ^ 64)
    (free large : Bool) :
    ∃ after, (∀ rest : HeapProgram Nat, (do
        storeSize image (pageAddress first) size
        storeFree image (pageAddress first) free
        storeLarge image (pageAddress first) large
        storeNext image (pageAddress first) 0
        rest).run { state with memory := memory, created := created } =
          rest.run after) ∧
      after.memory = memory ∧ after.firstBlock = state.firstBlock ∧
      after.created = created ∧
      NewRun image state after first count size free large := by
  have hin : ∀ offset, offset ≤ 16 →
      InRun first count (pageAddress first + offset) := by
    intro offset hle
    unfold InRun pageSize
    omega
  have hwords : ∀ offset, offset ≤ 16 → offset % 8 = 0 →
      ∃ word, ({ state with memory := memory } : HeapState).view image
        (pageAddress first + offset) = some word := by
    intro offset hle hmod
    have haligned := pageAddress_mod first
    apply @view_of_used _ image { state with memory := memory } sound _ _
      unused.1 (fun _ => bits.inside) _ (hin offset hle)
    unfold pageSize at haligned
    omega
  obtain ⟨after, stores, hrun⟩ := @run_newHeader _ image
    { state with memory := memory, created := created } sound _ hwords size
    free large
  obtain ⟨old, hold⟩ := hwords 8 (by decide) (by decide)
  refine ⟨after, hrun, stores.memory, stores.firstBlock, stores.created,
    unused, ?_, ?_, ?_, ?_⟩
  · rw [stores.memory]
    exact bits
  · rw [stores.view]
    exact header_headerWords hold hsize
  · rw [stores.view]
    obtain ⟨flags, hflags, _, hlarge⟩ := headerWords_flags hold
    exact ⟨flags, hflags, hlarge⟩
  · intro address hout
    rw [stores.view, headerWords_of_ne]
    · exact view_of_bits bits hout
    · have hzero := hin 0 (by decide)
      rw [Nat.add_zero] at hzero
      refine ⟨?_, ?_, ?_⟩
      · rintro rfl
        exact hout hzero
      · rintro rfl
        exact hout (hin 8 (by decide))
      · rintro rfl
        exact hout (hin 16 (by decide))

theorem run_createBlock_page {memory : MemoryState} {page : Nat}
    (hrun : (allocatePage image).run state.memory =
      .ok (pageAddress page, memory)) (hsound : Sound image memory none)
    (unused : FreeRun state.memory page 1)
    (bits : Bits image state.memory memory page 1 true) :
    ∃ after, (createBlock image).run state = .ok (pageAddress page, after) ∧
      after.memory = memory ∧ after.firstBlock = state.firstBlock ∧
      after.created = pageAddress page :: state.created ∧
      NewRun image state after page 1 (pageSize - sizeofBlock) true false := by
  obtain ⟨after, hheader, hmemory, hfirst, hcreated, new⟩ :=
    run_newRun hsound Nat.one_pos unused bits
      (pageAddress page :: state.created)
      (by decide : pageSize - sizeofBlock < 2 ^ 64) true false
  refine ⟨after, ?_, hmemory, hfirst, hcreated, new⟩
  unfold createBlock
  rw [run_bind_ok (run_callVm hrun), if_neg (pageAddress_ne_zero page),
    run_write_bind]
  exact hheader _

theorem run_createBlock (sound : Sound image state.memory none) :
    ∃ result after, (createBlock image).run state = .ok (result, after) ∧
      Sound image after.memory none ∧ after.firstBlock = state.firstBlock ∧
      ((result = 0 ∧ SamePages image state after) ∨
        ∃ page, result = pageAddress page ∧
          after.created = pageAddress page :: state.created ∧
          NewRun image state after page 1 (pageSize - sizeofBlock) true
            false) := by
  obtain ⟨result, memory, hrun, hsound, hresult⟩ :=
    allocatePage_allocated sound
  rcases hresult with ⟨rfl, first, bits⟩ | ⟨page, rfl, _, unused, bits⟩
  · refine ⟨0, { state with memory := memory }, ?_, hsound, rfl,
      .inl ⟨rfl, samePages_of_bits bits⟩⟩
    unfold createBlock
    exact run_bind_ok (run_callVm hrun) _
  · obtain ⟨after, hcreate, hmemory, hfirst, hcreated, new⟩ :=
      run_createBlock_page hrun hsound unused bits
    rw [← hmemory] at hsound
    exact ⟨pageAddress page, after, hcreate, hsound, hfirst,
      .inr ⟨page, rfl, hcreated, new⟩⟩

theorem run_allocateLarge (sound : Sound image state.memory none) {size : Nat}
    (hsize : size + sizeofBlock < 2 ^ 64) :
    ∃ result after, (allocateLarge image size).run state =
        .ok (result, after) ∧
      Sound image after.memory none ∧ after.firstBlock = state.firstBlock ∧
      ((result = 0 ∧ SamePages image state after) ∨
        ∃ first, result = pageAddress first + sizeofBlock ∧
          after.created = state.created ∧
          NewRun image state after first (pagesFor size) size false true) := by
  obtain ⟨result, memory, hrun, hsound, hresult⟩ :=
    run_allocatePages sound (pagesFor size)
  unfold allocateLarge
  rw [pageCount_eq hsize, run_bind_ok (run_callVm hrun)]
  rcases hresult with ⟨rfl, first, bits⟩ | ⟨first, rfl, hcount, unused, bits⟩
  · exact ⟨0, _, rfl, hsound, rfl, .inl ⟨rfl, samePages_of_bits bits⟩⟩
  · rw [if_neg (pageAddress_ne_zero first)]
    obtain ⟨after, hheader, hmemory, hfirst, hcreated, new⟩ :=
      run_newRun hsound hcount unused bits state.created
        (Nat.lt_of_le_of_lt (Nat.le_add_right ..) hsize) false true
    rw [← hmemory] at hsound
    exact ⟨pageAddress first + sizeofBlock, after, hheader _, hsound,
      hfirst, .inr ⟨first, rfl, hcreated, new⟩⟩

theorem run_freeLarge (sound : Sound image state.memory none) {chunk : Chunk}
    {next : Nat} (header : Header (state.view image) chunk next)
    (hsize : chunk.finish < 2 ^ 64) :
    ((∀ page, ¬ Freeable state.memory chunk.address (pagesFor chunk.size)
        page) ∧
      (freeLarge image chunk.address).run state = .ok ((), state)) ∨
    ∃ page memory, Freeable state.memory chunk.address (pagesFor chunk.size)
        page ∧
      (freeLarge image chunk.address).run state =
        .ok ((), { state with memory := memory }) ∧
      Sound image memory none ∧
      Bits image state.memory memory page (pagesFor chunk.size) false := by
  have hcount : pageCount chunk.size = pagesFor chunk.size := by
    apply pageCount_eq
    unfold Chunk.finish at hsize
    omega
  unfold freeLarge
  rw [run_bind_ok header.run_loadSize, hcount]
  rcases run_freePages sound chunk.address (pagesFor chunk.size) with
    ⟨hnone, hrun⟩ | ⟨page, memory, freeable, hrun, hsound, bits⟩
  · exact .inl ⟨hnone, run_bind_ok (run_callVm hrun) _⟩
  · exact .inr ⟨page, memory, freeable, run_bind_ok (run_callVm hrun) _,
      hsound, bits⟩

end

end Planetoid.Memory
