import Planetoid.Memory.HeapExactness
import Planetoid.Memory.HeapTraces

namespace Planetoid.Memory

open Planetoid Program VirtualMemory KernelHeapAllocator

/-! Requests while there is room. -/

/-- The pages below `used` are taken, and `frames` frames are free. -/
structure Roomy (memory : MemoryState) (used frames : Nat) : Prop where
  pages : ∀ page, page < virtualPageCount →
    (memory.virtualBitmap.test page = true ↔ page < used)
  frames : frames ≤ memory.freeCount

section

variable {platform : Platform} {image : KernelImage platform}
  {memory : MemoryState} {state : HeapState} {layout : Layout}
  {used frames count size : Nat}

theorem card_runPlaces (first count : Nat) :
    (runPlaces first count).card ≤ 2 * count := by
  unfold runPlaces
  have hcard := @Finset.card_biUnion_le_card_mul _ _ _
    (Finset.Ico first (first + count)) pagePlaces 2 fun page _ =>
      Finset.card_le_two
  rw [Nat.card_Ico] at hcard
  omega

theorem Roomy.lowestRun (roomy : Roomy memory used frames)
    (hpositive : 0 < count) (hpages : used + count ≤ virtualPageCount) :
    LowestRun memory used count := by
  refine ⟨⟨hpages, fun page hlow hhigh => ?_⟩, fun other run => ?_⟩
  · rw [← Bool.not_eq_true, roomy.pages page (by omega)]
    omega
  · by_contra hlt
    have hbit := run.2 other (Nat.le_refl _) (by omega)
    have hused := (roomy.pages other (by omega)).mpr (by omega)
    rw [hbit] at hused
    cases hused

theorem Roomy.allocatePages (roomy : Roomy memory used frames)
    (sound : Sound image memory none) (hpositive : 0 < count)
    (hpages : used + count ≤ virtualPageCount) (hframes : 3 * count ≤ frames) :
    ∃ after, (allocatePages image count).run memory =
        .ok (pageAddress used, after) ∧ Sound image after none ∧
      Bits image memory after used count true ∧
      Roomy after (used + count) (frames - 3 * count) := by
  have lowest := roomy.lowestRun hpositive hpages
  have hmissing : (missingTables image memory (runPlaces used count)).card ≤
      2 * count :=
    Nat.le_trans (Finset.card_le_card (Finset.filter_subset ..))
      (card_runPlaces used count)
  have hfree := roomy.frames
  obtain ⟨first, hsearch, hfound⟩ := findFreePages_lowest memory hpositive
  obtain rfl : first = used := by
    rcases hfound with found | ⟨_, hnone⟩
    · exact Nat.le_antisymm (found.2 used lowest.1) (lowest.2 first found.1)
    · exact absurd lowest.1 (hnone used)
  obtain ⟨filled, after, hle, hloop, hsound, hbits⟩ :=
    run_allocateLoop sound hpages lowest.1.2 0
  obtain ⟨_, hbuilds⟩ := allocateLoop_builds sound hpages lowest.1.2 hloop
  obtain ⟨hresult, builds⟩ := hbuilds.resolve_right fun h => by
    have hfew := h.2
    omega
  obtain rfl : filled = count := by
    by_contra hne
    rw [if_neg hne] at hresult
    cases hresult
  have hbuilt := builds.frames
  refine ⟨after, ?_, hsound, hbits, ?_, by omega⟩
  · unfold VirtualMemory.allocatePages
    rw [if_neg (by omega), if_neg (by omega), run_bind_ok hsearch,
      if_neg (by omega), run_bind_ok hloop]
    simp [pageAddress]
  · intro page hpage
    by_cases hlow : page < first
    · rw [hbits.outside (by omega), roomy.pages page hpage]
      omega
    · by_cases hhigh : page < first + filled
      · rw [hbits.inside (by omega) hhigh]
        simp [hhigh]
      · rw [hbits.outside (by omega), roomy.pages page hpage]
        omega

theorem Arranged.enlarge (arranged : Arranged image state layout)
    {after : HeapState} {first : Nat} (sound : Sound image after.memory none)
    (hfirst : after.firstBlock = state.firstBlock)
    (hcreated : after.created = state.created) (haligned : size % 8 = 0)
    (new : NewRun image state after first (pagesFor size) size false true) :
    Arranged image after { layout with
      larges := ⟨pageAddress first, size, false⟩ :: layout.larges } := by
  refine ⟨arranged.toPaged.enlarge sound hcreated haligned new,
    hfirst.trans arranged.first, ?_⟩
  apply arranged.headers.congr
  intro block hmem address hword
  apply new.words
  obtain ⟨used, hused, hpage, hlow, hhigh⟩ :=
    arranged.toPaged.page_of_covers hmem (Chunk.covers_of_headerWord hword)
  exact new.outside ((arranged.used used hused).mpr (.inl hpage)) hlow hhigh

theorem Roomy.kmalloc (roomy : Roomy state.memory used frames)
    (arranged : Arranged image state layout)
    (hsmall : ¬ alignSize size ≤ pageSize - sizeofBlock)
    (hhuge : alignSize size + sizeofBlock < 2 ^ 64)
    (hpages : used + pagesFor (alignSize size) ≤ virtualPageCount)
    (hframes : 3 * pagesFor (alignSize size) ≤ frames) :
    ∃ after, (∀ budget, (kmalloc image budget size).run state =
        .ok (pageAddress used + sizeofBlock, after)) ∧
      Arranged image after { layout with
        larges := ⟨pageAddress used, alignSize size, false⟩ ::
          layout.larges } ∧
      Roomy after.memory (used + pagesFor (alignSize size))
        (frames - 3 * pagesFor (alignSize size)) := by
  have hspec := (pagesFor_spec (alignSize size)).1
  have hpositive : 0 < pagesFor (alignSize size) := by
    refine Nat.pos_of_ne_zero fun hzero => ?_
    rw [hzero] at hspec
    unfold sizeofBlock at hspec
    omega
  have hnonzero : size ≠ 0 := by
    rintro rfl
    exact hsmall (Nat.zero_le _)
  obtain ⟨memory, hrun, hsound, hbits, hroomy⟩ :=
    roomy.allocatePages arranged.sound hpositive hpages hframes
  obtain ⟨after, hheader, hmemory, hfirst, hcreated, new⟩ :=
    run_newRun hsound hpositive (roomy.lowestRun hpositive hpages).1 hbits
      state.created (Nat.lt_of_le_of_lt (Nat.le_add_right ..) hhuge) false true
  refine ⟨after, fun budget => ?_, ?_, hmemory ▸ hroomy⟩
  · unfold KernelHeapAllocator.kmalloc allocateLarge
    rw [if_neg hnonzero, if_neg (by unfold sizeofBlock at *; omega),
      if_pos (Nat.lt_of_not_le hsmall), pageCount_eq hhuge,
      run_bind_ok (run_callVm hrun), if_neg (pageAddress_ne_zero used)]
    exact hheader _
  · exact arranged.enlarge (hmemory ▸ hsound) hfirst hcreated
      (alignSize_aligned size) new

theorem Roomy.serve (roomy : Roomy state.memory used frames)
    (arranged : Arranged image state layout) {before rest : List Chunk}
    {chunk : Chunk} (hblocks : layout.blocks = before ++ chunk :: rest)
    (hbefore : ∀ other ∈ before, ¬ Fits (alignSize size) other)
    (hfits : Fits (alignSize size) chunk) (hnonzero : size ≠ 0)
    (hsmall : alignSize size ≤ pageSize - sizeofBlock) :
    ∃ after, (∀ budget, layout.blocks.length < budget →
        (KernelHeapAllocator.kmalloc image budget size).run state =
          .ok (chunk.payload, after)) ∧
      Arranged image after { layout with
        blocks := before ++ place chunk (alignSize size) ++ rest } ∧
      Roomy after.memory used frames := by
  obtain ⟨after, hreturns, hafter, stores⟩ := arranged.serve hblocks hbefore
    hfits (alignSize_aligned size)
  refine ⟨after, fun budget hbudget => ?_, hafter, stores.memory ▸ roomy⟩
  rw [kmalloc_eq_allocateSmall hnonzero hsmall]
  exact hreturns.run_eq hbudget

end

theorem initHeap_roomy {platform : Platform} (image : KernelImage platform)
    (memory : MemoryState) (ram : Nat → BitVec 64) :
    ∃ start, (initHeap image).run (bootHeap memory ram) = .ok ((), start) ∧
      Arranged image start ⟨[newChunk 0], []⟩ ∧
      Roomy start.memory 1 0x400 := by
  obtain ⟨booted, hrun, sound, hcount, hreserved, _, _, hfree⟩ :=
    run_initMemory image memory
  have hcall : (callVm (initMemory image)).run (bootHeap memory ram) =
      .ok ((), { bootHeap memory ram with memory := booted }) :=
    run_callVm hrun
  have harranged : Arranged image { bootHeap memory ram with memory := booted }
      ⟨[], []⟩ := @Arranged.empty _ _ booted ram sound hfree
  have hpages : 0 < virtualPageCount := by
    rw [virtualPageCount_eq]
    decide
  have hframes : 0x403 ≤ booted.freeCount := by
    have hinitial := @freeCount_initial _ image _ hcount hreserved
    have htotal : 0x1000 ≤ frameTotal platform := by
      cases platform <;> decide
    omega
  obtain ⟨created, hcreate, hsound, hfirst, hcreated, new, hleft⟩ :=
    @createBlock_succeeds _ image { bootHeap memory ram with memory := booted }
      0 sound (firstFree_eq hpages nofun (hfree 0 hpages))
        (Nat.le_trans (by decide) hframes)
  have linked := (harranged.unlinked hsound hfirst hcreated new).linkFirst rfl
  refine ⟨{ created with firstBlock := pageAddress 0 }, ?_, linked, ?_, ?_⟩
  · unfold initHeap KernelHeapAllocator.init
    rw [run_bind_ok hcall, run_bind_ok hcreate]
    rfl
  · intro page hpage
    rw [new.bits.bit]
    by_cases hzero : page = 0
    · subst hzero
      simp
    · rw [if_neg (by omega), hfree page hpage]
      simp [hzero]
  · change booted.freeCount ≤ created.memory.freeCount + 3 at hleft
    change 0x400 ≤ created.memory.freeCount
    omega

end Planetoid.Memory
