import Mathlib.Order.Interval.Finset.Nat
import Planetoid.Memory.InitialPool

namespace Planetoid.Memory

open Planetoid Program Mmu TableTree VirtualMemory

/-! How many frames are free, and that this many allocations succeed. -/

namespace MemoryState

def freeCount (state : MemoryState) : Nat :=
  ((Finset.range state.frameCount).filter fun frame =>
    state.used frame = false).card

variable {state after : MemoryState} {frame : Nat}

theorem exists_nextFrame (h : 0 < state.freeCount) :
    ∃ frame, state.nextFrame = some frame := by
  obtain ⟨frame, hmem⟩ := Finset.card_pos.mp h
  rw [Finset.mem_filter, Finset.mem_range] at hmem
  cases hnext : state.nextFrame with
  | some found => exact ⟨found, rfl⟩
  | none =>
      unfold nextFrame at hnext
      rw [List.find?_eq_none] at hnext
      have hused := hnext frame (by simpa using hmem.1)
      rw [hmem.2] at hused
      exact absurd rfl hused

theorem freeCount_taken (hnext : state.nextFrame = some frame)
    (hused : ∀ other, after.used other =
      (decide (other = frame) || state.used other))
    (hcount : after.frameCount = state.frameCount) :
    after.freeCount + 1 = state.freeCount := by
  have hmem : frame ∈ (Finset.range state.frameCount).filter fun other =>
      state.used other = false := by
    rw [Finset.mem_filter, Finset.mem_range]
    exact ⟨nextFrame_lt hnext, nextFrame_free hnext⟩
  have herase : ((Finset.range after.frameCount).filter fun other =>
      after.used other = false) = ((Finset.range state.frameCount).filter
        fun other => state.used other = false).erase frame := by
    ext other
    rw [Finset.mem_erase, Finset.mem_filter, Finset.mem_filter, hcount, hused,
      Bool.or_eq_false_iff, decide_eq_false_iff_not]
    exact and_left_comm
  unfold freeCount
  rw [herase, Finset.card_erase_of_mem hmem]
  have hpositive := Finset.card_pos.mpr ⟨frame, hmem⟩
  omega

theorem freeCount_claim (h : state.nextFrame = some frame) :
    (state.claim frame).freeCount + 1 = state.freeCount :=
  freeCount_taken h (fun _ => used_claim ..) rfl

end MemoryState

section

variable {platform : Platform} {image : KernelImage platform}
  {state after : MemoryState}

theorem Grows.freeCount {place : Node (Fin 512)} {frame : Nat}
    (grows : Grows image state after place frame) :
    after.freeCount + 1 = state.freeCount :=
  MemoryState.freeCount_taken grows.next grows.used grows.frameCount

theorem tablesEffect_succeeds (paging : Paging image state) {address : Nat}
    (hpool : level1Of address = poolIndex) (hfree : 2 ≤ state.freeCount) :
    ∃ table grown, tablesEffect image state address = (some table, grown) ∧
      state.freeCount ≤ grown.freeCount + 2 := by
  unfold tablesEffect
  rcases level2Effect_cases paging (level1Of address) with
    ⟨_, hnone, _⟩ | ⟨second, middle, heq, hsecond, hmiddle⟩
  · obtain ⟨frame, hframe⟩ := MemoryState.exists_nextFrame
      (Nat.lt_of_lt_of_le Nat.zero_lt_two hfree)
    rw [hnone] at hframe
    cases hframe
  rw [heq]
  have middlePaging := (Extends.of_grows hmiddle).paging paging
  have hcount : state.freeCount ≤ middle.freeCount + 1 := by
    rcases hmiddle with rfl | ⟨frame, grows⟩
    · exact Nat.le_succ _
    · exact Nat.le_of_eq grows.freeCount.symm
  rcases @level3Effect_cases _ _ _ middlePaging (level1Of address)
    (level2Of address) second hsecond with
    ⟨_, hnone, habsent⟩ | ⟨table, grown, hlast, _, hgrown⟩
  · by_cases hzero : middle.entries second (level2Of address) = 0
    · obtain ⟨frame, hframe⟩ := @MemoryState.exists_nextFrame middle (by omega)
      rw [hnone hzero] at hframe
      cases hframe
    · rw [hpool] at hsecond habsent
      obtain ⟨below, hbelow⟩ := middlePaging.level2 second hsecond _ hzero
      rw [habsent] at hbelow
      cases hbelow
  · refine ⟨table, grown, hlast, ?_⟩
    rcases hgrown with rfl | ⟨frame, grows⟩
    · omega
    · have hlast := grows.freeCount
      omega

theorem mapEffect_succeeds (paging : Paging image state) {page : Nat}
    (hpage : page < virtualPageCount) (hleaf : poolLeaf image state page = 0)
    (hfree : 2 ≤ state.freeCount) (descriptor : Nat) :
    (mapEffect image state (pageAddress page) descriptor).1 = true ∧
      state.freeCount ≤ (mapEffect image state (pageAddress page)
        descriptor).2.freeCount + 2 := by
  have hpool : level1Of (pageAddress page) = poolIndex :=
    Fin.ext (level1Of_pageAddress hpage)
  obtain ⟨table, grown, heq, hgrown⟩ :=
    tablesEffect_succeeds paging hpool hfree
  obtain ⟨result, other, hother, extended, htable⟩ :=
    tablesEffect_extends paging (pageAddress page)
  rw [heq] at hother
  injection hother with hresult hother
  subst hresult hother
  have hentry : grown.entries table (level3Of (pageAddress page)) = 0 := by
    rw [← poolLeaf_of_table (htable table rfl), extended.poolLeaf_eq]
    exact hleaf
  unfold mapEffect
  simp only [heq, hentry, ne_eq, not_true_eq_false, if_false]
  exact ⟨trivial, hgrown⟩

theorem fillEffect_succeeds (sound : Sound image state none) {page : Nat}
    (hpage : page < virtualPageCount)
    (hfree : state.virtualBitmap.test page = false)
    (hcount : 3 ≤ state.freeCount) :
    (fillEffect image state page).1 = true ∧
      state.freeCount ≤ (fillEffect image state page).2.freeCount + 3 := by
  obtain ⟨frame, hframe⟩ := @MemoryState.exists_nextFrame state (by omega)
  have hclaimed := MemoryState.freeCount_claim hframe
  have hmapped := mapEffect_succeeds (sound.claim hframe).paging hpage
    (leaf_of_free sound hpage hfree) (by omega) (poolDescriptor platform frame)
  unfold fillEffect
  rw [hframe]
  simp only
  cases heq : mapEffect image (state.claim frame) (pageAddress page)
      (poolDescriptor platform frame) with
  | mk result after =>
      rw [heq] at hmapped
      obtain ⟨rfl, hleft⟩ := hmapped
      change (state.claim frame).freeCount ≤ after.freeCount + 2 at hleft
      refine ⟨rfl, ?_⟩
      change state.freeCount ≤ after.freeCount + 3
      omega

theorem mapPage_succeeds (paging : Paging image state) {page : Nat}
    (hpage : page < virtualPageCount) (hleaf : poolLeaf image state page = 0)
    (hfree : 2 ≤ state.freeCount) {physicalAddress : Nat}
    (hphysical : physicalAddress % pageSize = 0) (memoryType : EMemoryType)
    (permissions : Nat) :
    ∃ after, (mapPage image (pageAddress page) physicalAddress memoryType
      permissions).run state = .ok (true, after) := by
  have hrun := run_mapPage paging (pageAddress_mod page) hphysical memoryType
    permissions
  obtain ⟨hresult, _⟩ := mapEffect_succeeds paging hpage hleaf hfree
    (makePageDescriptor memoryType physicalAddress permissions)
  exact ⟨_, hrun.trans (congrArg Except.ok (Prod.ext hresult rfl))⟩

theorem unmapPage_succeeds {page : Nat} (h : poolLeaf image state page ≠ 0) :
    ∃ after, (unmapPage image (pageAddress page)).run state =
      .ok (true, after) := by
  obtain ⟨table, htable⟩ := table_of_poolLeaf h
  rw [poolLeaf_of_table htable] at h
  have hrun := @run_unmapPage _ image state _ (pageAddress_mod page)
  rw [htable] at hrun
  simp only at hrun
  rw [if_neg h] at hrun
  exact ⟨_, hrun⟩

theorem firstFree_eq {page : Nat} (hpage : page < virtualPageCount)
    (hused : ∀ other, other < page → state.virtualBitmap.test other = true)
    (hfree : state.virtualBitmap.test page = false) :
    firstFree state = some page := by
  unfold firstFree
  rw [List.find?_range'_eq_some]
  refine ⟨by simp [hfree], by simpa using hpage, ?_⟩
  intro other _ hlt
  simp [hused other hlt]

theorem allocatePage_succeeds (sound : Sound image state none) {page : Nat}
    (hpage : firstFree state = some page) (hcount : 3 ≤ state.freeCount) :
    ∃ after, (allocatePage image).run state =
        .ok (pageAddress page, after) ∧
      Filled image state page true after ∧
      state.freeCount ≤ after.freeCount + 3 := by
  obtain ⟨hlt, hfree⟩ := firstFree_spec hpage
  obtain ⟨hfilled, hleft⟩ := fillEffect_succeeds sound hlt hfree hcount
  have filled := fillEffect_filled sound hlt hfree
  have hrun := run_allocatePage sound
  rw [hpage] at hrun
  simp only at hrun
  rw [if_pos hfilled] at hrun
  rw [hfilled] at filled
  exact ⟨_, hrun, filled, hleft⟩

theorem freeCount_initial (hcount : state.frameCount = frameTotal platform)
    (hreserved : ∀ frame, frame < frameTotal platform →
      (state.used frame = true ↔ Reserved image frame)) :
    frameTotal platform ≤ state.freeCount + 0x400 := by
  obtain ⟨_, hordered, hend, _⟩ := image.kernel_bounds
  have hsubset : Finset.Ico 0x400 (frameTotal platform) ⊆
      (Finset.range state.frameCount).filter fun frame =>
        state.used frame = false := by
    intro frame hmem
    rw [Finset.mem_Ico] at hmem
    rw [Finset.mem_filter, Finset.mem_range, hcount,
      ← Bool.not_eq_true, hreserved frame hmem.2]
    refine ⟨hmem.2, ?_⟩
    have haddress : image.kernelEnd ≤ platform.frameAddress frame := by
      unfold Platform.frameAddress pageSize
      omega
    rintro (⟨_, hlt⟩ | ⟨_, hlt⟩)
    · omega
    · omega
  have hcard := Finset.card_le_card hsubset
  rw [Nat.card_Ico] at hcard
  unfold MemoryState.freeCount
  omega

theorem freeCount_start (hcount : state.frameCount = frameTotal platform)
    (hreserved : ∀ frame, frame < frameTotal platform →
      (state.used frame = true ↔ Reserved image frame)) :
    6 ≤ state.freeCount := by
  have hinitial := freeCount_initial hcount hreserved
  have hlarge : 0x1000 ≤ frameTotal platform := by
    cases platform <;> decide
  omega

theorem allocatePage_twice (image : KernelImage platform)
    (boot : MemoryState) : ∃ start first second,
      (initMemory image).run boot = .ok ((), start) ∧
      (allocatePage image).run start = .ok (pageAddress 0, first) ∧
      Filled image start 0 true first ∧
      (allocatePage image).run first = .ok (pageAddress 1, second) ∧
      Filled image first 1 true second := by
  obtain ⟨start, hstart, sound, htotal, hreserved, _, _, hfree⟩ :=
    run_initMemory image boot
  have hcount := freeCount_start htotal hreserved
  have hzero : 0 < virtualPageCount := by decide
  have hone : 1 < virtualPageCount := by decide
  obtain ⟨first, hfirst, filled, hleft⟩ := allocatePage_succeeds sound
    (firstFree_eq hzero nofun (hfree 0 hzero)) (by omega)
  have hnext : firstFree first = some 1 := by
    apply firstFree_eq hone
    · intro other hother
      rw [filled.bit, if_pos (by omega)]
    · rw [filled.bit, if_neg (by decide)]
      exact hfree 1 hone
  obtain ⟨second, hsecond, last, _⟩ :=
    allocatePage_succeeds filled.sound hnext (by omega)
  exact ⟨start, first, second, hstart, hfirst, filled, hsecond, last⟩

end

end Planetoid.Memory
