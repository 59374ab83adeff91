import Planetoid.Base.Assertions
import Planetoid.Memory.Hardening
import Planetoid.Memory.HeapRuns

namespace Planetoid.Memory

open Planetoid Program Mmu TableTree VirtualMemory KernelHeapAllocator

/-! The physical places of the accesses of the heap, whatever the words of its
list are. -/

section

variable {platform : Platform} {image : KernelImage platform}
  {contents : Contents} {start memory : MemoryState} {state : HeapState}
  {pins : Pins} {address other physical : Nat}

structure HeapMemory (image : KernelImage platform)
    (start : MemoryState) (pins : Pins) (memory : MemoryState) : Prop where
  sound : Sound image memory none
  resting : Resting image start pins memory

theorem HeapMemory.fixed (heap : HeapMemory image start pins memory) :
    Fixed image start memory := by
  have fixed := Steady.fixed heap.resting
  exact ⟨fixed.second, fixed.block, fixed.leaf, fixed.tables, fixed.low⟩

theorem windowPermissions_flags (image : KernelImage platform)
    (address : Nat) :
    windowPermissions image address &&& 0b11 = 0 ∧
      windowPermissions image address &&& addressMask = 0 := by
  unfold windowPermissions
  repeat' split
  all_goals decide

theorem HeapMemory.leaf_cases (heap : HeapMemory image start pins memory)
    (hstatic : start.static image = Contents.initial image contents)
    {i j k : Fin 512} (h : leafAt image memory i j k ≠ 0) :
    (i = poolIndex ∧ j.val < 8) ∨
      (i = (windowIndex platform).1 ∧ j = (windowIndex platform).2) := by
  by_cases hpool : i = poolIndex
  · left
    subst i
    cases htable : tableAt image memory (.third poolIndex j) with
    | none =>
        rw [leafAt_of_none htable] at h
        exact absurd rfl h
    | some table =>
        exact ⟨rfl, heap.fixed.poolTable heap.sound.paging hstatic htable⟩
  · right
    rw [heap.fixed.leaf _ _ _ hpool] at h
    cases htable : tableAt image start (.third i j) with
    | none =>
        rw [leafAt_of_none htable] at h
        exact absurd rfl h
    | some found =>
        obtain ⟨table, hplace, _⟩ := (tableAt_initial hstatic _ _).mp htable
        cases table with
        | level1 => cases hplace
        | level2Low => cases hplace
        | level2High => cases hplace
        | level3Kernel =>
            cases platform with
            | virt =>
                cases hplace
                exact ⟨rfl, rfl⟩
            | pi5 =>
                cases hplace
                exact ⟨rfl, rfl⟩

theorem address_split (address : Nat) :
    address % 2 ^ 39 = (level1Of address).val * 2 ^ 30 +
      (level2Of address).val * 2 ^ 21 + (level3Of address).val * 2 ^ 12 +
        address % pageSize := by
  change address % 2 ^ 39 = getLevel1Index address * 2 ^ 30 +
    getLevel2Index address * 2 ^ 21 + getLevel3Index address * 2 ^ 12 +
      address % pageSize
  rw [getLevel1Index_eq, getLevel2Index_eq, getLevel3Index_eq]
  unfold pageSize
  omega

/-- An access goes to the frame of a pool page, or to its own address in the
kernel's window. -/
theorem HeapMemory.translate_cases
    (heap : HeapMemory image start pins state.memory)
    (hstatic : start.static image = Contents.initial image contents)
    (h : state.translate image address = some physical) :
    (∃ page frame, page < virtualPageCount ∧
      Mapped image state.memory page frame ∧
      address % 2 ^ 39 = pageAddress page + address % pageSize ∧
      physical = platform.frameAddress frame + address % pageSize) ∨
    (platform.kernelBase ≤ address % 2 ^ 39 ∧
      address % 2 ^ 39 < platform.kernelBase + 0x200000 ∧
      physical = address % 2 ^ 39) := by
  have hsplit := address_split address
  have hthird := (level3Of address).isLt
  have hmod : address % pageSize < pageSize := Nat.mod_lt _ (by decide)
  unfold HeapState.translate at h
  simp only at h
  split at h
  · rename_i htype
    obtain rfl := Option.some.inj h
    have hleaf := ne_zero_of_type htype (by decide)
    rcases heap.leaf_cases hstatic hleaf with
      ⟨hfirst, hsecond⟩ | ⟨hfirst, hsecond⟩
    · left
      let page := (level2Of address).val * 512 + (level3Of address).val
      have hpage : page < virtualPageCount := by
        rw [virtualPageCount_eq]
        omega
      have hpath : leafAt image state.memory (level1Of address)
          (level2Of address) (level3Of address) =
            poolLeaf image state.memory page := by
        have hlevel1 : level1Of (pageAddress page) = level1Of address :=
          (Fin.ext (level1Of_pageAddress hpage)).trans hfirst.symm
        have hlevel2 : level2Of (pageAddress page) = level2Of address := by
          apply Fin.ext
          rw [level2Of_pageAddress hpage]
          omega
        have hlevel3 : level3Of (pageAddress page) = level3Of address := by
          apply Fin.ext
          rw [level3Of_pageAddress]
          omega
        unfold poolLeaf
        rw [hlevel1, hlevel2, hlevel3]
      rw [hpath] at hleaf ⊢
      obtain ⟨frame, hmapped, loose⟩ := heap.sound.entries page hpage hleaf
      refine ⟨page, frame, hpage, hmapped, ?_, ?_⟩
      · have htwo : (level1Of address).val = 2 := congrArg Fin.val hfirst
        unfold pageAddress virtualMemoryStart
        unfold pageSize at *
        omega
      · rw [show poolLeaf image state.memory page =
          poolDescriptor platform frame from hmapped,
          poolDescriptor_address heap.sound.paging loose.bounded]
    · right
      have hwindow := window_ne_pool platform
      have hflags := windowPermissions_flags image
        (platform.kernelBase + (level3Of address).val * 0x1000)
      have hbase : (level1Of address).val * 2 ^ 30 +
          (level2Of address).val * 2 ^ 21 = platform.kernelBase := by
        rw [hfirst, hsecond]
        cases platform <;> decide
      have hbound : platform.kernelBase ≤ 0x40000000 := by
        cases platform <;> decide
      have haddressable : Addressable (platform.kernelBase +
          (level3Of address).val * 0x1000) := by
        have haligned := kernelBase_mod platform
        unfold Addressable pageSize
        omega
      rw [heap.fixed.leaf _ _ _ (hfirst ▸ hwindow), hfirst, hsecond,
        windowLeaf hstatic]
      unfold Contents.windowPage
      rw [makeNormalPageDescriptor_address hflags.2 haddressable]
      unfold pageSize at *
      omega
  · cases h

theorem HeapMemory.translate_ne
    (heap : HeapMemory image start pins state.memory)
    (hstatic : start.static image = Contents.initial image contents)
    {distance : Nat} (hpositive : 0 < distance) (hnear : distance < 8192)
    (hother : other % 2 ^ 39 = (address + distance) % 2 ^ 39)
    (h : state.translate image address = some physical) :
    state.translate image other ≠ some physical := by
  intro hsame
  have hbase : platform.kernelBase = 0x40000000 ∨
      platform.kernelBase = 0x200000 := by
    cases platform with
    | virt => exact .inl rfl
    | pi5 => exact .inr rfl
  have hmod : address % pageSize < pageSize := Nat.mod_lt _ (by decide)
  have hmod' : other % pageSize < pageSize := Nat.mod_lt _ (by decide)
  rcases heap.translate_cases hstatic h with
    ⟨page, frame, hpage, hmapped, hplace, hphysical⟩ | ⟨hlow, hhigh, hplace⟩
  · rcases heap.translate_cases hstatic hsame with
      ⟨page', frame', hpage', hmapped', hplace', hphysical'⟩ |
      ⟨hlow', hhigh', _⟩
    · -- two places of the pool
      have hframe : frame = frame' := by
        unfold Platform.frameAddress at hphysical hphysical'
        unfold pageSize at *
        omega
      subst hframe
      have heq := heap.sound.unique page page' frame hpage hpage' hmapped
        hmapped'
      subst heq
      omega
    · rw [virtualPageCount_eq] at hpage
      unfold pageAddress virtualMemoryStart at hplace
      unfold pageSize at *
      omega
  · rcases heap.translate_cases hstatic hsame with
      ⟨page', frame', hpage', hmapped', hplace', hphysical'⟩ |
      ⟨hlow', hhigh', hplace'⟩
    · rw [virtualPageCount_eq] at hpage'
      unfold pageAddress virtualMemoryStart at hplace'
      unfold pageSize at *
      omega
    · omega

end

end Planetoid.Memory
