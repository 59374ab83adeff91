import Planetoid.Base.Runs
import Planetoid.Memory.FreeFrames

namespace Planetoid.Memory

open Planetoid Program Mmu TableTree VirtualMemory

/-! The bitmaps and the page tables in every state of a run. -/

inductive PoolOperation where
  | allocatePage
  | allocatePages (pageCount : Nat)
  | freePage (virtualAddress : Nat)
  | freePages (virtualAddress pageCount : Nat)

section

variable {platform : Platform} (image : KernelImage platform)

def PoolOperation.program : PoolOperation → Vm Unit
  | .allocatePage => do
    let _ ← VirtualMemory.allocatePage image
  | .allocatePages pageCount => do
    let _ ← VirtualMemory.allocatePages image pageCount
  | .freePage virtualAddress => do
    let _ ← VirtualMemory.freePage image virtualAddress
  | .freePages virtualAddress pageCount => do
    let _ ← VirtualMemory.freePages image virtualAddress pageCount

/-- The runs of the operations from the state that the initialisation left. -/
def poolRuns (start : MemoryState) : System MemoryState PoolOperation where
  initial := fun state => state = start
  step := fun before operation after =>
    (operation.program image).run before = .ok ((), after)

def MapsTo (state : MemoryState) (page frame : Nat) : Prop :=
  poolLeaf image state page ≠ 0 ∧
    poolLeaf image state page &&& addressMask = platform.frameAddress frame

def InKernelImage (frame : Nat) : Prop :=
  image.kernelStart ≤ platform.frameAddress frame ∧
    platform.frameAddress frame < image.kernelEnd

/-- A page table that the tree from `level1_table` links is in `frame`. -/
def TableFrame (state : MemoryState) (frame : Nat) : Prop :=
  ∃ node, tableAt image state node = some (platform.frameAddress frame)

structure PoolInvariant (start state : MemoryState) : Prop where
  bits : ∀ page, page < virtualPageCount →
    (state.virtualBitmap.test page = true ↔ poolLeaf image state page ≠ 0)
  mapped : ∀ page, page < virtualPageCount → poolLeaf image state page ≠ 0 →
    ∃ frame, frame < state.frameCount ∧ MapsTo image state page frame ∧
      ¬ TableFrame image state frame ∧ ¬ InKernelImage image frame
  distinct : ∀ page other frame, page < virtualPageCount →
    other < virtualPageCount → MapsTo image state page frame →
    MapsTo image state other frame → page = other
  used : ∀ frame, frame < state.frameCount → (state.used frame = true ↔
    start.used frame = true ∨
      (∃ page, page < virtualPageCount ∧ MapsTo image state page frame) ∨
      TableFrame image state frame)

end

section

variable {platform : Platform} {image : KernelImage platform}
  {start state : MemoryState}

theorem Sound.mapsTo_iff (sound : Sound image state none) {page frame : Nat}
    (hpage : page < virtualPageCount) (hframe : frame < state.frameCount) :
    MapsTo image state page frame ↔ Mapped image state page frame := by
  constructor
  · rintro ⟨hentry, haddress⟩
    obtain ⟨other, hmapped, loose⟩ := sound.entries page hpage hentry
    have hsame : platform.frameAddress other = platform.frameAddress frame := by
      rw [← haddress, ← poolDescriptor_address sound.paging loose.bounded]
      exact congrArg (· &&& addressMask) hmapped.symm
    rw [← platform.frameAddress_injective hsame]
    exact hmapped
  · intro hmapped
    unfold Mapped at hmapped
    unfold MapsTo
    rw [hmapped]
    exact ⟨poolDescriptor_ne_zero frame,
      poolDescriptor_address sound.paging hframe⟩

theorem Sound.mapsTo_lt (sound : Sound image state none) {page frame : Nat}
    (hpage : page < virtualPageCount) (h : MapsTo image state page frame) :
    frame < state.frameCount := by
  obtain ⟨other, hmapped, loose⟩ := sound.entries page hpage h.1
  have hsame : platform.frameAddress other = platform.frameAddress frame := by
    rw [← h.2, ← poolDescriptor_address sound.paging loose.bounded]
    exact congrArg (· &&& addressMask) hmapped.symm
  rw [← platform.frameAddress_injective hsame]
  exact loose.bounded

theorem Sound.poolInvariant (sound : Sound image state none)
    (hreserved : ∀ frame, frame < state.frameCount →
      (start.used frame = true ↔ Reserved image frame)) :
    PoolInvariant image start state where
  bits := sound.bits
  mapped := by
    intro page hpage hentry
    obtain ⟨frame, hmapped, loose⟩ := sound.entries page hpage hentry
    refine ⟨frame, loose.bounded,
      (sound.mapsTo_iff hpage loose.bounded).mpr hmapped, ?_, ?_⟩
    · rintro ⟨node, hnode⟩
      exact loose.noTable node hnode
    · exact fun h => loose.unreserved (.inl h)
  distinct := by
    intro page other frame hpage hother hfirst hsecond
    have hlt := sound.mapsTo_lt hpage hfirst
    exact sound.unique page other frame hpage hother
      ((sound.mapsTo_iff hpage hlt).mp hfirst)
      ((sound.mapsTo_iff hother hlt).mp hsecond)
  used := by
    intro frame hlt
    rw [sound.used_iff frame hlt, hreserved frame hlt]
    constructor
    · intro howned
      cases howned with
      | reserved h => exact .inl h
      | mapped hpage h =>
          exact .inr (.inl ⟨_, hpage, (sound.mapsTo_iff hpage hlt).mpr h⟩)
      | table h => exact .inr (.inr ⟨_, h⟩)
      | held h => cases h
    · rintro (h | ⟨page, hpage, h⟩ | ⟨node, h⟩)
      · exact .reserved h
      · exact .mapped hpage ((sound.mapsTo_iff hpage hlt).mp h)
      · exact .table h

theorem VirtualMemory.Allocated.frameCount {pageCount result : Nat} {after : MemoryState}
    (allocated : Allocated image state pageCount result after) :
    after.frameCount = state.frameCount := by
  rcases allocated.2 with ⟨_, _, hbits⟩ | ⟨_, _, _, _, hbits⟩
  · exact hbits.frameCount
  · exact hbits.frameCount

theorem PoolOperation.sound (sound : Sound image state none)
    (operation : PoolOperation) :
    ∃ after, (operation.program image).run state = .ok ((), after) ∧
      Sound image after none ∧ after.frameCount = state.frameCount := by
  cases operation with
  | allocatePage =>
      obtain ⟨result, after, hrun, allocated⟩ := allocatePage_allocated sound
      exact ⟨after, run_bind_ok hrun _, allocated.1, allocated.frameCount⟩
  | allocatePages pageCount =>
      obtain ⟨result, after, hrun, allocated⟩ :=
        run_allocatePages sound pageCount
      exact ⟨after, run_bind_ok hrun _, allocated.1, allocated.frameCount⟩
  | freePage virtualAddress =>
      by_cases hvalid : ∃ page, page < virtualPageCount ∧
          virtualAddress = pageAddress page
      · obtain ⟨page, hpage, rfl⟩ := hvalid
        have hrun := run_freePage sound hpage
        cases hused : state.virtualBitmap.test page with
        | false =>
            rw [hused] at hrun
            exact ⟨state, run_bind_ok hrun _, sound, rfl⟩
        | true =>
            rw [hused] at hrun
            have emptied := emptyEffect_filled sound hpage hused
            exact ⟨_, run_bind_ok hrun _, emptied.sound, emptied.frameCount⟩
      · exact ⟨state, run_bind_ok (run_freePage_invalid hvalid) _, sound, rfl⟩
  | freePages virtualAddress pageCount =>
      rcases run_freePages sound virtualAddress pageCount with
        ⟨_, hrun⟩ | ⟨page, after, _, hrun, hsound, hbits⟩
      · exact ⟨state, run_bind_ok hrun _, sound, rfl⟩
      · exact ⟨after, run_bind_ok hrun _, hsound, hbits.frameCount⟩

theorem reachable_sound (sound : Sound image start none)
    (reachable : (poolRuns image start).Reachable System.unguarded state) :
    Sound image state none ∧ state.frameCount = start.frameCount := by
  refine @System.Reachable.holds _ _ _ _ (fun current =>
    Sound image current none ∧ current.frameCount = start.frameCount) _
    reachable ?_ ?_
  · rintro _ rfl
    exact ⟨sound, rfl⟩
  · rintro before operation after ⟨hsound, hcount⟩ _ hrun
    obtain ⟨other, hother, hafter, hsame⟩ := operation.sound hsound
    change (operation.program image).run before = .ok ((), after) at hrun
    rw [hrun] at hother
    injection hother with heq
    injection heq with _ heq
    subst heq
    exact ⟨hafter, hsame.trans hcount⟩

end

/-- After the initialisation, in every state that the operations of
`VirtualMemory` reach, the invariant holds and every operation returns. -/
theorem poolInvariant_of_reachable {platform : Platform}
    (image : KernelImage platform) {boot start state : MemoryState}
    (hstart : (initMemory image).run boot = .ok ((), start))
    (reachable : (poolRuns image start).Reachable System.unguarded state) :
    PoolInvariant image start state ∧
      ∀ operation : PoolOperation, ∃ after,
        (operation.program image).run state = .ok ((), after) := by
  obtain ⟨other, hother, startSound, htotal, hreserved, _⟩ :=
    run_initMemory image boot
  rw [hstart] at hother
  injection hother with heq
  injection heq with _ heq
  subst heq
  obtain ⟨sound, hcount⟩ := reachable_sound startSound reachable
  refine ⟨sound.poolInvariant ?_, ?_⟩
  · intro frame hlt
    rw [hcount, htotal] at hlt
    exact hreserved frame hlt
  · intro operation
    obtain ⟨after, hrun, _, _⟩ := operation.sound sound
    exact ⟨after, hrun⟩

def smallImage : KernelImage .virt where
  text := ⟨0x40080000, 0x40080010⟩
  rodata := ⟨0x40081000, 0x40081010⟩
  data := ⟨0x40082000, 0x40082010⟩
  bss := ⟨0x40083000, 0x400A7000⟩
  stack := ⟨0x400A7000, 0x400B7000⟩
  level1Table := 0x40083000
  level3KernelTable := 0x40084000
  level2LowTable := 0x40085000
  level2HighTable := 0x40086000
  aligned := by decide
  ordered := by decide
  consecutive := by decide
  inWindow := by decide
  tables_aligned := by decide
  tables_bss := by decide
  tables_nodup := by decide

def bootMemory : MemoryState where
  physicalBitmap := fun _ => 0
  frameCount := 0
  virtualBitmap := fun _ => 0
  tables := fun _ _ => 0
  tlb := fun _ => none

theorem poolRuns_twoPages {platform : Platform} (image : KernelImage platform)
    (boot : MemoryState) : ∃ start first second third,
      (initMemory image).run boot = .ok ((), start) ∧
      (allocatePage image).run start = .ok (pageAddress 0, first) ∧
      (allocatePage image).run first = .ok (pageAddress 1, second) ∧
      (freePage image (pageAddress 0)).run second = .ok (true, third) ∧
      (poolRuns image start).Reachable System.unguarded third := by
  obtain ⟨start, first, second, hstart, hfirst, filled, hsecond, last⟩ :=
    allocatePage_twice image boot
  have hused : second.virtualBitmap.test 0 = true := by
    rw [last.bit, if_neg Nat.zero_ne_one, filled.bit, if_pos rfl]
  have hfree := @run_freePage _ image _ last.sound 0 (by decide)
  rw [hused, if_pos rfl] at hfree
  exact ⟨start, first, second, _, hstart, hfirst, hsecond, hfree,
    @System.Reachable.step _ _ _ _ _ _ (.freePage (pageAddress 0))
      (@System.Reachable.step _ _ _ _ _ _ .allocatePage
        (@System.Reachable.step _ _ _ _ _ _ .allocatePage (.initial rfl)
          trivial (run_bind_ok hfirst _))
        trivial (run_bind_ok hsecond _))
      trivial (run_bind_ok hfree _)⟩

theorem poolInvariant_smallImage :
    ∃ start first second third,
      (initMemory smallImage).run bootMemory = .ok ((), start) ∧
      (allocatePage smallImage).run start = .ok (pageAddress 0, first) ∧
      (allocatePage smallImage).run first = .ok (pageAddress 1, second) ∧
      (freePage smallImage (pageAddress 0)).run second = .ok (true, third) ∧
      (poolRuns smallImage start).Reachable System.unguarded third ∧
      PoolInvariant smallImage start third := by
  obtain ⟨start, first, second, third, hstart, hfirst, hsecond, hfree,
    reached⟩ := poolRuns_twoPages smallImage bootMemory
  exact ⟨start, first, second, third, hstart, hfirst, hsecond, hfree, reached,
    (poolInvariant_of_reachable smallImage hstart reached).1⟩

end Planetoid.Memory
