import Planetoid.Memory.Frames

namespace Planetoid.Memory

open Planetoid Program

/-! The bitmaps after `PhysicalMemory::init` and `VirtualMemory::init`. -/

namespace MemoryState

def claimRange (state : MemoryState) (first : Nat) : Nat → MemoryState
  | 0 => state
  | count + 1 => (claimRange state first count).claim (first + count)

def releaseRange (state : MemoryState) (first : Nat) : Nat → MemoryState
  | 0 => state
  | count + 1 => (releaseRange state first count).release (first + count)

def addFrames (state : MemoryState) (count : Nat) : MemoryState :=
  { state with frameCount := state.frameCount + count }

theorem used_claimRange (state : MemoryState) (first count frame : Nat) :
    (state.claimRange first count).used frame =
      (decide (first ≤ frame ∧ frame < first + count) || state.used frame) := by
  induction count with
  | zero =>
      have hout : ¬ (first ≤ frame ∧ frame < first + 0) := by omega
      simp only [claimRange, hout, decide_false, Bool.false_or]
  | succ count ih =>
      have hin : (first ≤ frame ∧ frame < first + (count + 1)) ↔
          frame = first + count ∨ (first ≤ frame ∧ frame < first + count) := by
        omega
      rw [claimRange, used_claim, ih, ← Bool.or_assoc, ← Bool.decide_or]
      simp only [hin]

theorem used_releaseRange (state : MemoryState) (first count frame : Nat) :
    (state.releaseRange first count).used frame =
      (!decide (first ≤ frame ∧ frame < first + count) &&
        state.used frame) := by
  induction count with
  | zero =>
      have hout : ¬ (first ≤ frame ∧ frame < first + 0) := by omega
      simp only [releaseRange, hout, decide_false, Bool.not_false,
        Bool.true_and]
  | succ count ih =>
      have hin : (first ≤ frame ∧ frame < first + (count + 1)) ↔
          frame = first + count ∨ (first ≤ frame ∧ frame < first + count) := by
        omega
      rw [releaseRange, used_release, ih, ← Bool.and_assoc, ← Bool.not_or,
        ← Bool.decide_or]
      simp only [hin]

theorem claimRange_eq (state : MemoryState) (first count : Nat) :
    ∃ bitmap, state.claimRange first count =
      { state with physicalBitmap := bitmap } := by
  induction count with
  | zero => exact ⟨_, rfl⟩
  | succ count ih =>
      obtain ⟨bitmap, heq⟩ := ih
      rw [claimRange, heq]
      exact ⟨_, rfl⟩

theorem releaseRange_eq (state : MemoryState) (first count : Nat) :
    ∃ bitmap, state.releaseRange first count =
      { state with physicalBitmap := bitmap } := by
  induction count with
  | zero => exact ⟨_, rfl⟩
  | succ count ih =>
      obtain ⟨bitmap, heq⟩ := ih
      rw [releaseRange, heq]
      exact ⟨_, rfl⟩

end MemoryState

namespace PhysicalMemory

variable (platform : Platform)

def regionFirst (region : MemoryRegion) : Nat :=
  getFrameNumber platform region.base

def regionCount (region : MemoryRegion) : Nat := region.size / pageSize

def InRegion (region : MemoryRegion) (frame : Nat) : Prop :=
  region.type = .usable ∧ regionFirst platform region ≤ frame ∧
    frame < regionFirst platform region + regionCount region

def usableCount : MemoryMap → Nat
  | [] => 0
  | region :: rest =>
    (if region.type = .usable then regionCount region else 0) +
      usableCount rest

theorem run_freeRegions (map : MemoryMap) (state : MemoryState) :
    ∃ bitmap, (freeRegions platform map).run state =
        .ok ((), { state with
          physicalBitmap := bitmap
          frameCount := state.frameCount + usableCount map }) ∧
      ∀ frame, bitmap.test frame = true ↔ state.used frame = true ∧
        ∀ region ∈ map, ¬ InRegion platform region frame := by
  induction map generalizing state with
  | nil => exact ⟨state.physicalBitmap, rfl, fun frame => by
      simp [MemoryState.used]⟩
  | cons region rest ih =>
      unfold freeRegions
      by_cases husable : region.type = .usable
      · have hloop : (forEach (fun frame => setFrameFree
            (regionFirst platform region + frame)) 0
            (regionCount region)).run (state.addFrames (regionCount region)) =
              .ok ((), (state.addFrames (regionCount region)).releaseRange
                (regionFirst platform region) (regionCount region)) :=
          @run_forEach _ _ _ (MemoryState.releaseRange _ _) 0 _
            fun index _ => by
              rw [Nat.zero_add]
              rfl
        have hused := (state.addFrames (regionCount region)).used_releaseRange
          (regionFirst platform region) (regionCount region)
        obtain ⟨middle, heq⟩ := (state.addFrames (regionCount region)).releaseRange_eq
          (regionFirst platform region) (regionCount region)
        rw [heq] at hused hloop
        obtain ⟨bitmap, hrest, htest⟩ := ih
          { state.addFrames (regionCount region) with
            physicalBitmap := middle }
        refine ⟨bitmap, ?_, ?_⟩
        · rw [if_pos husable]
          refine (run_bind_ok hloop _).trans (hrest.trans ?_)
          rw [usableCount, if_pos husable, ← Nat.add_assoc]
          rfl
        · intro frame
          rw [htest frame, hused frame]
          simp only [List.mem_cons, forall_eq_or_imp, InRegion, husable,
            true_and, Bool.and_eq_true, Bool.not_eq_true',
            decide_eq_false_iff_not]
          constructor
          · rintro ⟨⟨hout, hbefore⟩, hothers⟩
            exact ⟨hbefore, hout, hothers⟩
          · rintro ⟨hbefore, hout, hothers⟩
            exact ⟨⟨hout, hbefore⟩, hothers⟩
      · obtain ⟨bitmap, hrest, htest⟩ := ih state
        refine ⟨bitmap, ?_, ?_⟩
        · rw [if_neg husable, hrest, usableCount, if_neg husable,
            Nat.zero_add]
        · intro frame
          rw [htest frame]
          simp only [List.mem_cons, forall_eq_or_imp]
          constructor
          · rintro ⟨hbefore, hothers⟩
            exact ⟨hbefore, fun h => husable h.1, hothers⟩
          · rintro ⟨hbefore, _, hothers⟩
            exact ⟨hbefore, hothers⟩

/-- The frames that `set_frame_range_used` marks: those that share a byte with
the range, rounded outward. -/
theorem inFrameRange_iff {address : Nat} (size frame : Nat)
    (hbase : platform.physicalMemoryBase ≤ address) :
    (getFrameNumber platform (alignDown address) ≤ frame ∧
      frame < getFrameNumber platform (alignDown address) +
        (alignDown (address + size + pageSize - 1) - alignDown address) /
          pageSize) ↔
      address < platform.frameAddress frame + pageSize ∧
        platform.frameAddress frame < address + size := by
  unfold getFrameNumber alignDown Platform.frameAddress pageSize
  cases platform with
  | virt =>
      unfold Platform.physicalMemoryBase at hbase ⊢
      simp only at hbase ⊢
      omega
  | pi5 =>
      unfold Platform.physicalMemoryBase
      simp only
      omega

theorem run_setFrameRangeUsed {address : Nat} (size : Nat)
    (hbase : platform.physicalMemoryBase ≤ address) (state : MemoryState) :
    ∃ bitmap, (setFrameRangeUsed platform address size).run state =
        .ok ((), { state with physicalBitmap := bitmap }) ∧
      ∀ frame, bitmap.test frame = true ↔
        (address < platform.frameAddress frame + pageSize ∧
          platform.frameAddress frame < address + size) ∨
        state.used frame = true := by
  have hloop : (setFrameRangeUsed platform address size).run state =
      .ok ((), state.claimRange
        (getFrameNumber platform (alignDown address))
        ((alignDown (address + size + pageSize - 1) - alignDown address) /
          pageSize)) :=
    @run_forEach _ _ _ (state.claimRange _) 0 _ fun index _ => by
      rw [Nat.zero_add]
      rfl
  have hused := state.used_claimRange
    (getFrameNumber platform (alignDown address))
    ((alignDown (address + size + pageSize - 1) - alignDown address) /
      pageSize)
  simp only [inFrameRange_iff platform size _ hbase] at hused
  obtain ⟨bitmap, heq⟩ := state.claimRange_eq
    (getFrameNumber platform (alignDown address))
    ((alignDown (address + size + pageSize - 1) - alignDown address) /
      pageSize)
  rw [heq] at hloop hused
  refine ⟨bitmap, hloop, ?_⟩
  intro frame
  have htest : bitmap.test frame = _ := hused frame
  rw [htest, Bool.or_eq_true, decide_eq_true_eq]

def InitiallyUsed (map : MemoryMap) (kernelStart kernelEnd frame : Nat) :
    Prop :=
  (∀ region ∈ map, ¬ InRegion platform region frame) ∨
    (platform = .pi5 ∧ platform.frameAddress frame < kernelStart) ∨
    (kernelStart < platform.frameAddress frame + pageSize ∧
      platform.frameAddress frame < kernelEnd)

def filledBitmap (state : MemoryState) : Bitmap := fun i =>
  if 0 ≤ i ∧ i < 0 + bitmapSize then 0xFF#8 else state.physicalBitmap i

theorem run_fillBitmap (state : MemoryState) :
    (forEach (fun i => write fun current => { current with
      physicalBitmap := Function.update current.physicalBitmap i 0xFF#8 })
      0 bitmapSize : Vm Unit).run state =
        .ok ((), { state with physicalBitmap := filledBitmap state }) :=
  @run_forEach_fill _ _ _ MemoryState.physicalBitmap
    (fun bitmap current => { current with physicalBitmap := bitmap })
    (fun _ _ => rfl) (fun _ _ _ => rfl) (fun _ => rfl) _ 0 0 _
    (fun _ => 0xFF#8) (fun index _ _ => by rw [Nat.zero_add]; rfl) state

theorem test_filledBitmap (state : MemoryState) {frame : Nat}
    (h : frame < 8 * bitmapSize) :
    (filledBitmap state).test frame = true := by
  have hbyte : 0 ≤ frame / 8 ∧ frame / 8 < 0 + bitmapSize := by omega
  rw [Bitmap.test_of_byte (if_pos hbyte)]
  have hbit : frame % 8 < 8 := Nat.mod_lt _ (by decide)
  generalize frame % 8 = bit at hbit
  revert bit
  decide

theorem run_init (map : MemoryMap) {kernelStart kernelEnd : Nat}
    (hbase : platform.physicalMemoryBase ≤ kernelStart)
    (hend : kernelStart ≤ kernelEnd) (state : MemoryState) :
    ∃ bitmap, (init platform map kernelStart kernelEnd).run state =
        .ok ((), { state with
          physicalBitmap := bitmap
          frameCount := usableCount map }) ∧
      ∀ frame, frame < 8 * bitmapSize → (bitmap.test frame = true ↔
        InitiallyUsed platform map kernelStart kernelEnd frame) := by
  obtain ⟨freed, hfree, htest⟩ := run_freeRegions platform map
    { state with
      physicalBitmap := filledBitmap state
      frameCount := 0 }
  simp only [Nat.zero_add] at hfree
  unfold init
  rw [run_bind_ok (run_fillBitmap state), run_write_bind,
    run_bind_ok hfree]
  have hkernel : kernelStart + (kernelEnd - kernelStart) = kernelEnd :=
    Nat.add_sub_cancel' hend
  unfold InitiallyUsed
  cases platform with
  | virt =>
      obtain ⟨bitmap, hmark, hbits⟩ := run_setFrameRangeUsed .virt
        (kernelEnd - kernelStart) hbase { state with
          physicalBitmap := freed
          frameCount := usableCount map }
      refine ⟨bitmap, hmark, ?_⟩
      intro frame hframe
      have hfreed : Bitmap.test freed frame = true ↔ _ := htest frame
      rw [hbits frame, hkernel]
      change _ ∨ Bitmap.test freed frame = true ↔ _
      rw [hfreed]
      change _ ∨ (filledBitmap state).test frame = true ∧ _ ↔ _
      simp only [test_filledBitmap state hframe, true_and, reduceCtorEq,
        false_and, false_or]
      exact or_comm
  | pi5 =>
      obtain ⟨below, hlow, hlowBits⟩ := run_setFrameRangeUsed .pi5
        kernelStart (Nat.le_refl 0) { state with
          physicalBitmap := freed
          frameCount := usableCount map }
      obtain ⟨bitmap, hmark, hbits⟩ := run_setFrameRangeUsed .pi5
        (kernelEnd - kernelStart) hbase { state with
          physicalBitmap := below
          frameCount := usableCount map }
      refine ⟨bitmap, (run_bind_ok hlow _).trans hmark, ?_⟩
      intro frame hframe
      have hfreed : Bitmap.test freed frame = true ↔ _ := htest frame
      have hpositive : 0 < Platform.pi5.frameAddress frame + pageSize :=
        Nat.add_pos_right _ (by decide)
      rw [hbits frame, hkernel]
      change _ ∨ Bitmap.test below frame = true ↔ _
      rw [hlowBits frame]
      change _ ∨ _ ∨ Bitmap.test freed frame = true ↔ _
      rw [hfreed]
      change _ ∨ _ ∨ (filledBitmap state).test frame = true ∧ _ ↔ _
      simp only [test_filledBitmap state hframe, true_and, hpositive,
        Nat.zero_add]
      constructor
      · rintro (h | h | h)
        · exact .inr (.inr h)
        · exact .inr (.inl h)
        · exact .inl h
      · rintro (h | h | h)
        · exact .inr (.inr h)
        · exact .inr (.inl h)
        · exact .inl h

end PhysicalMemory

namespace VirtualMemory

theorem run_init (state : MemoryState) :
    ∃ bitmap, init.run state =
        .ok ((), { state with virtualBitmap := bitmap }) ∧
      ∀ page, page < virtualPageCount → bitmap.test page = false := by
  have hloop := @run_forEach_fill _ Fault _ MemoryState.virtualBitmap
    (fun bitmap current => { current with virtualBitmap := bitmap })
    (fun _ _ => rfl) (fun _ _ _ => rfl) (fun _ => rfl)
    (fun i => write fun current => { current with
      virtualBitmap := Function.update current.virtualBitmap i 0#8 }) 0 0
    virtualBitmapSize (fun _ => 0#8)
    (fun index _ _ => by rw [Nat.zero_add]; rfl) state
  refine ⟨_, hloop, ?_⟩
  intro page hpage
  have hbyte : 0 ≤ page / 8 ∧ page / 8 < 0 + virtualBitmapSize := by
    rw [virtualPageCount_eq] at hpage
    unfold virtualBitmapSize
    rw [virtualPageCount_eq]
    omega
  rw [Bitmap.test_of_byte (if_pos hbyte)]
  exact BitVec.getLsbD_zero

end VirtualMemory

end Planetoid.Memory
