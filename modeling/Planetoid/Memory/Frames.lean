import Planetoid.Memory.VirtualMemory

namespace Planetoid.Memory

open Planetoid Program

/-! Physical frames by their numbers. -/

namespace MemoryState

def used (state : MemoryState) (frame : Nat) : Bool :=
  state.physicalBitmap.test frame

def claim (state : MemoryState) (frame : Nat) : MemoryState :=
  { state with physicalBitmap := state.physicalBitmap.set frame }

def release (state : MemoryState) (frame : Nat) : MemoryState :=
  { state with physicalBitmap := state.physicalBitmap.clear frame }

def nextFrame (state : MemoryState) : Option Nat :=
  (List.range' 0 state.frameCount).find? fun frame => !state.used frame

@[simp] theorem used_claim (state : MemoryState) (frame other : Nat) :
    (state.claim frame).used other =
      (decide (other = frame) || state.used other) :=
  Bitmap.test_set ..

@[simp] theorem used_release (state : MemoryState) (frame other : Nat) :
    (state.release frame).used other =
      (!decide (other = frame) && state.used other) :=
  Bitmap.test_clear ..

theorem nextFrame_lt {state : MemoryState} {frame : Nat}
    (h : state.nextFrame = some frame) : frame < state.frameCount := by
  have hmem := List.mem_of_find?_eq_some h
  simpa using hmem

theorem nextFrame_free {state : MemoryState} {frame : Nat}
    (h : state.nextFrame = some frame) : state.used frame = false := by
  have hfound := List.find?_some h
  simpa using hfound

end MemoryState

namespace Platform

def frameAddress (platform : Platform) (frame : Nat) : Nat :=
  platform.physicalMemoryBase + frame * pageSize

theorem frameAddress_injective (platform : Platform) {first second : Nat}
    (h : platform.frameAddress first = platform.frameAddress second) :
    first = second := by
  unfold frameAddress pageSize at h
  omega

theorem getFrameNumber_frameAddress (platform : Platform) (frame : Nat) :
    PhysicalMemory.getFrameNumber platform (platform.frameAddress frame) =
      frame := by
  unfold PhysicalMemory.getFrameNumber frameAddress pageSize
  omega

theorem frameAddress_mod (platform : Platform) (frame : Nat) :
    platform.frameAddress frame % pageSize = 0 := by
  unfold frameAddress pageSize
  cases platform with
  | virt =>
      simp only [physicalMemoryBase]
      omega
  | pi5 =>
      simp only [physicalMemoryBase]
      omega

end Platform

namespace PhysicalMemory

variable (platform : Platform)

theorem run_isFrameUsed (frame : Nat) (state : MemoryState) :
    (isFrameUsed frame).run state = .ok (state.used frame, state) := rfl

def allocateEffect (state : MemoryState) : Nat × MemoryState :=
  match state.nextFrame with
  | none => (0, state)
  | some frame => (platform.frameAddress frame, state.claim frame)

theorem run_allocateFrame (state : MemoryState) :
    (allocateFrame platform).run state =
      .ok (allocateEffect platform state) := by
  unfold allocateFrame allocateEffect
  rw [run_read_bind]
  have hloop := @run_forRange_find _ _ _ (fun frame _ => do
      if ← isFrameUsed frame then
        pure (.inl ())
      else do
        setFrameUsed frame
        pure (.inr (platform.physicalMemoryBase + frame * pageSize)))
    (fun frame => !state.used frame)
    (fun frame => (platform.frameAddress frame, state.claim frame)) state
    (by
      intro frame hused
      rw [run_bind_ok (run_isFrameUsed frame state)]
      simp only [Bool.not_eq_false'] at hused
      rw [hused]
      rfl)
    (by
      intro frame hfree
      rw [run_bind_ok (run_isFrameUsed frame state)]
      simp only [Bool.not_eq_true'] at hfree
      rw [hfree]
      rfl) 0 state.frameCount
  unfold MemoryState.nextFrame
  cases hfind : (List.range' 0 state.frameCount).find?
      (fun frame => !state.used frame) with
  | none =>
      rw [hfind] at hloop
      exact run_bind_ok hloop _
  | some frame =>
      rw [hfind] at hloop
      exact run_bind_ok hloop _

theorem run_freeFrame {state : MemoryState} {frame : Nat}
    (h : frame < state.frameCount) :
    (freeFrame platform (platform.frameAddress frame)).run state =
      .ok ((), state.release frame) := by
  have hbase : ¬ platform.frameAddress frame < platform.physicalMemoryBase :=
    Nat.not_lt.mpr (Nat.le_add_right ..)
  have haligned : ¬ platform.frameAddress frame % pageSize ≠ 0 :=
    not_not.mpr (platform.frameAddress_mod frame)
  unfold freeFrame
  rw [if_neg hbase, if_neg haligned, run_read_bind,
    platform.getFrameNumber_frameAddress, if_neg (Nat.not_le.mpr h)]
  rfl

end PhysicalMemory

end Planetoid.Memory
