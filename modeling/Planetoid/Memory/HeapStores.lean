import Planetoid.Memory.HeapSafety

namespace Planetoid.Memory

open Planetoid Program KernelHeapAllocator

/-! Stores of whole words into an allocation, as stores of their bytes. -/

section

variable {platform : Platform} {image : KernelImage platform}
  {start state : HeapState} {live : List Nat} {layout : Layout}
  {chunk : Chunk} {place : Nat}

theorem HeapState.modify_modify (state : HeapState) (address : Nat)
    (first second : BitVec 64 → BitVec 64) :
    (state.modify image address first).modify image address second =
      state.modify image address (second ∘ first) := by
  unfold HeapState.modify
  cases htranslate : state.translate image address with
  | none => simp only [htranslate]
  | some physical =>
      have hsame : HeapState.translate image { state with
          ram := Function.update state.ram physical
            (first (state.ram physical)) } address = some physical :=
        htranslate
      simp only [hsame, Function.update_self, Function.update_idem,
        Function.comp_apply]

theorem HeapState.modify_id (state : HeapState) (address : Nat) :
    state.modify image address id = state := by
  unfold HeapState.modify
  split
  · rfl
  · rw [id, Function.update_eq_self]

/-- A state of a run of the heap, in which `layout` has the live
allocations. -/
structure Written (image : KernelImage platform) (start : HeapState)
    (live : List Nat) (layout : Layout) (state : HeapState) : Prop where
  reachable : (heapRuns image start).Reachable (FreesSafely image)
    ⟨state, live⟩
  keeps : HeapRun.Keeps image ⟨state, live⟩ layout

theorem Written.inPayload (written : Written image start live layout state)
    (hholds : layout.Holds chunk) (hlow : chunk.payload ≤ place)
    (hhigh : place < chunk.finish) :
    InPayload image state chunk.payload place := by
  refine ⟨hlow, ?_⟩
  rw [(written.keeps.recordedSize hholds).2]
  exact hhigh

theorem Written.modify (written : Written image start live layout state)
    (hholds : layout.Holds chunk) (hlive : chunk.payload ∈ live)
    (hlow : chunk.payload ≤ place) (hhigh : place < chunk.finish)
    (haligned : place % 8 = 0) {index : Nat} (hindex : index < 8)
    (byte : BitVec 8) :
    (storeByte image (place + index) byte).run state =
        .ok ((), state.modify image place fun word =>
          setByte word index byte) ∧
      Written image start live layout (state.modify image place fun word =>
        setByte word index byte) := by
  have hplace : place + index - (place + index) % 8 = place ∧
      (place + index) % 8 = index := by omega
  obtain ⟨_, hrun, arranged, _, _⟩ := written.keeps.arranged.modifyPayload
    hholds hlow hhigh haligned fun word => setByte word index byte
  have hstore : (storeByte image (place + index) byte).run state =
      .ok ((), state.modify image place fun word =>
        setByte word index byte) := by
    unfold storeByte
    rw [hplace.1, hplace.2]
    exact hrun
  have hsizes := hholds.aligned written.keeps.arranged
  have hlast : place + index < chunk.finish := by
    unfold Chunk.finish Chunk.payload sizeofBlock at *
    omega
  exact ⟨hstore, .step written.reachable (fun _ h => by cases h)
    (.store hlive (written.inPayload hholds (by omega) hlast) hstore),
    arranged, written.keeps.coalesced, written.keeps.nodup,
    written.keeps.held⟩

theorem Written.setBytes (written : Written image start live layout state)
    (hholds : layout.Holds chunk) (hlive : chunk.payload ∈ live)
    (hlow : chunk.payload ≤ place) (hhigh : place < chunk.finish)
    (haligned : place % 8 = 0) (value : BitVec 64) {count : Nat}
    (hcount : count ≤ 8) :
    Written image start live layout (state.modify image place fun word =>
      Planetoid.setBytes word value count) := by
  induction count with
  | zero =>
      have hsame := @HeapState.modify_id _ image state place
      exact hsame.symm ▸ written
  | succ count ih =>
      have hnext := (ih (by omega)).modify hholds hlive hlow hhigh haligned
        (show count < 8 by omega) (byteOf value count)
      rw [HeapState.modify_modify] at hnext
      exact hnext.2

theorem Written.store (written : Written image start live layout state)
    (hholds : layout.Holds chunk) (hlive : chunk.payload ∈ live)
    (hlow : chunk.payload ≤ place) (hhigh : place < chunk.finish)
    (haligned : place % 8 = 0) (value : BitVec 64) :
    ∃ after, (modifyWord image place fun _ => value).run state =
        .ok ((), after) ∧ Written image start live layout after := by
  obtain ⟨_, hrun, _⟩ := written.keeps.arranged.modifyPayload hholds hlow
    hhigh haligned fun _ => value
  refine ⟨_, hrun, ?_⟩
  have hbytes := written.setBytes hholds hlive hlow hhigh haligned value
    (Nat.le_refl 8)
  simp only [setBytes_eight] at hbytes
  exact hbytes

end

end Planetoid.Memory
