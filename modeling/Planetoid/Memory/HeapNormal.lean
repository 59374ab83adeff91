import Planetoid.Base.Merging
import Planetoid.Memory.HeapCoalescing

namespace Planetoid.Memory

open Planetoid KernelHeapAllocator

/-! The list after `kfree` is the normal form of the list in which the block is
free. -/

def Chunk.gain (chunk behind : Chunk) : Chunk :=
  { chunk with size := chunk.size + behind.extent }

instance (first second : Chunk) : Decidable (first.Adjoins second) :=
  inferInstanceAs (Decidable (_ ∧ _))

theorem Chunk.finish_gain {first second : Chunk}
    (h : first.finish = second.address) :
    (first.gain second).finish = second.finish := by
  unfold finish at *
  unfold gain extent
  simp only
  omega

def coalescing : Merging Chunk where
  Adjoins := Chunk.Adjoins
  decide := inferInstance
  merge := Chunk.gain
  adjoins_left := by
    intro first second h other
    unfold Chunk.Adjoins at *
    rw [Chunk.finish_gain h.2.2, h.2.1]
    exact and_congr_left' (iff_of_true h.1 rfl)
  adjoins_right := fun _ _ => Iff.rfl
  assoc := by
    intro first second third _ _
    unfold Chunk.gain Chunk.extent
    simp only [Chunk.mk.injEq, and_true, true_and]
    omega

theorem coalesced_iff {blocks : List Chunk} :
    Coalesced blocks ↔ coalescing.Merged blocks :=
  Iff.rfl

section

variable {before behind rest blocks : List Chunk} {chunk : Chunk}

theorem normal_absorb (address gained : Nat) (behind : List Chunk) :
    coalescing.normal (before ++ ⟨address, gained, true⟩ :: behind) =
      coalescing.normal (before ++
        ⟨address, (absorb address gained behind).1, true⟩ ::
          (absorb address gained behind).2) := by
  induction behind generalizing gained with
  | nil => rfl
  | cons next rest ih =>
      unfold absorb
      split
      · rename_i h
        have hadjoins : coalescing.Adjoins ⟨address, gained, true⟩ next :=
          ⟨rfl, h.1, h.2.symm⟩
        have hmerge : coalescing.merge ⟨address, gained, true⟩ next =
            ⟨address, gained + sizeofBlock + next.size, true⟩ := by
          change Chunk.mk _ (gained + (sizeofBlock + next.size)) _ = _
          rw [Nat.add_assoc]
        rw [← ih, ← hmerge]
        exact (Merging.normal_merge hadjoins).symm
      · rfl

theorem normal_mergeInto (hfree : chunk.free = true) :
    coalescing.normal (before ++ chunk :: rest) =
      coalescing.normal (mergeInto before chunk ++ rest) := by
  unfold mergeInto
  cases hlast : before.getLast? with
  | none =>
      rw [List.getLast?_eq_none_iff] at hlast
      rw [hlast]
      rfl
  | some previous =>
      obtain ⟨front, rfl⟩ := List.getLast?_eq_some_iff.mp hlast
      simp only
      split
      · rename_i h
        have hadjoins : coalescing.Adjoins previous chunk :=
          ⟨h.1, hfree, h.2⟩
        rw [List.dropLast_concat, List.append_assoc, List.append_assoc]
        exact (Merging.normal_merge hadjoins).symm
      · rw [List.append_assoc (front ++ [previous])]
        rfl

theorem release_eq_normal (h : Coalesced (before ++ chunk :: behind)) :
    release before chunk behind =
      coalescing.normal (before ++ { chunk with free := true } :: behind) := by
  have hreleased := coalesced_iff.mp (coalesced_release h)
  rw [normal_absorb, normal_mergeInto rfl]
  exact hreleased.normal_eq.symm

/-- What a split left comes back to the block when it is freed. -/
theorem release_place (h : Coalesced (before ++ chunk :: behind))
    (hfree : chunk.free = true) (size : Nat) :
    ∃ taken rest, place chunk size = taken :: rest ∧
      taken.address = chunk.address ∧ taken.free = false ∧
      release before taken (rest ++ behind) = before ++ chunk :: behind := by
  have hplaced : Coalesced (before ++ place chunk size ++ behind) := by
    unfold Coalesced at h
    rw [List.isChain_append] at h
    exact coalesced_place h.1 h.2.1 hfree size
  have hself := (coalesced_iff.mp h).normal_eq
  unfold place at *
  split at hplaced
  · rename_i hroom
    rw [if_pos hroom]
    refine ⟨_, _, rfl, rfl, rfl, ?_⟩
    rw [List.append_assoc] at hplaced
    refine (release_eq_normal hplaced).trans (Eq.trans ?_ hself)
    have hadjoins : coalescing.Adjoins ⟨chunk.address, size, true⟩
        ⟨chunk.address + sizeofBlock + size, chunk.size - size - sizeofBlock,
          true⟩ := ⟨rfl, rfl, rfl⟩
    have hmerge : coalescing.merge ⟨chunk.address, size, true⟩
        ⟨chunk.address + sizeofBlock + size, chunk.size - size - sizeofBlock,
          true⟩ = chunk := by
      obtain ⟨address, whole, free⟩ := chunk
      obtain rfl : free = true := hfree
      unfold coalescing Chunk.gain Chunk.extent
      unfold sizeofBlock at *
      simp only [Chunk.mk.injEq, and_true, true_and] at *
      omega
    have hnormal := @Merging.normal_merge _ _ _ _ before behind hadjoins
    rw [hmerge] at hnormal
    exact hnormal.symm
  · rename_i hroom
    rw [if_neg hroom]
    refine ⟨_, _, rfl, rfl, rfl, ?_⟩
    rw [List.append_assoc] at hplaced
    refine (release_eq_normal hplaced).trans (Eq.trans ?_ hself)
    obtain ⟨address, whole, free⟩ := chunk
    obtain rfl : free = true := hfree
    rfl

def freeAll (pointers : List Nat) (chunk : Chunk) : Chunk :=
  if chunk.payload ∈ pointers then { chunk with free := true } else chunk

theorem freeAll_of_free {pointers : List Nat} (h : chunk.free = true) :
    freeAll pointers chunk = chunk := by
  unfold freeAll
  split
  · obtain ⟨address, size, free⟩ := chunk
    obtain rfl : free = true := h
    rfl
  · rfl

theorem normal_freeAll_normal (pointers : List Nat) (blocks : List Chunk) :
    coalescing.normal ((coalescing.normal blocks).map (freeAll pointers)) =
      coalescing.normal (blocks.map (freeAll pointers)) := by
  apply Merging.normal_map_normal
  · intro first second h
    rw [freeAll_of_free h.1, freeAll_of_free h.2.1]
    exact h
  · intro first second h
    rw [freeAll_of_free h.1, freeAll_of_free h.2.1]
    exact freeAll_of_free h.1

end

end Planetoid.Memory
