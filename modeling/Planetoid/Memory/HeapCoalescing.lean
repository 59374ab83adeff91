import Mathlib.Data.List.Chain
import Planetoid.Memory.HeapBlocks

namespace Planetoid.Memory

open Planetoid KernelHeapAllocator

/-! No free block is followed by a free block that starts where it ends. -/

def Chunk.Adjoins (first second : Chunk) : Prop :=
  first.free = true ∧ second.free = true ∧ first.finish = second.address

def Coalesced (blocks : List Chunk) : Prop :=
  blocks.IsChain fun first second => ¬ first.Adjoins second

section

variable {before behind rest : List Chunk} {chunk : Chunk}

/-- Only the first block of an allocation touches the blocks before it, and it
is taken. -/
theorem coalesced_place (hbefore : Coalesced before)
    (hrest : Coalesced (chunk :: rest)) (hfree : chunk.free = true)
    (size : Nat) : Coalesced (before ++ place chunk size ++ rest) := by
  unfold Coalesced at *
  rw [List.isChain_cons] at hrest
  have htaken : ∀ taken : Chunk, taken.free = false → ∀ after,
      Coalesced after → Coalesced (before ++ taken :: after) := by
    intro taken hfalse after hafter
    unfold Coalesced
    rw [List.isChain_append]
    refine ⟨hbefore, List.isChain_cons.mpr ⟨?_, hafter⟩, ?_⟩
    · intro other _ h
      exact Bool.false_ne_true (hfalse.symm.trans h.1)
    · intro last _ other hother h
      obtain rfl : taken = other := Option.some.inj hother
      exact Bool.false_ne_true (hfalse.symm.trans h.2.1)
  rw [List.append_assoc]
  unfold place
  split
  · rename_i hroom
    apply htaken _ rfl
    refine List.isChain_cons.mpr ⟨?_, hrest.2⟩
    intro other hother h
    apply hrest.1 other hother
    refine ⟨hfree, h.2.1, ?_⟩
    rw [← h.2.2]
    unfold Chunk.finish
    unfold sizeofBlock at *
    simp only
    omega
  · exact htaken _ rfl _ hrest.2

theorem coalesced_absorb (address gained : Nat) (hbehind : Coalesced behind) :
    Coalesced (⟨address, (absorb address gained behind).1, true⟩ ::
      (absorb address gained behind).2) := by
  induction behind generalizing gained with
  | nil => exact List.isChain_singleton _
  | cons first rest ih =>
      unfold Coalesced at hbehind
      rw [List.isChain_cons] at hbehind
      unfold absorb
      split
      · exact ih _ hbehind.2
      · rename_i hstop
        refine List.isChain_cons.mpr ⟨?_, List.isChain_cons.mpr hbehind⟩
        intro other hother h
        obtain rfl : first = other := Option.some.inj hother
        exact hstop ⟨h.2.1, h.2.2.symm⟩

theorem coalesced_mergeInto (hbefore : Coalesced before)
    (hrest : Coalesced (chunk :: rest)) (hfree : chunk.free = true) :
    Coalesced (mergeInto before chunk ++ rest) := by
  unfold Coalesced at *
  unfold mergeInto
  cases hlast : before.getLast? with
  | none => exact hrest
  | some previous =>
      simp only
      obtain ⟨front, rfl⟩ := List.getLast?_eq_some_iff.mp hlast
      split
      · rename_i hmerge
        rw [List.dropLast_concat, List.append_assoc, List.isChain_append]
        rw [List.isChain_append] at hbefore
        rw [List.isChain_cons] at hrest
        refine ⟨hbefore.1, List.isChain_cons.mpr ⟨?_, hrest.2⟩, ?_⟩
        · intro other hother h
          apply hrest.1 other hother
          refine ⟨hfree, h.2.1, ?_⟩
          have hadjacent := hmerge.2
          have hfinish := h.2.2
          unfold Chunk.finish Chunk.extent at *
          simp only at hfinish
          omega
        · intro last hmem other hother h
          obtain rfl := Option.some.inj hother
          exact hbefore.2.2 last hmem previous rfl ⟨h.1, hmerge.1, h.2.2⟩
      · rename_i hapart
        rw [List.append_assoc, List.isChain_append]
        refine ⟨hbefore, hrest, ?_⟩
        intro last hmem other hother h
        rw [List.getLast?_concat] at hmem
        obtain rfl := Option.some.inj hmem
        obtain rfl := Option.some.inj hother
        exact hapart ⟨h.1, h.2.2⟩

theorem coalesced_release (h : Coalesced (before ++ chunk :: behind)) :
    Coalesced (release before chunk behind) := by
  unfold Coalesced at h
  rw [List.isChain_append, List.isChain_cons] at h
  exact coalesced_mergeInto h.1 (coalesced_absorb _ _ h.2.1.2) rfl

end

end Planetoid.Memory
