import Planetoid.Memory.Pool

namespace Planetoid.Memory

open Planetoid Program Mmu TableTree VirtualMemory

/-! Filling and emptying one pool page. -/

namespace MemoryState

def usePage (state : MemoryState) (page : Nat) : MemoryState :=
  { state with virtualBitmap := state.virtualBitmap.set page }

def leavePage (state : MemoryState) (page : Nat) : MemoryState :=
  { state with virtualBitmap := state.virtualBitmap.clear page }

end MemoryState

section

variable {platform : Platform} (image : KernelImage platform)

/-- A frame is allocated, mapped at a pool page, or freed again when the tables
for the page are missing. -/
def fillEffect (state : MemoryState) (page : Nat) : Bool × MemoryState :=
  match state.nextFrame with
  | none => (false, state)
  | some frame =>
    match mapEffect image (state.claim frame) (pageAddress page)
        (poolDescriptor platform frame) with
    | (true, mapped) => (true, mapped.usePage page)
    | (false, grown) => (false, grown.release frame)

/-- A pool page is unmapped, its frame and its bit are freed. -/
def emptyEffect (state : MemoryState) (page : Nat) : MemoryState :=
  match tableAt image state (.third (level1Of (pageAddress page))
      (level2Of (pageAddress page))) with
  | none => state
  | some table =>
    (((state.withEntry table (level3Of (pageAddress page)) 0).flush
      (pageAddress page)).release (PhysicalMemory.getFrameNumber platform
        (poolLeaf image state page &&& addressMask))).leavePage page

end

section

variable {platform : Platform} {image : KernelImage platform}
  {state : MemoryState}

theorem sets_of_withEntry (paging : Paging image state) {page table : Nat}
    (hpage : page < virtualPageCount)
    (htable : tableAt image state (.third (level1Of (pageAddress page))
      (level2Of (pageAddress page))) = some table) (value : Nat)
    {after : MemoryState}
    (hentries : after.entries = TableTree.setEntry state.entries table
      (level3Of (pageAddress page)) value)
    (hbit : ∀ other, after.virtualBitmap.test other =
      if other = page then decide (value ≠ 0)
      else state.virtualBitmap.test other)
    (hused : ∀ frame, after.used frame = state.used frame)
    (hcount : after.frameCount = state.frameCount) :
    Sets image state after page value := by
  have same := sameTables_of_setEntry paging htable hentries hused hcount
  refine ⟨same.tableAt, same.level1, same.level2, ?_, hbit, hused, hcount⟩
  · intro other hother
    unfold poolLeaf leafAt
    rw [hentries, paging.tree.leaf_setLeaf htable]
    by_cases heq : other = page
    · subst other
      rw [if_pos ⟨rfl, rfl, rfl⟩, if_pos rfl]
    · rw [if_neg heq, if_neg fun h => heq (page_eq_of_indices hpage hother h)]

theorem poolLeaf_of_table {page table : Nat}
    (htable : tableAt image state (.third (level1Of (pageAddress page))
      (level2Of (pageAddress page))) = some table) :
    poolLeaf image state page =
      state.entries table (level3Of (pageAddress page)) :=
  leafAt_of_table htable _

theorem table_of_poolLeaf {page : Nat} (h : poolLeaf image state page ≠ 0) :
    ∃ table, tableAt image state (.third (level1Of (pageAddress page))
      (level2Of (pageAddress page))) = some table := by
  cases htable : tableAt image state (.third (level1Of (pageAddress page))
      (level2Of (pageAddress page))) with
  | none => exact absurd (leafAt_of_none htable _) h
  | some table => exact ⟨table, rfl⟩

theorem decide_or_test {bitmap : Bitmap} {page other : Nat} :
    (bitmap.set page).test other =
      if other = page then true else bitmap.test other := by
  rw [Bitmap.test_set]
  by_cases heq : other = page <;> simp [heq]

theorem decide_and_test {bitmap : Bitmap} {page other : Nat} :
    (bitmap.clear page).test other =
      if other = page then false else bitmap.test other := by
  rw [Bitmap.test_clear]
  by_cases heq : other = page <;> simp [heq]

structure Filled (image : KernelImage platform) (before : MemoryState)
    (page : Nat) (result : Bool) (after : MemoryState) : Prop where
  sound : Sound image after none
  bit : ∀ other, after.virtualBitmap.test other =
    if other = page then result else before.virtualBitmap.test other
  leaf : ∀ other, other < virtualPageCount → other ≠ page →
    poolLeaf image after other = poolLeaf image before other
  frameCount : after.frameCount = before.frameCount

theorem Extends.poolLeaf_eq {before after : MemoryState}
    (extended : Extends image before after) (page : Nat) :
    poolLeaf image after page = poolLeaf image before page := by
  unfold poolLeaf
  rw [extended.leafAt_eq]

theorem fillEffect_filled (sound : Sound image state none) {page : Nat}
    (hpage : page < virtualPageCount)
    (hfree : state.virtualBitmap.test page = false) :
    Filled image state page (fillEffect image state page).1
      (fillEffect image state page).2 := by
  have hkept : ∀ other, state.virtualBitmap.test other =
      if other = page then false else state.virtualBitmap.test other := by
    intro other
    by_cases heq : other = page
    · rw [if_pos heq, heq, hfree]
    · rw [if_neg heq]
  unfold fillEffect
  cases hframe : state.nextFrame with
  | none => exact ⟨sound, hkept, fun _ _ _ => rfl, rfl⟩
  | some frame =>
      have claimed := sound.claim hframe
      obtain ⟨grown, extended, hmap⟩ := mapEffect_cases claimed.paging
        (pageAddress page) (poolDescriptor platform frame)
      have grownSound := claimed.extends extended
      have hbitmap : grown.virtualBitmap = state.virtualBitmap :=
        extended.virtualBitmap_eq
      simp only
      rcases hmap with heq | ⟨table, htable, hentry, heq⟩
      · rw [heq]
        refine ⟨grownSound.release, ?_, fun other _ _ =>
          extended.poolLeaf_eq other, extended.frameCount_eq⟩
        intro other
        change grown.virtualBitmap.test other = _
        rw [hbitmap]
        exact hkept other
      · rw [heq]
        have hbit : ∀ other, ((grown.virtualBitmap).set page).test other =
            if other = page then
              decide (poolDescriptor platform frame ≠ 0)
            else grown.virtualBitmap.test other := by
          intro other
          rw [decide_or_test]
          simp [poolDescriptor_ne_zero]
        have sets := @sets_of_withEntry _ image grown grownSound.paging page
          table hpage htable (poolDescriptor platform frame)
          (((grown.withEntry table (level3Of (pageAddress page))
            (poolDescriptor platform frame)).flush
              (pageAddress page)).usePage page)
          (MemoryState.entries_withEntry ..) hbit (fun _ => rfl) rfl
        have hleaf : ∀ other, other < virtualPageCount → other ≠ page →
            poolLeaf image (((grown.withEntry table
              (level3Of (pageAddress page))
              (poolDescriptor platform frame)).flush
                (pageAddress page)).usePage page) other =
              poolLeaf image state other := by
          intro other hother hne
          rw [sets.leaf other hother, if_neg hne]
          exact extended.poolLeaf_eq other
        refine ⟨grownSound.map hpage ?_ sets, ?_, hleaf,
          extended.frameCount_eq⟩
        · rw [poolLeaf_of_table htable, hentry]
        · intro other
          change (grown.virtualBitmap.set page).test other = _
          rw [decide_or_test, hbitmap]

theorem emptyEffect_filled (sound : Sound image state none) {page : Nat}
    (hpage : page < virtualPageCount)
    (hused : state.virtualBitmap.test page = true) :
    Filled image state page false (emptyEffect image state page) := by
  have hleaf := (sound.bits page hpage).mp hused
  obtain ⟨frame, hmapped, loose⟩ := sound.entries page hpage hleaf
  obtain ⟨table, htable⟩ := table_of_poolLeaf hleaf
  have hframe : PhysicalMemory.getFrameNumber platform
      (poolLeaf image state page &&& addressMask) = frame := by
    rw [show poolLeaf image state page = poolDescriptor platform frame from
      hmapped, poolDescriptor_address sound.paging loose.bounded,
      platform.getFrameNumber_frameAddress]
  unfold emptyEffect
  rw [htable]
  simp only
  rw [hframe]
  have hbit : ∀ other, (state.virtualBitmap.clear page).test other =
      if other = page then decide ((0 : Nat) ≠ 0)
      else state.virtualBitmap.test other := by
    intro other
    rw [decide_and_test]
    simp
  have sets := @sets_of_withEntry _ image state sound.paging page table hpage
    htable 0 (((state.withEntry table (level3Of (pageAddress page))
      0).flush (pageAddress page)).leavePage page)
    (MemoryState.entries_withEntry ..) hbit (fun _ => rfl) rfl
  have emptied := sound.unmap hpage hmapped loose sets
  have hkept : ∀ other, other < virtualPageCount → other ≠ page →
      poolLeaf image (((state.withEntry table
        (level3Of (pageAddress page)) 0).flush
          (pageAddress page)).leavePage page) other =
        poolLeaf image state other := by
    intro other hother hne
    rw [sets.leaf other hother, if_neg hne]
  refine ⟨emptied.release, ?_, hkept, rfl⟩
  intro other
  change (state.virtualBitmap.clear page).test other = _
  rw [decide_and_test]

end

end Planetoid.Memory
