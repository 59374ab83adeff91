import Planetoid.Memory.Paging

namespace Planetoid.Memory

open Planetoid Program Mmu TableTree

/-! The functions of `mmu.cpp` as functions on states. -/

def level2Effect (image : KernelImage platform) (state : MemoryState)
    (i : Fin 512) : Option Nat × MemoryState :=
  match tableAt image state (.second i) with
  | some table => (some table, state)
  | none => match state.nextFrame with
    | none => (none, state)
    | some frame => (some (platform.frameAddress frame),
        state.addTable platform image.level1Table i frame)

def level3Effect (platform : Platform) (state : MemoryState) (table : Nat)
    (j : Fin 512) : Option Nat × MemoryState :=
  if state.entries table j ≠ 0 then
    (child (state.entries table j), state)
  else match state.nextFrame with
    | none => (none, state)
    | some frame => (some (platform.frameAddress frame),
        state.addTable platform table j frame)

/-- The level 3 table for a virtual address, created where it is missing. -/
def tablesEffect (image : KernelImage platform) (state : MemoryState)
    (virtualAddress : Nat) : Option Nat × MemoryState :=
  match level2Effect image state (level1Of virtualAddress) with
  | (none, grown) => (none, grown)
  | (some table, grown) =>
    level3Effect platform grown table (level2Of virtualAddress)

def mapEffect (image : KernelImage platform) (state : MemoryState)
    (virtualAddress descriptor : Nat) : Bool × MemoryState :=
  match tablesEffect image state virtualAddress with
  | (none, grown) => (false, grown)
  | (some table, grown) =>
    if grown.entries table (level3Of virtualAddress) ≠ 0 then
      (false, grown)
    else
      (true, (grown.withEntry table (level3Of virtualAddress)
        descriptor).flush virtualAddress)

namespace Mmu

variable {platform : Platform} {image : KernelImage platform}
  {state : MemoryState}

theorem run_allocatePageTable (paging : Paging image state) :
    (allocatePageTable platform).run state =
      .ok (match state.nextFrame with
        | none => (none, state)
        | some frame => (some (platform.frameAddress frame),
            (state.claim frame).clearTable
              (platform.frameAddress frame))) := by
  have hframe := PhysicalMemory.run_allocateFrame platform state
  unfold allocatePageTable
  unfold PhysicalMemory.allocateEffect at hframe
  cases h : state.nextFrame with
  | none =>
      rw [h] at hframe
      rw [run_bind_ok hframe]
      rfl
  | some frame =>
      have hpositive := paging.positive frame (MemoryState.nextFrame_lt h)
        (MemoryState.nextFrame_free h)
      rw [h] at hframe
      rw [run_bind_ok hframe, if_neg hpositive,
        run_bind_ok (run_clearTable _ _)]
      rfl

theorem run_getOrCreateLevel2Table (paging : Paging image state)
    (virtualAddress : Nat) :
    (getOrCreateLevel2Table image virtualAddress).run state =
      .ok (level2Effect image state (level1Of virtualAddress)) := by
  have hentry : state.tables image.level1Table
      (getLevel1Index virtualAddress) =
        state.entries image.level1Table (level1Of virtualAddress) := rfl
  have htable : tableAt image state (.second (level1Of virtualAddress)) =
      child (state.entries image.level1Table (level1Of virtualAddress)) := rfl
  unfold getOrCreateLevel2Table level2Effect
  rw [run_bind_ok (run_entry ..), hentry]
  by_cases hzero : state.entries image.level1Table
      (level1Of virtualAddress) = 0
  · rw [if_neg (not_not.mpr hzero), htable, hzero, child_zero]
    have hnew := run_allocatePageTable paging
    cases h : state.nextFrame with
    | none =>
        rw [h] at hnew
        rw [run_bind_ok hnew]
        rfl
    | some frame =>
        rw [h] at hnew
        rw [run_bind_ok hnew]
        rfl
  · obtain ⟨table, hsome⟩ := paging.level1 _ hzero
    rw [if_pos hzero, hsome]
    rw [htable, child] at hsome
    split at hsome
    · rw [Option.some.inj hsome]
      rfl
    · cases hsome

theorem run_getOrCreateLevel3Table (paging : Paging image state)
    (table virtualAddress : Nat) :
    (getOrCreateLevel3Table platform table virtualAddress).run state =
      .ok (level3Effect platform state table (level2Of virtualAddress)) := by
  have hentry : state.tables table (getLevel2Index virtualAddress) =
      state.entries table (level2Of virtualAddress) := rfl
  unfold getOrCreateLevel3Table level3Effect
  rw [run_bind_ok (run_entry ..), hentry]
  by_cases hzero : state.entries table (level2Of virtualAddress) = 0
  · rw [if_neg (not_not.mpr hzero), if_neg (not_not.mpr hzero)]
    have hnew := run_allocatePageTable paging
    cases h : state.nextFrame with
    | none =>
        rw [h] at hnew
        rw [run_bind_ok hnew]
        rfl
    | some frame =>
        rw [h] at hnew
        rw [run_bind_ok hnew]
        rfl
  · rw [if_pos hzero, if_pos hzero, child]
    by_cases htype : state.entries table (level2Of virtualAddress) &&& 0b11 =
        tableDescriptor
    · rw [if_neg (not_not.mpr htype), if_pos htype]
      rfl
    · rw [if_pos htype, if_neg htype]
      rfl

end Mmu

section

variable {platform : Platform} {image : KernelImage platform}
  {state : MemoryState}

theorem level2Effect_cases (paging : Paging image state) (i : Fin 512) :
    (level2Effect image state i = (none, state) ∧ state.nextFrame = none ∧
      tableAt image state (.second i) = none) ∨
    ∃ table grown, level2Effect image state i = (some table, grown) ∧
      tableAt image grown (.second i) = some table ∧
      (grown = state ∨
        ∃ frame, Grows image state grown (.second i) frame) := by
  unfold level2Effect
  cases htable : tableAt image state (.second i) with
  | some table => exact .inr ⟨table, state, rfl, htable, .inl rfl⟩
  | none =>
      cases hframe : state.nextFrame with
      | none => exact .inl ⟨rfl, rfl, rfl⟩
      | some frame =>
          have grows := paging.grows_level2 htable hframe
          refine .inr ⟨_, _, rfl, ?_, .inr ⟨frame, grows⟩⟩
          rw [grows.tableAt, if_pos rfl]

theorem level3Effect_cases (paging : Paging image state) {i j : Fin 512}
    {table : Nat} (hsecond : tableAt image state (.second i) = some table) :
    (level3Effect platform state table j = (none, state) ∧
      (state.entries table j = 0 → state.nextFrame = none) ∧
      tableAt image state (.third i j) = none) ∨
    ∃ below grown, level3Effect platform state table j =
        (some below, grown) ∧
      tableAt image grown (.third i j) = some below ∧
      (grown = state ∨
        ∃ frame, Grows image state grown (.third i j) frame) := by
  have hthird := @tableAt_third _ _ _ i j _ hsecond
  unfold level3Effect
  by_cases hzero : state.entries table j = 0
  · rw [if_neg (not_not.mpr hzero)]
    have hnone : child (state.entries table j) = none := by
      rw [hzero, child_zero]
    cases hframe : state.nextFrame with
    | none => exact .inl ⟨rfl, fun _ => rfl, hthird.trans hnone⟩
    | some frame =>
        have grows := paging.grows_level3 hsecond hnone hframe
        refine .inr ⟨_, _, rfl, ?_, .inr ⟨frame, grows⟩⟩
        rw [grows.tableAt, if_pos rfl]
  · rw [if_pos hzero, hthird]
    cases hchild : child (state.entries table j) with
    | none => exact .inl ⟨rfl, fun h => absurd h hzero, rfl⟩
    | some below =>
        exact .inr ⟨below, state, rfl, hthird.trans hchild, .inl rfl⟩

inductive Extends (image : KernelImage platform) :
    MemoryState → MemoryState → Prop
  | refl (state : MemoryState) : Extends image state state
  | step {first second third : MemoryState} {place : Node (Fin 512)}
      {frame : Nat} (extended : Extends image first second)
      (grows : Grows image second third place frame) :
      Extends image first third

theorem Extends.of_grows {before after : MemoryState}
    {place : Node (Fin 512)}
    (h : after = before ∨ ∃ frame, Grows image before after place frame) :
    Extends image before after := by
  rcases h with rfl | ⟨frame, grows⟩
  · exact .refl after
  · exact .step (.refl before) grows

theorem Extends.trans {first second third : MemoryState}
    (left : Extends image first second) (right : Extends image second third) :
    Extends image first third := by
  induction right with
  | refl => exact left
  | step _ grows ih => exact .step ih grows

theorem Extends.paging {before after : MemoryState}
    (extended : Extends image before after) (paging : Paging image before) :
    Paging image after := by
  induction extended with
  | refl => exact paging
  | step _ grows ih => exact grows.paging ih

theorem Extends.leafAt_eq {before after : MemoryState}
    (extended : Extends image before after) :
    leafAt image after = leafAt image before := by
  induction extended with
  | refl => rfl
  | step _ grows ih => exact grows.leafAt.trans ih

theorem Extends.virtualBitmap_eq {before after : MemoryState}
    (extended : Extends image before after) :
    after.virtualBitmap = before.virtualBitmap := by
  induction extended with
  | refl => rfl
  | step _ grows ih => exact grows.virtualBitmap.trans ih

theorem Extends.frameCount_eq {before after : MemoryState}
    (extended : Extends image before after) :
    after.frameCount = before.frameCount := by
  induction extended with
  | refl => rfl
  | step _ grows ih => exact grows.frameCount.trans ih

theorem tablesEffect_extends (paging : Paging image state)
    (virtualAddress : Nat) :
    ∃ result grown, tablesEffect image state virtualAddress =
        (result, grown) ∧ Extends image state grown ∧
      ∀ table, result = some table → tableAt image grown
        (.third (level1Of virtualAddress) (level2Of virtualAddress)) =
          some table := by
  unfold tablesEffect
  rcases level2Effect_cases paging (level1Of virtualAddress) with
    ⟨heq, _, _⟩ | ⟨table, middle, heq, hsecond, hmiddle⟩
  · rw [heq]
    exact ⟨none, state, rfl, .refl state, nofun⟩
  · rw [heq]
    have first := Extends.of_grows hmiddle
    rcases @level3Effect_cases _ _ _ (first.paging paging)
      (level1Of virtualAddress) (level2Of virtualAddress) table hsecond with
      ⟨hlast, _, _⟩ | ⟨below, grown, hlast, hthird, hgrown⟩
    · exact ⟨none, middle, hlast, first, nofun⟩
    · refine ⟨some below, grown, hlast, first.trans (.of_grows hgrown), ?_⟩
      intro other h
      rw [← Option.some.inj h]
      exact hthird

/-- What `map_page` does: it adds tables, and it sets at most one leaf, which
was 0. -/
theorem mapEffect_cases (paging : Paging image state)
    (virtualAddress descriptor : Nat) :
    ∃ grown, Extends image state grown ∧
      (mapEffect image state virtualAddress descriptor = (false, grown) ∨
        ∃ table, tableAt image grown
            (.third (level1Of virtualAddress) (level2Of virtualAddress)) =
              some table ∧
          grown.entries table (level3Of virtualAddress) = 0 ∧
          mapEffect image state virtualAddress descriptor =
            (true, (grown.withEntry table (level3Of virtualAddress)
              descriptor).flush virtualAddress)) := by
  obtain ⟨result, grown, heq, extended, htable⟩ :=
    tablesEffect_extends paging virtualAddress
  refine ⟨grown, extended, ?_⟩
  unfold mapEffect
  rw [heq]
  cases result with
  | none => exact .inl rfl
  | some table =>
      by_cases hzero : grown.entries table (level3Of virtualAddress) = 0
      · refine .inr ⟨table, htable table rfl, hzero, ?_⟩
        simp only [hzero, ne_eq, not_true, if_false]
      · left
        simp only [ne_eq, hzero, not_false_eq_true, if_true]

end

namespace Mmu

variable {platform : Platform} {image : KernelImage platform}
  {state : MemoryState}

theorem run_mapPage (paging : Paging image state)
    {virtualAddress physicalAddress : Nat}
    (hvirtual : virtualAddress % pageSize = 0)
    (hphysical : physicalAddress % pageSize = 0) (memoryType : EMemoryType)
    (permissions : Nat) :
    (mapPage image virtualAddress physicalAddress memoryType permissions).run
      state = .ok (mapEffect image state virtualAddress
        (makePageDescriptor memoryType physicalAddress permissions)) := by
  have haligned : ¬ (virtualAddress &&& 0xFFF ≠ 0 ∨
      physicalAddress &&& 0xFFF ≠ 0) := by
    rw [land_page_mask, land_page_mask, hvirtual, hphysical]
    simp
  have hlevel2 := run_getOrCreateLevel2Table paging virtualAddress
  unfold mapPage mapEffect tablesEffect
  rw [if_neg haligned]
  rcases level2Effect_cases paging (level1Of virtualAddress) with
    ⟨heq, _, _⟩ | ⟨table, middle, heq, hsecond, hmiddle⟩
  · rw [heq] at hlevel2 ⊢
    exact run_bind_ok hlevel2 _
  · have middlePaging := (Extends.of_grows hmiddle).paging paging
    have hlevel3 := run_getOrCreateLevel3Table middlePaging table
      virtualAddress
    rw [heq] at hlevel2 ⊢
    rw [run_bind_ok hlevel2]
    simp only
    cases hlast : level3Effect platform middle table
        (level2Of virtualAddress) with
    | mk result grown =>
        rw [hlast] at hlevel3
        cases result with
        | none => exact run_bind_ok hlevel3 _
        | some below =>
            have hentry : grown.tables below (getLevel3Index virtualAddress) =
                grown.entries below (level3Of virtualAddress) := rfl
            rw [run_bind_ok hlevel3]
            simp only
            rw [run_bind_ok (run_entry ..), hentry]
            split <;> rfl

theorem run_findLevel3Table (virtualAddress : Nat) :
    (findLevel3Table image virtualAddress).run state =
      .ok (tableAt image state (.third (level1Of virtualAddress)
        (level2Of virtualAddress)), state) := by
  have hbind : tableAt image state (.third (level1Of virtualAddress)
      (level2Of virtualAddress)) =
        (child (state.entries image.level1Table
          (level1Of virtualAddress))).bind fun table =>
            child (state.entries table (level2Of virtualAddress)) := rfl
  have hfirst : state.tables image.level1Table
      (getLevel1Index virtualAddress) =
        state.entries image.level1Table (level1Of virtualAddress) := rfl
  unfold findLevel3Table
  rw [run_bind_ok (run_entry ..), hfirst, hbind]
  generalize state.entries image.level1Table (level1Of virtualAddress) = first
  by_cases hzero : first = 0
  · subst first
    rfl
  rw [if_neg hzero]
  by_cases htype : first &&& 0b11 = tableDescriptor
  · have hsecond : state.tables (first &&& addressMask)
        (getLevel2Index virtualAddress) =
          state.entries (first &&& addressMask) (level2Of virtualAddress) :=
      rfl
    rw [if_neg (not_not.mpr htype), child, if_pos htype, Option.bind_some]
    refine (run_bind_ok (run_entry ..) _).trans ?_
    rw [hsecond]
    generalize state.entries (first &&& addressMask)
      (level2Of virtualAddress) = second
    by_cases hzero : second = 0
    · subst second
      rfl
    rw [if_neg hzero]
    by_cases htype : second &&& 0b11 = tableDescriptor
    · rw [if_neg (not_not.mpr htype), child, if_pos htype]
      rfl
    · rw [if_pos htype, child, if_neg htype]
      rfl
  · rw [if_pos htype, child, if_neg htype]
    rfl

theorem run_unmapPage {virtualAddress : Nat}
    (hvirtual : virtualAddress % pageSize = 0) :
    (unmapPage image virtualAddress).run state =
      .ok (match tableAt image state (.third (level1Of virtualAddress)
          (level2Of virtualAddress)) with
        | none => (false, state)
        | some table =>
          if state.entries table (level3Of virtualAddress) = 0 then
            (false, state)
          else (true, (state.withEntry table (level3Of virtualAddress)
            0).flush virtualAddress)) := by
  have haligned : ¬ virtualAddress &&& 0xFFF ≠ 0 := by
    rw [land_page_mask, hvirtual]
    simp
  unfold unmapPage
  rw [if_neg haligned, run_bind_ok (run_findLevel3Table virtualAddress)]
  cases tableAt image state (.third (level1Of virtualAddress)
      (level2Of virtualAddress)) with
  | none => rfl
  | some table =>
      have hentry : state.tables table (getLevel3Index virtualAddress) =
          state.entries table (level3Of virtualAddress) := rfl
      simp only
      rw [run_bind_ok (run_entry ..), hentry]
      split <;> rfl

theorem run_getPhysicalAddress (virtualAddress : Nat) :
    (getPhysicalAddress image virtualAddress).run state =
      .ok (if leafAt image state (level1Of virtualAddress)
          (level2Of virtualAddress) (level3Of virtualAddress) &&& 0b11 =
            pageDescriptor then
        (leafAt image state (level1Of virtualAddress)
          (level2Of virtualAddress) (level3Of virtualAddress) &&&
            addressMask) + (virtualAddress &&& 0xFFF)
      else 0, state) := by
  unfold getPhysicalAddress
  rw [run_bind_ok (run_findLevel3Table virtualAddress)]
  cases htable : tableAt image state (.third (level1Of virtualAddress)
      (level2Of virtualAddress)) with
  | none =>
      rw [leafAt_of_none htable]
      rfl
  | some table =>
      have hentry : state.tables table (getLevel3Index virtualAddress) =
          state.entries table (level3Of virtualAddress) := rfl
      rw [leafAt_of_table htable]
      simp only
      rw [run_bind_ok (run_entry ..), hentry]
      generalize state.entries table (level3Of virtualAddress) = last
      by_cases hzero : last = 0
      · subst last
        rfl
      rw [if_neg hzero]
      by_cases htype : last &&& 0b11 = pageDescriptor
      · rw [if_neg (not_not.mpr htype), if_pos htype]
        rfl
      · rw [if_pos htype, if_neg htype]
        rfl

end Mmu

end Planetoid.Memory
