import Planetoid.Arch.TableWalk
import Planetoid.Memory.Translation

namespace Planetoid.Memory

open Planetoid Program Mmu TableTree MemoryBlockAttributes Arch

/-! What the hardware translates with the page tables of a state. -/

section

variable {platform : Platform} (image : KernelImage platform)

def hardwareWalk (state : MemoryState) (virtualAddress : Nat) :
    Option Translation :=
  tableWalk state.tables image.level1Table virtualAddress

/-- `get_physical_address` agrees with the walks that end at a page and with
those that fault. It returns 0 where a walk ends at a block, which is one of
2 MiB. -/
structure WalksAgree (state : MemoryState) : Prop where
  page : ∀ virtualAddress translation, virtualAddress < 2 ^ 39 →
    hardwareWalk image state virtualAddress = some translation →
    translation.level = 3 →
    translate image state virtualAddress = translation.address
  block : ∀ virtualAddress translation, virtualAddress < 2 ^ 39 →
    hardwareWalk image state virtualAddress = some translation →
    translation.level ≠ 3 →
    translation.level = 2 ∧ translate image state virtualAddress = 0
  fault : ∀ virtualAddress, virtualAddress < 2 ^ 39 →
    hardwareWalk image state virtualAddress = none →
    translate image state virtualAddress = 0

end

theorem land_type (entry : Nat) : entry &&& 0b11 = entry % 4 :=
  Nat.and_two_pow_sub_one_eq_mod entry 2

theorem land_addressMask_eq (entry : Nat) :
    entry &&& addressMask = outputAddress entry 12 := by
  have hmask : addressMask = (2 ^ 36 - 1) <<< 12 := by decide
  have hsplit : entry &&& addressMask =
      ((entry >>> 12) &&& (2 ^ 36 - 1)) <<< 12 := by
    apply Nat.eq_of_testBit_eq
    intro i
    rw [hmask]
    simp only [Nat.testBit_and, Nat.testBit_shiftLeft, Nat.testBit_shiftRight]
    by_cases hlow : 12 ≤ i
    · simp [hlow]
    · simp [hlow]
  rw [hsplit, Nat.and_two_pow_sub_one_eq_mod, Nat.shiftLeft_eq,
    Nat.shiftRight_eq_div_pow]
  unfold outputAddress
  omega

section

variable {platform : Platform} {image : KernelImage platform}
  {state : MemoryState} {virtualAddress : Nat}

def blockAt (image : KernelImage platform) (state : MemoryState)
    (i j : Fin 512) : Nat :=
  match tableAt image state (.second i) with
  | some table => state.entries table j
  | none => 0

theorem child_eq (entry : Nat) :
    child entry =
      if entry % 4 = 3 then some (outputAddress entry 12) else none := by
  unfold child tableDescriptor
  rw [land_type, land_addressMask_eq]

theorem tables_path (state : MemoryState) (table virtualAddress : Nat) :
    state.tables table (virtualAddress / 2 ^ 30 % 512) =
        state.entries table (level1Of virtualAddress) ∧
      state.tables table (virtualAddress / 2 ^ 21 % 512) =
        state.entries table (level2Of virtualAddress) ∧
      state.tables table (virtualAddress / 2 ^ 12 % 512) =
        state.entries table (level3Of virtualAddress) := by
  rw [← getLevel1Index_eq, ← getLevel2Index_eq, ← getLevel3Index_eq]
  exact ⟨rfl, rfl, rfl⟩

theorem hardwareWalk_eq (paging : Paging image state)
    (hlt : virtualAddress < 2 ^ 39) :
    hardwareWalk image state virtualAddress =
      if blockAt image state (level1Of virtualAddress)
          (level2Of virtualAddress) % 4 = 1 then
        some ⟨outputAddress (blockAt image state (level1Of virtualAddress)
            (level2Of virtualAddress)) 21 + virtualAddress % 2 ^ 21,
          blockAt image state (level1Of virtualAddress)
            (level2Of virtualAddress), 2⟩
      else if leafAt image state (level1Of virtualAddress)
          (level2Of virtualAddress) (level3Of virtualAddress) % 4 = 3 then
        some ⟨outputAddress (leafAt image state (level1Of virtualAddress)
            (level2Of virtualAddress) (level3Of virtualAddress)) 12 +
              virtualAddress % 2 ^ 12,
          leafAt image state (level1Of virtualAddress)
            (level2Of virtualAddress) (level3Of virtualAddress), 3⟩
      else none := by
  have hfirst := (tables_path state image.level1Table virtualAddress).1
  have htable : tableAt image state (.second (level1Of virtualAddress)) =
      child (state.entries image.level1Table (level1Of virtualAddress)) := rfl
  unfold hardwareWalk tableWalk walkLevel1
  rw [if_pos hlt]
  simp only
  rw [hfirst]
  by_cases hzero : state.entries image.level1Table
      (level1Of virtualAddress) = 0
  · -- no level 2 table
    rw [hzero, child_zero] at htable
    have hthird : tableAt image state (.third (level1Of virtualAddress)
        (level2Of virtualAddress)) = none := by
      have hbind : tableAt image state (.third (level1Of virtualAddress)
          (level2Of virtualAddress)) =
            (tableAt image state (.second (level1Of virtualAddress))).bind
              fun table => child (state.entries table
                (level2Of virtualAddress)) := rfl
      rw [hbind, htable]
      rfl
    rw [hzero, leafAt_of_none hthird]
    unfold blockAt
    rw [htable]
    rfl
  · obtain ⟨table, hsome⟩ := paging.level1 _ hzero
    have hchild := htable.symm.trans hsome
    rw [child_eq] at hchild
    split at hchild
    · rename_i htype
      have haddress := Option.some.inj hchild
      have hsecond := (tables_path state table virtualAddress).2.1
      have hbelow := @tableAt_third _ image state (level1Of virtualAddress)
        (level2Of virtualAddress) _ hsome
      rw [if_pos htype, haddress]
      unfold walkLevel2 blockAt
      rw [hsome]
      simp only
      rw [hsecond]
      generalize state.entries table (level2Of virtualAddress) = entry at *
      rw [child_eq] at hbelow
      by_cases hblock : entry % 4 = 1
      · rw [if_neg (by omega), if_pos hblock, if_pos hblock]
      · rw [if_neg hblock]
        by_cases hpointer : entry % 4 = 3
        · rw [if_pos hpointer] at hbelow
          have hthird := (tables_path state (outputAddress entry 12)
            virtualAddress).2.2
          rw [if_pos hpointer, leafAt_of_table hbelow]
          unfold walkLevel3
          simp only
          rw [hthird, if_neg hblock]
        · rw [if_neg hpointer] at hbelow
          rw [if_neg hpointer, if_neg hblock, leafAt_of_none hbelow]
          rfl
    · cases hchild

theorem leafAt_of_block {i j : Fin 512}
    (h : blockAt image state i j % 4 = 1) (k : Fin 512) :
    leafAt image state i j k = 0 := by
  apply leafAt_of_none
  unfold blockAt at h
  cases hsecond : tableAt image state (.second i) with
  | none =>
      have hbind : tableAt image state (.third i j) =
          (tableAt image state (.second i)).bind fun table =>
            child (state.entries table j) := rfl
      rw [hbind, hsecond]
      rfl
  | some table =>
      rw [hsecond] at h
      simp only at h
      rw [tableAt_third hsecond, child_eq, if_neg (by omega)]

theorem Paging.walksAgree (paging : Paging image state) :
    WalksAgree image state := by
  have htranslate : ∀ virtualAddress, translate image state virtualAddress =
      if leafAt image state (level1Of virtualAddress)
          (level2Of virtualAddress) (level3Of virtualAddress) % 4 = 3 then
        outputAddress (leafAt image state (level1Of virtualAddress)
          (level2Of virtualAddress) (level3Of virtualAddress)) 12 +
            virtualAddress % 2 ^ 12
      else 0 := by
    intro virtualAddress
    rw [translate_eq]
    unfold pageTarget pageDescriptor
    rw [land_type, land_addressMask_eq]
    rfl
  constructor
  · intro virtualAddress translation hlt hwalk hlevel
    rw [hardwareWalk_eq paging hlt] at hwalk
    rw [htranslate]
    split at hwalk
    · obtain rfl := Option.some.inj hwalk
      cases hlevel
    split at hwalk
    · rename_i hpage
      obtain rfl := Option.some.inj hwalk
      rw [if_pos hpage]
    · cases hwalk
  · intro virtualAddress translation hlt hwalk hlevel
    rw [hardwareWalk_eq paging hlt] at hwalk
    rw [htranslate]
    split at hwalk
    · rename_i hblock
      obtain rfl := Option.some.inj hwalk
      rw [leafAt_of_block hblock]
      exact ⟨rfl, rfl⟩
    split at hwalk
    · obtain rfl := Option.some.inj hwalk
      exact absurd rfl hlevel
    · cases hwalk
  · intro virtualAddress hlt hwalk
    rw [hardwareWalk_eq paging hlt] at hwalk
    rw [htranslate]
    split at hwalk
    · cases hwalk
    split at hwalk
    · cases hwalk
    · rename_i hpage
      rw [if_neg hpage]

end

/-- The software walk agrees with the hardware's except at blocks. -/
theorem walksAgree_of_reachable {platform : Platform}
    {image : KernelImage platform} {memory start state : MemoryState}
    (hstart : (initMemory image).run memory = .ok ((), start))
    (reachable : (mmuRuns image start).Reachable System.unguarded state) :
    WalksAgree image state :=
  (paging_of_reachable hstart reachable).walksAgree

/-- With a page of the pool mapped. -/
theorem walksAgree_smallImage :
    ∃ start mapped, (initMemory smallImage).run bootMemory = .ok ((), start) ∧
      (mapPage smallImage (pageAddress 0) 0x40300000 .normal
        (attrEl1Rw ||| attrPxn)).run start = .ok (true, mapped) ∧
      (mmuRuns smallImage start).Reachable System.unguarded mapped ∧
      WalksAgree smallImage mapped := by
  obtain ⟨start, mapped, _, hstart, hmap, _, reached, _⟩ :=
    mmuRuns_onePage smallImage bootMemory
  exact ⟨start, mapped, hstart, hmap, reached,
    walksAgree_of_reachable hstart reached⟩

/-- The hardware translates `0x40200000` to itself by a block, and
`get_physical_address` returns 0. -/
theorem walk_differs_at_block :
    ∃ start, (initMemory smallImage).run bootMemory = .ok ((), start) ∧
      (mmuRuns smallImage start).Reachable System.unguarded start ∧
      hardwareWalk smallImage start 0x40200000 =
        some ⟨0x40200000, makeNormalBlockDescriptor 0x40200000 attrEl1Rw, 2⟩ ∧
      translate smallImage start 0x40200000 = 0 := by
  obtain ⟨start, hstart, sound, _, _, hstatic, _⟩ :=
    run_initMemory smallImage bootMemory
  have htable := (tableAt_initial hstatic (.second 1)
    smallImage.level2HighTable).mpr ⟨.level2High, rfl, rfl⟩
  have hentry : start.entries smallImage.level2HighTable 1 =
      makeNormalBlockDescriptor 0x40200000 attrEl1Rw := by
    have hvalue := congrFun (congrFun hstatic .level2High) 1
    rw [Contents.initial_level2High _ _ (by decide)] at hvalue
    exact hvalue
  have hblock : blockAt smallImage start (level1Of 0x40200000)
      (level2Of 0x40200000) =
        makeNormalBlockDescriptor 0x40200000 attrEl1Rw := by
    have hfirst : level1Of 0x40200000 = 1 := by decide
    have hsecond : level2Of 0x40200000 = 1 := by decide
    unfold blockAt
    rw [hfirst, hsecond, htable]
    exact hentry
  have hwalk : hardwareWalk smallImage start 0x40200000 =
      some ⟨0x40200000, makeNormalBlockDescriptor 0x40200000 attrEl1Rw, 2⟩ := by
    rw [hardwareWalk_eq sound.paging (by decide), hblock,
      if_pos (by decide)]
    decide
  exact ⟨start, hstart, .initial rfl, hwalk,
    (sound.paging.walksAgree.block _ _ (by decide) hwalk (by decide)).2⟩

end Planetoid.Memory
