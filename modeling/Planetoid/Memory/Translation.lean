import Planetoid.Memory.PoolInvariant

namespace Planetoid.Memory

open Planetoid Program Mmu TableTree MemoryBlockAttributes

/-! The translations of `map_page` and `unmap_page` as a finite map. -/

def attributes : List Nat :=
  [attrNormalMemory, attrDeviceMemory, attrAccess, attrShareable, attrEl1Rw,
    attrEl1Ro, attrPxn, attrUxn]

inductive PermissionMask : Nat → Prop
  | none : PermissionMask 0
  | add {permissions flag : Nat} (mask : PermissionMask permissions)
      (hmem : flag ∈ attributes) : PermissionMask (permissions ||| flag)

inductive MmuOperation where
  | mapPage (virtualAddress physicalAddress : Nat) (memoryType : EMemoryType)
      (permissions : Nat)
  | unmapPage (virtualAddress : Nat)

section

variable {platform : Platform} (image : KernelImage platform)

def MmuOperation.program : MmuOperation → Vm Bool
  | .mapPage virtualAddress physicalAddress memoryType permissions =>
    Mmu.mapPage image virtualAddress physicalAddress memoryType permissions
  | .unmapPage virtualAddress => Mmu.unmapPage image virtualAddress

def mmuRuns (start : MemoryState) : System MemoryState MmuOperation where
  initial := fun state => state = start
  step := fun before operation after => ∃ result,
    (operation.program image).run before = .ok (result, after)

/-- What `get_physical_address` returns. -/
def translate (state : MemoryState) (virtualAddress : Nat) : Nat :=
  match (getPhysicalAddress image virtualAddress).run state with
  | .ok (address, _) => address
  | .error _ => 0

def InPage (page address : Nat) : Prop :=
  page ≤ address ∧ address < page + pageSize

def SameOutside (before after : MemoryState) (page : Nat) : Prop :=
  ∀ address, address < 2 ^ 39 → ¬ InPage page address →
    translate image after address = translate image before address

def VirtualPage (address : Nat) : Prop :=
  address % pageSize = 0 ∧ address < 2 ^ 39

/-- The calls in a state change the translations of one page. -/
structure ActsAsMap (state : MemoryState) : Prop where
  returns : ∀ address,
    (getPhysicalAddress image address).run state =
      .ok (translate image state address, state)
  mapPage : ∀ {virtualAddress physicalAddress permissions : Nat}
    (memoryType : EMemoryType), VirtualPage virtualAddress →
    Addressable physicalAddress → 0 < physicalAddress →
    PermissionMask permissions →
    ∃ result after, (Mmu.mapPage image virtualAddress physicalAddress
        memoryType permissions).run state = .ok (result, after) ∧
      (result = true → translate image state virtualAddress = 0 ∧
        (∀ offset, offset < 4096 →
          translate image after (virtualAddress + offset) =
            physicalAddress + offset) ∧
        SameOutside image state after virtualAddress) ∧
      (result = false → ∀ address,
        translate image after address = translate image state address)
  unmapPage : ∀ {virtualAddress : Nat}, VirtualPage virtualAddress →
    ∃ result after, (Mmu.unmapPage image virtualAddress).run state =
        .ok (result, after) ∧
      (result = true →
        (∀ offset, offset < 4096 →
          translate image after (virtualAddress + offset) = 0) ∧
        SameOutside image state after virtualAddress) ∧
      (result = false → ∀ address,
        translate image after address = translate image state address)

end

theorem PermissionMask.flags {permissions : Nat}
    (mask : PermissionMask permissions) :
    permissions &&& 0b11 = 0 ∧ permissions &&& addressMask = 0 := by
  induction mask with
  | none => exact ⟨rfl, rfl⟩
  | add _ hmem ih =>
      rename_i flag _
      have hflags : ∀ other ∈ attributes,
          other &&& 0b11 = 0 ∧ other &&& addressMask = 0 := by decide
      obtain ⟨htype, haddress⟩ := hflags flag hmem
      rw [Nat.and_or_distrib_right, Nat.and_or_distrib_right, ih.1, ih.2,
        htype, haddress]
      exact ⟨rfl, rfl⟩

section

variable {platform : Platform} {image : KernelImage platform}
  {state after : MemoryState}

def pageTarget (entry offset : Nat) : Nat :=
  if entry &&& 0b11 = pageDescriptor then (entry &&& addressMask) + offset
  else 0

@[simp] theorem pageTarget_zero (offset : Nat) : pageTarget 0 offset = 0 := rfl

theorem translate_eq (state : MemoryState) (address : Nat) :
    translate image state address =
      pageTarget (leafAt image state (level1Of address) (level2Of address)
        (level3Of address)) (address % pageSize) := by
  unfold translate pageTarget
  rw [run_getPhysicalAddress, land_page_mask]

theorem returns_translate (state : MemoryState) (address : Nat) :
    (getPhysicalAddress image address).run state =
      .ok (translate image state address, state) := by
  unfold translate
  rw [run_getPhysicalAddress]

structure SetsLeaf (image : KernelImage platform)
    (before after : MemoryState) (virtualAddress value : Nat) : Prop where
  path : leafAt image after (level1Of virtualAddress)
    (level2Of virtualAddress) (level3Of virtualAddress) = value
  others : ∀ i j k, ¬ (i = level1Of virtualAddress ∧
      j = level2Of virtualAddress ∧ k = level3Of virtualAddress) →
    leafAt image after i j k = leafAt image before i j k

theorem setsLeaf_of_withEntry (paging : Paging image state)
    {virtualAddress table : Nat}
    (htable : tableAt image state (.third (level1Of virtualAddress)
      (level2Of virtualAddress)) = some table) (value : Nat)
    (hentries : after.entries = TableTree.setEntry state.entries table
      (level3Of virtualAddress) value) :
    SetsLeaf image state after virtualAddress value := by
  have hleaf : ∀ i j k, leafAt image after i j k =
      if i = level1Of virtualAddress ∧ j = level2Of virtualAddress ∧
        k = level3Of virtualAddress then value
      else leafAt image state i j k := by
    intro i j k
    unfold leafAt
    rw [hentries, paging.tree.leaf_setLeaf htable]
  constructor
  · rw [hleaf, if_pos ⟨rfl, rfl, rfl⟩]
  · intro i j k hne
    rw [hleaf, if_neg hne]

theorem mapPage_setsLeaf (paging : Paging image state)
    (virtualAddress physicalAddress : Nat) (memoryType : EMemoryType)
    (permissions : Nat) :
    ∃ result after, (Mmu.mapPage image virtualAddress physicalAddress
        memoryType permissions).run state = .ok (result, after) ∧
      Paging image after ∧
      (result = false → leafAt image after = leafAt image state) ∧
      (result = true →
        leafAt image state (level1Of virtualAddress)
          (level2Of virtualAddress) (level3Of virtualAddress) = 0 ∧
        SetsLeaf image state after virtualAddress
          (makePageDescriptor memoryType physicalAddress permissions)) := by
  by_cases hodd : virtualAddress &&& 0xFFF ≠ 0 ∨ physicalAddress &&& 0xFFF ≠ 0
  · refine ⟨false, state, ?_, paging, fun _ => rfl, nofun⟩
    unfold Mmu.mapPage
    rw [if_pos hodd]
    rfl
  · rw [land_page_mask, land_page_mask] at hodd
    have hrun := @run_mapPage _ _ _ paging virtualAddress physicalAddress
      (by omega) (by omega) memoryType permissions
    obtain ⟨grown, extended, hcases⟩ := mapEffect_cases paging virtualAddress
      (makePageDescriptor memoryType physicalAddress permissions)
    have hgrown := extended.paging paging
    rcases hcases with heq | ⟨table, htable, hzero, heq⟩
    · rw [heq] at hrun
      exact ⟨false, grown, hrun, hgrown, fun _ => extended.leafAt_eq, nofun⟩
    · rw [heq] at hrun
      have hentries := MemoryState.entries_withEntry grown table
        (level3Of virtualAddress)
        (makePageDescriptor memoryType physicalAddress permissions)
      have sets := setsLeaf_of_withEntry hgrown htable _ hentries
      have hpaging := (sameTables_of_setEntry hgrown htable hentries
        (fun _ => rfl) rfl).paging hgrown
      refine ⟨true, _, hrun, ?_, nofun, ?_⟩
      · exact ⟨hpaging.tree, hpaging.tables, hpaging.level1, hpaging.level2,
          hpaging.positive, hpaging.bounded⟩
      · intro _
        rw [← extended.leafAt_eq, leafAt_of_table htable]
        refine ⟨hzero, sets.path, ?_⟩
        intro i j k hne
        rw [← extended.leafAt_eq]
        exact sets.others i j k hne

/-- `unmap_page` of any address. -/
theorem unmapPage_setsLeaf (paging : Paging image state)
    (virtualAddress : Nat) :
    ∃ result after, (Mmu.unmapPage image virtualAddress).run state =
        .ok (result, after) ∧
      Paging image after ∧
      (result = false → leafAt image after = leafAt image state) ∧
      (result = true → SetsLeaf image state after virtualAddress 0) := by
  by_cases hodd : virtualAddress &&& 0xFFF ≠ 0
  · refine ⟨false, state, ?_, paging, fun _ => rfl, nofun⟩
    unfold Mmu.unmapPage
    rw [if_pos hodd]
    rfl
  · rw [land_page_mask] at hodd
    have hrun := @run_unmapPage _ image state virtualAddress (by omega)
    cases htable : tableAt image state (.third (level1Of virtualAddress)
        (level2Of virtualAddress)) with
    | none =>
        rw [htable] at hrun
        exact ⟨false, state, hrun, paging, fun _ => rfl, nofun⟩
    | some table =>
        rw [htable] at hrun
        simp only at hrun
        by_cases hzero : state.entries table (level3Of virtualAddress) = 0
        · rw [if_pos hzero] at hrun
          exact ⟨false, state, hrun, paging, fun _ => rfl, nofun⟩
        · rw [if_neg hzero] at hrun
          have hentries := MemoryState.entries_withEntry state table
            (level3Of virtualAddress) 0
          have sets := setsLeaf_of_withEntry paging htable _ hentries
          have hpaging := (sameTables_of_setEntry paging htable hentries
            (fun _ => rfl) rfl).paging paging
          refine ⟨true, _, hrun, ?_, nofun, ?_⟩
          · exact ⟨hpaging.tree, hpaging.tables, hpaging.level1,
              hpaging.level2, hpaging.positive, hpaging.bounded⟩
          · exact fun _ => ⟨sets.path, sets.others⟩

theorem MmuOperation.paging {operation : MmuOperation} {result : Bool}
    (paging : Paging image state)
    (h : (operation.program image).run state = .ok (result, after)) :
    Paging image after := by
  cases operation with
  | mapPage virtualAddress physicalAddress memoryType permissions =>
      obtain ⟨_, _, hrun, hpaging, _⟩ := mapPage_setsLeaf paging
        virtualAddress physicalAddress memoryType permissions
      cases hrun.symm.trans h
      exact hpaging
  | unmapPage virtualAddress =>
      obtain ⟨_, _, hrun, hpaging, _⟩ :=
        unmapPage_setsLeaf paging virtualAddress
      cases hrun.symm.trans h
      exact hpaging

theorem translate_congr {before after : MemoryState}
    (h : leafAt image after = leafAt image before) (address : Nat) :
    translate image after address = translate image before address := by
  rw [translate_eq, translate_eq, h]

theorem VirtualPage.offset {page : Nat} (h : VirtualPage page) {offset : Nat}
    (hoffset : offset < 4096) :
    (page + offset) / pageSize = page / pageSize ∧
      (page + offset) % pageSize = offset := by
  obtain ⟨haligned, _⟩ := h
  unfold pageSize at *
  omega

theorem SetsLeaf.translate {before : MemoryState} {page value : Nat}
    (sets : SetsLeaf image before after page value) (hpage : VirtualPage page)
    {offset : Nat} (hoffset : offset < 4096) :
    translate image after (page + offset) = pageTarget value offset := by
  obtain ⟨hsame, hmod⟩ := hpage.offset hoffset
  obtain ⟨hfirst, hsecond, hthird⟩ := path_eq_of_page hsame
  rw [translate_eq, hfirst, hsecond, hthird, sets.path, hmod]

theorem SetsLeaf.sameOutside {before : MemoryState} {page value : Nat}
    (sets : SetsLeaf image before after page value)
    (hpage : VirtualPage page) : SameOutside image before after page := by
  intro address haddress hout
  rw [translate_eq, translate_eq, sets.others]
  intro hpath
  have heq := page_eq_of_path haddress hpage.2 hpath
  apply hout
  unfold InPage
  have haligned := hpage.1
  unfold pageSize at *
  omega

theorem Paging.actsAsMap (paging : Paging image state) :
    ActsAsMap image state := by
  refine ⟨returns_translate state, ?_, ?_⟩
  · intro virtualAddress physicalAddress permissions memoryType hvirtual
      hphysical _ hmask
    obtain ⟨result, after, hrun, _, hfalse, htrue⟩ := mapPage_setsLeaf paging
      virtualAddress physicalAddress memoryType permissions
    refine ⟨result, after, hrun, ?_, fun h => translate_congr (hfalse h)⟩
    intro h
    obtain ⟨hzero, sets⟩ := htrue h
    refine ⟨?_, ?_, sets.sameOutside hvirtual⟩
    · rw [translate_eq, hzero, pageTarget_zero]
    · intro offset hoffset
      rw [sets.translate hvirtual hoffset, pageTarget,
        if_pos (makePageDescriptor_type hmask.flags.1 memoryType _),
        makePageDescriptor_address hmask.flags.2 hphysical]
  · intro virtualAddress hvirtual
    obtain ⟨result, after, hrun, _, hfalse, htrue⟩ :=
      unmapPage_setsLeaf paging virtualAddress
    refine ⟨result, after, hrun, ?_, fun h => translate_congr (hfalse h)⟩
    intro h
    have sets := htrue h
    refine ⟨?_, sets.sameOutside hvirtual⟩
    intro offset hoffset
    rw [sets.translate hvirtual hoffset, pageTarget_zero]

theorem paging_of_reachable {memory start : MemoryState}
    (hstart : (initMemory image).run memory = .ok ((), start))
    (reachable : (mmuRuns image start).Reachable System.unguarded state) :
    Paging image state := by
  obtain ⟨initial, hrun, sound, _⟩ := run_initMemory image memory
  cases hrun.symm.trans hstart
  apply reachable.holds
  · rintro first rfl
    exact sound.paging
  · rintro before operation after paging _ ⟨result, hstep⟩
    exact MmuOperation.paging paging hstep

end

/-- `map_page`, `unmap_page` and `get_physical_address` are a finite map from
pages to frames. -/
theorem actsAsMap_of_reachable {platform : Platform}
    {image : KernelImage platform} {memory start state : MemoryState}
    (hstart : (initMemory image).run memory = .ok ((), start))
    (reachable : (mmuRuns image start).Reachable System.unguarded state) :
    ActsAsMap image state :=
  (paging_of_reachable hstart reachable).actsAsMap

theorem mmuRuns_onePage {platform : Platform} (image : KernelImage platform)
    (boot : MemoryState) : ∃ start mapped unmapped,
      (initMemory image).run boot = .ok ((), start) ∧
      (mapPage image (pageAddress 0) 0x40300000 .normal
        (attrEl1Rw ||| attrPxn)).run start = .ok (true, mapped) ∧
      (unmapPage image (pageAddress 0)).run mapped = .ok (true, unmapped) ∧
      (mmuRuns image start).Reachable System.unguarded mapped ∧
      (mmuRuns image start).Reachable System.unguarded unmapped := by
  obtain ⟨start, hstart, sound, hcount, hreserved, _, _, hfree⟩ :=
    run_initMemory image boot
  have hmany := freeCount_start hcount hreserved
  have hzero : 0 < VirtualMemory.virtualPageCount := by decide
  obtain ⟨mapped, hmap⟩ := mapPage_succeeds sound.paging hzero
    (VirtualMemory.leaf_of_free sound hzero (hfree 0 hzero)) (by omega)
    (by decide : 0x40300000 % pageSize = 0) .normal (attrEl1Rw ||| attrPxn)
  have hleaf : poolLeaf image mapped 0 ≠ 0 := by
    obtain ⟨_, _, hrun, _, _, sets⟩ := mapPage_setsLeaf sound.paging
      (pageAddress 0) 0x40300000 .normal (attrEl1Rw ||| attrPxn)
    cases hrun.symm.trans hmap
    unfold poolLeaf
    rw [(sets rfl).2.path]
    decide
  obtain ⟨unmapped, hunmap⟩ := unmapPage_succeeds hleaf
  have reached : (mmuRuns image start).Reachable System.unguarded mapped :=
    @System.Reachable.step _ _ _ _ _ _ (.mapPage (pageAddress 0) 0x40300000
      .normal (attrEl1Rw ||| attrPxn)) (.initial rfl) trivial ⟨true, hmap⟩
  exact ⟨start, mapped, unmapped, hstart, hmap, hunmap, reached,
    @System.Reachable.step _ _ _ _ _ _ (.unmapPage (pageAddress 0)) reached
      trivial ⟨true, hunmap⟩⟩

theorem actsAsMap_smallImage :
    ∃ start mapped unmapped,
      (initMemory smallImage).run bootMemory = .ok ((), start) ∧
      (mapPage smallImage (pageAddress 0) 0x40300000 .normal
        (attrEl1Rw ||| attrPxn)).run start = .ok (true, mapped) ∧
      (unmapPage smallImage (pageAddress 0)).run mapped =
        .ok (true, unmapped) ∧
      (mmuRuns smallImage start).Reachable System.unguarded unmapped ∧
      ActsAsMap smallImage unmapped := by
  obtain ⟨start, mapped, unmapped, hstart, hmap, hunmap, _, reached⟩ :=
    mmuRuns_onePage smallImage bootMemory
  exact ⟨start, mapped, unmapped, hstart, hmap, hunmap, reached,
    actsAsMap_of_reachable hstart reached⟩

end Planetoid.Memory
