import Planetoid.Memory.InitialFrames
import Planetoid.Memory.InitialTables
import Planetoid.Memory.PoolOperations

namespace Planetoid.Memory

open Planetoid Program Mmu TableTree MemoryBlockAttributes VirtualMemory

/-! The pool after `MMU::init`, `PhysicalMemory::init` and
`VirtualMemory::init`. -/

theorem child_makeNormalBlockDescriptor (address : Nat) :
    child (makeNormalBlockDescriptor address attrEl1Rw) = none := by
  have htype : makeNormalBlockDescriptor address attrEl1Rw &&& 0b11 =
      blockDescriptor := by
    unfold makeNormalBlockDescriptor
    simp only [Nat.or_assoc]
    rw [lor_land_type]
    decide
  rw [child, htype, if_neg (by decide)]

theorem child_makeDeviceBlockDescriptor (address : Nat) :
    child (makeDeviceBlockDescriptor address
      (attrEl1Rw ||| attrPxn ||| attrUxn)) = none := by
  have htype : makeDeviceBlockDescriptor address
      (attrEl1Rw ||| attrPxn ||| attrUxn) &&& 0b11 = blockDescriptor := by
    unfold makeDeviceBlockDescriptor
    simp only [Nat.or_assoc]
    rw [lor_land_type]
    decide
  rw [child, htype, if_neg (by decide)]

/-- The entry of the level 1 table for `level2_ram_table` or
`level2_peripheral_table`. -/
def highIndex : Platform → Fin 512
  | .virt => 1
  | .pi5 => 65

def placeOf (platform : Platform) : StaticTable → Node (Fin 512)
  | .level1 => .root
  | .level2Low => .second 0
  | .level2High => .second (highIndex platform)
  | .level3Kernel => match platform with
    | .virt => .third 1 0
    | .pi5 => .third 0 1

theorem placeOf_ne_pool {platform : Platform} (table : StaticTable) :
    placeOf platform table ≠ .second poolIndex := by
  cases platform <;> cases table <;> decide

namespace Contents

variable {platform : Platform} (image : KernelImage platform)
  (contents : Contents)

theorem mapKernel_of_ne {table : StaticTable} (h : table ≠ .level3Kernel) :
    contents.mapKernel image table = contents table := by
  unfold mapKernel mapSection
  simp only [fill_of_ne _ h]

theorem initial_level1 (i : Fin 512) :
    Contents.initial image contents .level1 i =
      if i = highIndex platform then makeTableDescriptor image.level2HighTable
      else if i = 0 then makeTableDescriptor image.level2LowTable
      else 0 := by
  have hzero : i = 0 ↔ (i : Nat) = 0 := Fin.ext_iff
  have hhigh : i = highIndex platform ↔
      (i : Nat) = (highIndex platform).val := Fin.ext_iff
  unfold initial
  rw [mapKernel_of_ne _ _ (by decide)]
  simp only [hzero, hhigh]
  cases platform with
  | virt =>
      simp only [initPlatform, initVirt, set_same, set_of_ne, fill_of_ne,
        cleared, i.isLt, ne_eq, reduceCtorEq, not_false_eq_true, if_true]
      rfl
  | pi5 =>
      simp only [initPlatform, initPi5, set_same, set_of_ne, fill_of_ne,
        cleared, i.isLt, ne_eq, reduceCtorEq, not_false_eq_true, if_true]
      rfl

def lowEntry (index : Nat) : Nat :=
  match platform with
  | .virt =>
    if index = 72 then
      makeDeviceBlockDescriptor 0x09000000 (attrEl1Rw ||| attrPxn ||| attrUxn)
    else if index = 64 then
      makeDeviceBlockDescriptor 0x08000000 (attrEl1Rw ||| attrPxn ||| attrUxn)
    else 0
  | .pi5 =>
    if index = 1 then makeTableDescriptor image.level3KernelTable
    else makeNormalBlockDescriptor (index * 0x200000) attrEl1Rw

def highEntry (index : Nat) : Nat :=
  match platform with
  | .virt =>
    if index = 0 then makeTableDescriptor image.level3KernelTable
    else makeNormalBlockDescriptor (0x40000000 + index * 0x200000) attrEl1Rw
  | .pi5 =>
    if index = 511 then
      makeDeviceBlockDescriptor 0x107FE00000
        (attrEl1Rw ||| attrPxn ||| attrUxn)
    else if index = 490 then
      makeDeviceBlockDescriptor 0x107D400000
        (attrEl1Rw ||| attrPxn ||| attrUxn)
    else if index = 488 then
      makeDeviceBlockDescriptor 0x107D000000
        (attrEl1Rw ||| attrPxn ||| attrUxn)
    else 0

theorem initial_level2Low {j : Nat} (hj : j < 512) :
    Contents.initial image contents .level2Low j = lowEntry image j := by
  unfold initial lowEntry
  rw [mapKernel_of_ne _ _ (by decide)]
  cases platform with
  | virt =>
      simp only [initPlatform, initVirt, set_same, set_of_ne, fill_of_ne,
        cleared, hj, ne_eq, reduceCtorEq, not_false_eq_true, if_true]
  | pi5 =>
      simp only [initPlatform, initPi5, set_same, set_of_ne, fill_same,
        Nat.zero_le, Nat.zero_add, hj, ne_eq, reduceCtorEq,
        not_false_eq_true, and_self, if_true]

theorem initial_level2High {j : Nat} (hj : j < 512) :
    Contents.initial image contents .level2High j = highEntry image j := by
  unfold initial highEntry
  rw [mapKernel_of_ne _ _ (by decide)]
  cases platform with
  | virt =>
      simp only [initPlatform, initVirt, set_same, set_of_ne, fill_same,
        cleared, hj, ne_eq, reduceCtorEq, not_false_eq_true, if_true]
      by_cases hfirst : j = 0
      · have hout : ¬ (1 ≤ j ∧ True) := by omega
        rw [if_neg hout, if_pos hfirst, if_pos hfirst]
      · have hin : 1 ≤ j ∧ True := ⟨Nat.pos_of_ne_zero hfirst, trivial⟩
        rw [if_pos hin, if_neg hfirst]
  | pi5 =>
      simp only [initPlatform, initPi5, set_same, set_of_ne, fill_of_ne,
        cleared, hj, ne_eq, reduceCtorEq, not_false_eq_true, if_true]

/-- The low table points only to the kernel's table on the Pi. -/
theorem child_initial_level2Low (haddressable :
      Addressable image.level3KernelTable) (j : Fin 512) :
    child (Contents.initial image contents .level2Low j) =
      if platform = .pi5 ∧ j = 1 then some image.level3KernelTable
      else none := by
  have hone : j = 1 ↔ (j : Nat) = 1 := Fin.ext_iff
  rw [initial_level2Low _ _ j.isLt]
  simp only [hone]
  cases platform with
  | virt =>
      simp only [lowEntry, reduceCtorEq, false_and, if_false]
      split
      · exact child_makeDeviceBlockDescriptor _
      split
      · exact child_makeDeviceBlockDescriptor _
      · rfl
  | pi5 =>
      simp only [lowEntry, true_and]
      split
      · exact child_makeTableDescriptor haddressable
      · exact child_makeNormalBlockDescriptor _

theorem child_initial_level2High (haddressable :
      Addressable image.level3KernelTable) (j : Fin 512) :
    child (Contents.initial image contents .level2High j) =
      if platform = .virt ∧ j = 0 then some image.level3KernelTable
      else none := by
  have hzero : j = 0 ↔ (j : Nat) = 0 := Fin.ext_iff
  rw [initial_level2High _ _ j.isLt]
  simp only [hzero]
  cases platform with
  | virt =>
      simp only [highEntry, true_and]
      split
      · exact child_makeTableDescriptor haddressable
      · exact child_makeNormalBlockDescriptor _
  | pi5 =>
      simp only [highEntry, reduceCtorEq, false_and, if_false]
      split
      · exact child_makeDeviceBlockDescriptor _
      split
      · exact child_makeDeviceBlockDescriptor _
      split
      · exact child_makeDeviceBlockDescriptor _
      · rfl

end Contents

namespace KernelImage

variable {platform : Platform} (image : KernelImage platform)

theorem tableAddress_bounds (table : StaticTable) :
    image.tableAddress table % pageSize = 0 ∧
      image.kernelStart ≤ image.tableAddress table ∧
      image.tableAddress table + pageSize ≤ image.kernelEnd := by
  have haligned := image.tables_aligned _ (image.tableAddress_mem table)
  have hbss := image.tables_bss _ (image.tableAddress_mem table)
  have hordered := image.ordered
  have hconsecutive := image.consecutive
  simp only [List.mem_cons, List.not_mem_nil, or_false, forall_eq_or_imp,
    forall_eq] at hordered
  unfold kernelStart kernelEnd
  omega

theorem kernel_bounds :
    platform.physicalMemoryBase ≤ image.kernelStart ∧
      image.kernelStart ≤ image.kernelEnd ∧
      image.kernelEnd ≤ platform.physicalMemoryBase + 0x400000 ∧
      image.kernelStart % pageSize = 0 := by
  have haligned := image.aligned image.text (by simp)
  have hordered := image.ordered
  have hconsecutive := image.consecutive
  have hwindow := image.inWindow
  simp only [List.mem_cons, List.not_mem_nil, or_false, forall_eq_or_imp,
    forall_eq] at hordered
  unfold kernelStart kernelEnd
  cases platform with
  | virt =>
      unfold Platform.physicalMemoryBase Platform.kernelBase at *
      simp only at *
      omega
  | pi5 =>
      unfold Platform.physicalMemoryBase Platform.kernelBase at *
      simp only at *
      omega

theorem tableAddress_addressable (table : StaticTable) :
    Addressable (image.tableAddress table) := by
  obtain ⟨haligned, _, hstop⟩ := image.tableAddress_bounds table
  obtain ⟨_, _, hend, _⟩ := image.kernel_bounds
  refine ⟨haligned, ?_⟩
  cases platform with
  | virt =>
      unfold Platform.physicalMemoryBase at hend
      simp only at hend
      omega
  | pi5 =>
      unfold Platform.physicalMemoryBase at hend
      simp only at hend
      omega

theorem tableAddress_frame (table : StaticTable) :
    ∃ frame, platform.frameAddress frame = image.tableAddress table ∧
      frame < 0x400 := by
  obtain ⟨haligned, hstart, hstop⟩ := image.tableAddress_bounds table
  obtain ⟨hbase, _, hend, _⟩ := image.kernel_bounds
  have hplatform : platform.physicalMemoryBase % pageSize = 0 := by
    cases platform <;> rfl
  refine ⟨(image.tableAddress table - platform.physicalMemoryBase) / pageSize,
    ?_, ?_⟩
  · unfold Platform.frameAddress
    unfold pageSize at *
    omega
  · unfold pageSize at *
    omega

end KernelImage

section

variable {platform : Platform} {image : KernelImage platform}
  {state : MemoryState} {contents : Contents}

theorem tableAt_initial
    (h : state.static image = Contents.initial image contents)
    (node : Node (Fin 512)) (address : Nat) :
    tableAt image state node = some address ↔
      ∃ table, placeOf platform table = node ∧
        image.tableAddress table = address := by
  have hentries : ∀ table index, state.entries (image.tableAddress table)
      index = Contents.initial image contents table index :=
    fun table index => congrFun (congrFun h table) index
  have hlevel3 : Addressable image.level3KernelTable :=
    image.tableAddress_addressable .level3Kernel
  have hdistinct : highIndex platform ≠ 0 := by
    cases platform <;> decide
  have hsecond : ∀ i, tableAt image state (.second i) =
      if i = highIndex platform then some image.level2HighTable
      else if i = 0 then some image.level2LowTable else none := by
    intro i
    change child (state.entries (image.tableAddress .level1) i) = _
    rw [hentries, Contents.initial_level1]
    split
    · exact child_makeTableDescriptor
        (image.tableAddress_addressable .level2High)
    split
    · exact child_makeTableDescriptor
        (image.tableAddress_addressable .level2Low)
    · rfl
  have hthird : ∀ i j, tableAt image state (.third i j) =
      if i = highIndex platform then
        if platform = .virt ∧ j = 0 then some image.level3KernelTable
        else none
      else if i = 0 then
        if platform = .pi5 ∧ j = 1 then some image.level3KernelTable
        else none
      else none := by
    intro i j
    change (tableAt image state (.second i)).bind
      (fun table => child (state.entries table j)) = _
    rw [hsecond]
    split
    · change child (state.entries (image.tableAddress .level2High) j) = _
      rw [hentries, Contents.child_initial_level2High _ _ hlevel3]
    split
    · change child (state.entries (image.tableAddress .level2Low) j) = _
      rw [hentries, Contents.child_initial_level2Low _ _ hlevel3]
    · rfl
  constructor
  · intro htable
    cases node with
    | root => exact ⟨.level1, rfl, Option.some.inj htable⟩
    | second i =>
        rw [hsecond] at htable
        split at htable
        · rename_i heq
          exact ⟨.level2High, by rw [heq]; rfl, Option.some.inj htable⟩
        split at htable
        · rename_i heq
          exact ⟨.level2Low, by rw [heq]; rfl, Option.some.inj htable⟩
        · cases htable
    | third i j =>
        rw [hthird] at htable
        refine ⟨.level3Kernel, ?_⟩
        split at htable
        · split at htable
          · rename_i hi hj
            obtain ⟨rfl, rfl⟩ := hj
            exact ⟨by rw [hi]; rfl, Option.some.inj htable⟩
          · cases htable
        split at htable
        · split at htable
          · rename_i hi hj
            obtain ⟨rfl, rfl⟩ := hj
            exact ⟨by rw [hi]; rfl, Option.some.inj htable⟩
          · cases htable
        · cases htable
  · rintro ⟨table, rfl, rfl⟩
    cases table with
    | level1 => rfl
    | level2Low =>
        change tableAt image state (.second 0) = _
        rw [hsecond, if_neg hdistinct.symm, if_pos rfl]
        rfl
    | level2High =>
        change tableAt image state (.second (highIndex platform)) = _
        rw [hsecond, if_pos rfl]
        rfl
    | level3Kernel =>
        cases platform with
        | virt =>
            have hhigh : (1 : Fin 512) = highIndex .virt := rfl
            change tableAt image state (.third 1 0) = _
            rw [hthird, if_pos hhigh, if_pos ⟨rfl, rfl⟩]
            rfl
        | pi5 =>
            change tableAt image state (.third 0 1) = _
            rw [hthird, if_neg hdistinct.symm, if_pos rfl,
              if_pos ⟨rfl, rfl⟩]
            rfl

def frameTotal : Platform → Nat
  | .virt => 0x100000
  | .pi5 => 0x40000

theorem usableCount_memoryMap (platform : Platform) :
    PhysicalMemory.usableCount platform.memoryMap = frameTotal platform := by
  cases platform <;> rfl

/-- With the shipped map `PhysicalMemory::init` reserves the kernel, and on the
Pi what lies below it. -/
theorem initiallyUsed_iff {frame : Nat} (h : frame < frameTotal platform) :
    PhysicalMemory.InitiallyUsed platform platform.memoryMap
      image.kernelStart image.kernelEnd frame ↔ Reserved image frame := by
  obtain ⟨_, _, _, haligned⟩ := image.kernel_bounds
  have hframe := platform.frameAddress_mod frame
  have hregion : ¬ ∀ region ∈ platform.memoryMap,
      ¬ PhysicalMemory.InRegion platform region frame := by
    intro hnone
    cases platform with
    | virt =>
        apply hnone _ (List.mem_singleton_self _)
        exact ⟨rfl, Nat.zero_le _, by
          unfold frameTotal at h
          exact Nat.lt_of_lt_of_le h (Nat.le_add_left _ _)⟩
    | pi5 =>
        apply hnone _ (List.mem_singleton_self _)
        exact ⟨rfl, Nat.zero_le _, by
          unfold frameTotal at h
          exact Nat.lt_of_lt_of_le h (Nat.le_add_left _ _)⟩
  have hstart : image.kernelStart < platform.frameAddress frame + pageSize ↔
      image.kernelStart ≤ platform.frameAddress frame := by
    unfold pageSize at *
    omega
  unfold PhysicalMemory.InitiallyUsed Reserved
  rw [hstart]
  constructor
  · rintro (hnone | hbelow | hkernel)
    · exact absurd hnone hregion
    · exact .inr hbelow
    · exact .inl hkernel
  · rintro (hkernel | hbelow)
    · exact .inr (.inr hkernel)
    · exact .inr (.inl hbelow)

theorem sound_initial
    (hstatic : state.static image = Contents.initial image contents)
    (hused : ∀ frame, frame < frameTotal platform →
      (state.used frame = true ↔ Reserved image frame))
    (hcount : state.frameCount = frameTotal platform)
    (hfree : ∀ page, page < virtualPageCount →
      state.virtualBitmap.test page = false) :
    Sound image state none := by
  have htable := tableAt_initial hstatic
  have hreserved : ∀ table frame, platform.frameAddress frame =
      image.tableAddress table → Reserved image frame := by
    intro table frame heq
    obtain ⟨_, hstart, hstop⟩ := image.tableAddress_bounds table
    unfold pageSize at hstop
    exact .inl ⟨by omega, by omega⟩
  have hleaf : ∀ page, page < virtualPageCount →
      poolLeaf image state page = 0 := by
    intro page hpage
    apply leafAt_of_none
    have hlevel1 := level1Of_pageAddress hpage
    cases hnode : tableAt image state (.third (level1Of (pageAddress page))
        (level2Of (pageAddress page))) with
    | none => rfl
    | some address =>
        obtain ⟨table, hplace, _⟩ := (htable _ _).mp hnode
        cases table with
        | level1 => cases hplace
        | level2Low => cases hplace
        | level2High => cases hplace
        | level3Kernel =>
            cases platform with
            | virt =>
                injection hplace with hfirst
                rw [← hfirst] at hlevel1
                exact absurd hlevel1 (by decide)
            | pi5 =>
                injection hplace with hfirst
                rw [← hfirst] at hlevel1
                exact absurd hlevel1 (by decide)
  have hunmapped : ∀ page frame, page < virtualPageCount →
      ¬ Mapped image state page frame := by
    intro page frame hpage hmapped
    exact poolDescriptor_ne_zero frame (hmapped.symm.trans (hleaf page hpage))
  have hplaces : ∀ node address, tableAt image state node = some address →
      ∃ table frame, image.tableAddress table = address ∧
        platform.frameAddress frame = address ∧
        frame < frameTotal platform := by
    intro node address hnode
    obtain ⟨table, _, heq⟩ := (htable node address).mp hnode
    obtain ⟨frame, hframe, hlt⟩ := image.tableAddress_frame table
    refine ⟨table, frame, heq, hframe.trans heq, Nat.lt_of_lt_of_le hlt ?_⟩
    cases platform <;> decide
  refine ⟨⟨?_, ?_, ?_, ?_, ?_, ?_⟩, ?_, ?_, ?_, ?_, nofun⟩
  · intro first second address hfirst hsecond
    obtain ⟨table, rfl, heq⟩ := (htable first address).mp hfirst
    obtain ⟨other, rfl, hsame⟩ := (htable second address).mp hsecond
    rw [image.tableAddress_injective (heq.trans hsame.symm)]
  · intro node address hnode
    obtain ⟨table, frame, heq, hframe, hlt⟩ := hplaces node address hnode
    refine ⟨frame, by rw [hcount]; exact hlt, hframe.symm, ?_⟩
    exact (hused frame hlt).mpr (hreserved table frame (hframe.trans heq.symm))
  · intro i hentry
    have hvalue : state.entries image.level1Table i =
        Contents.initial image contents .level1 i :=
      congrFun (congrFun hstatic .level1) i
    rw [hvalue, Contents.initial_level1] at hentry
    by_cases hhigh : i = highIndex platform
    · exact ⟨_, (htable _ _).mpr ⟨.level2High, by rw [hhigh]; rfl, rfl⟩⟩
    by_cases hzero : i = 0
    · exact ⟨_, (htable _ _).mpr ⟨.level2Low, by rw [hzero]; rfl, rfl⟩⟩
    · rw [if_neg hhigh, if_neg hzero] at hentry
      exact absurd rfl hentry
  · intro address hsecond
    obtain ⟨table, hplace, _⟩ := (htable _ _).mp hsecond
    exact absurd hplace (placeOf_ne_pool table)
  · intro frame hlt hnone
    rw [hcount] at hlt
    apply frameAddress_ne_zero image
    intro hin
    rw [(hused frame hlt).mpr hin] at hnone
    cases hnone
  · rw [hcount]
    cases platform <;> decide
  · intro page hpage
    simp [hfree page hpage, hleaf page hpage]
  · intro page hpage hentry
    exact absurd (hleaf page hpage) hentry
  · intro page other frame hpage _ hmapped
    exact absurd hmapped (hunmapped page frame hpage)
  · intro frame hlt
    rw [hcount] at hlt
    rw [hused frame hlt]
    constructor
    · exact fun h => .reserved h
    · intro howned
      cases howned with
      | reserved h => exact h
      | mapped hpage h => exact absurd h (hunmapped _ frame hpage)
      | table h =>
          obtain ⟨table, _, heq, _⟩ := hplaces _ _ h
          exact hreserved table frame heq.symm
      | held h => cases h

end

def initMemory {platform : Platform} (image : KernelImage platform) :
    Vm Unit := do
  Mmu.init image
  PhysicalMemory.init platform platform.memoryMap image.kernelStart
    image.kernelEnd
  VirtualMemory.init

theorem run_initMemory {platform : Platform} (image : KernelImage platform)
    (state : MemoryState) :
    ∃ after, (initMemory image).run state = .ok ((), after) ∧
      Sound image after none ∧ after.frameCount = frameTotal platform ∧
      (∀ frame, frame < frameTotal platform →
        (after.used frame = true ↔ Reserved image frame)) ∧
      after.static image = Contents.initial image (state.static image) ∧
      after.tlb = (fun _ => none) ∧
      ∀ page, page < virtualPageCount →
        after.virtualBitmap.test page = false := by
  obtain ⟨hbase, hend, _, _⟩ := image.kernel_bounds
  obtain ⟨physical, hphysical, hbits⟩ := PhysicalMemory.run_init platform
    platform.memoryMap hbase hend { state.withStatic image
      (Contents.initial image (state.static image)) with tlb := fun _ => none }
  obtain ⟨bitmap, hvirtual, hfree⟩ := VirtualMemory.run_init
    { state.withStatic image (Contents.initial image (state.static image)) with
      tlb := fun _ => none
      physicalBitmap := physical
      frameCount := PhysicalMemory.usableCount platform.memoryMap }
  have hused : ∀ frame, frame < frameTotal platform →
      (physical.test frame = true ↔ Reserved image frame) := by
    intro frame hlt
    have hsize : frameTotal platform ≤ 8 * PhysicalMemory.bitmapSize := by
      cases platform <;> decide
    rw [hbits frame (Nat.lt_of_lt_of_le hlt hsize)]
    exact initiallyUsed_iff hlt
  have hcount := usableCount_memoryMap platform
  refine ⟨_, (run_bind_ok (Mmu.run_init image state) _).trans
    ((run_bind_ok hphysical _).trans hvirtual), ?_, hcount, hused,
    MemoryState.static_withStatic image state _, rfl, hfree⟩
  exact @sound_initial platform image _ (state.static image)
    (MemoryState.static_withStatic image state _) hused hcount hfree

end Planetoid.Memory
