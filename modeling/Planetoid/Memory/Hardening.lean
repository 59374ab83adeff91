import Planetoid.Memory.PoolInterleaving

namespace Planetoid.Memory

open Planetoid Program Mmu TableTree VirtualMemory MemoryBlockAttributes Arch

/-! What EL1 may execute and write, through all virtual addresses that lead to
a page. -/

def Section.Backs (part : Section) (address : Nat) : Prop :=
  part.Holds (address - address % pageSize)

section

variable {platform : Platform} (image : KernelImage platform)

structure SectionsHardened (state : MemoryState) : Prop where
  data : ∀ part ∈ [image.data, image.bss, image.stack],
    ∀ virtualAddress translation,
    hardwareWalk image state virtualAddress = some translation →
    part.Backs translation.address → executeNever translation.entry = true
  text : ∀ virtualAddress translation,
    hardwareWalk image state virtualAddress = some translation →
    image.text.Backs translation.address → readOnly translation.entry = true

structure Hardened (state : MemoryState) : Prop
    extends SectionsHardened image state where
  pages : ∀ page frame, page < virtualPageCount →
    MapsTo image state page frame → ∀ virtualAddress translation,
    hardwareWalk image state virtualAddress = some translation →
    translation.address - translation.address % pageSize =
      platform.frameAddress frame →
    executeNever translation.entry = true

end

def PoolOperation.Allocates : PoolOperation → Prop
  | .allocatePage => True
  | .allocatePages pageCount => 0 < pageCount ∧ pageCount ≤ virtualPageCount
  | .freePage _ => False
  | .freePages _ _ => False

def PoolEmpty (state : MemoryState) : Prop :=
  ∀ page, page < virtualPageCount → state.virtualBitmap.test page = false

section

variable {platform : Platform} {image : KernelImage platform}
  {contents : Contents} {boot start state : MemoryState}
  {virtualAddress : Nat} {translation : Translation}

theorem tableAt_third_child (image : KernelImage platform)
    (state : MemoryState) (i j : Fin 512) :
    tableAt image state (.third i j) = child (blockAt image state i j) := by
  unfold blockAt
  cases h : tableAt image state (.second i) with
  | some table => exact tableAt_third h
  | none =>
      have hbind : tableAt image state (.third i j) =
          (tableAt image state (.second i)).bind fun below =>
            child (state.entries below j) := rfl
      rw [hbind, h]
      exact child_zero.symm

theorem Fixed.placed (fixed : Fixed image start state)
    (hstatic : start.static image = Contents.initial image contents)
    (table : StaticTable) :
    tableAt image state (placeOf platform table) =
      some (image.tableAddress table) := by
  have hinitial : tableAt image start (placeOf platform table) =
      some (image.tableAddress table) :=
    (tableAt_initial hstatic _ _).mpr ⟨table, rfl, rfl⟩
  rw [← hinitial]
  cases table with
  | level1 => rfl
  | level2Low => exact fixed.second 0 (by decide)
  | level2High =>
      exact fixed.second (highIndex platform) (by cases platform <;> decide)
  | level3Kernel =>
      have hplace : placeOf platform .level3Kernel =
          .third (windowIndex platform).1 (windowIndex platform).2 := by
        cases platform <;> rfl
      rw [hplace, tableAt_third_child, tableAt_third_child,
        fixed.block _ _ (window_ne_pool platform)]

theorem Fixed.poolTable (fixed : Fixed image start state)
    (paging : Paging image state)
    (hstatic : start.static image = Contents.initial image contents)
    {j : Fin 512} {address : Nat}
    (htable : tableAt image state (.third poolIndex j) = some address) :
    j.val < 8 := by
  rcases fixed.tables _ _ htable with ⟨table, rfl⟩ | hnode
  · have hplace := paging.tree _ _ _ htable (fixed.placed hstatic table)
    exfalso
    cases table with
    | level1 => cases hplace
    | level2Low => cases hplace
    | level2High => cases hplace
    | level3Kernel =>
        cases platform with
        | virt =>
            injection hplace with hfirst
            exact absurd hfirst (by decide)
        | pi5 =>
            injection hplace with hfirst
            exact absurd hfirst (by decide)
  · rcases hnode with heq | ⟨k, hk, heq⟩
    · cases heq
    · injection heq with _ heq
      rw [heq]
      exact hk

theorem deviceBlock
    (hstatic : start.static image = Contents.initial image contents)
    {i j : Fin 512} (hne : i ≠ (windowIndex platform).1)
    (hblock : blockAt image start i j % 4 = 1) :
    executeNever (blockAt image start i j) = true ∧
      ∀ offset, offset < 2 ^ 21 → ¬ InRam platform
        (outputAddress (blockAt image start i j) 21 + offset) := by
  have htable : tableAt image start (.second i) ≠ none := by
    intro hnone
    unfold blockAt at hblock
    rw [hnone] at hblock
    cases hblock
  obtain ⟨address, haddress⟩ := Option.ne_none_iff_exists'.mp htable
  obtain ⟨table, hplace, rfl⟩ := (tableAt_initial hstatic _ _).mp haddress
  have hentry : blockAt image start i j =
      Contents.initial image contents table j := by
    unfold blockAt
    rw [haddress]
    exact congrFun (congrFun hstatic table) j
  rw [hentry] at hblock ⊢
  unfold InRam
  cases platform with
  | virt =>
      cases table with
      | level1 => cases hplace
      | level2Low =>
          rw [Contents.initial_level2Low _ _ j.isLt] at hblock ⊢
          unfold Contents.lowEntry at hblock ⊢
          simp only at hblock ⊢
          have hram : Platform.physicalMemoryBase .virt = 0x40000000 := rfl
          split
          · have hbase : outputAddress (makeDeviceBlockDescriptor 0x09000000
                (attrEl1Rw ||| attrPxn ||| attrUxn)) 21 = 0x09000000 := by
              decide
            refine ⟨by decide, ?_⟩
            intro offset hoffset
            rw [hbase]
            omega
          split
          · have hbase : outputAddress (makeDeviceBlockDescriptor 0x08000000
                (attrEl1Rw ||| attrPxn ||| attrUxn)) 21 = 0x08000000 := by
              decide
            refine ⟨by decide, ?_⟩
            intro offset hoffset
            rw [hbase]
            omega
          · rename_i hfirst hsecond
            rw [if_neg hfirst, if_neg hsecond] at hblock
            cases hblock
      | level2High =>
          injection hplace with hindex
          exact absurd hindex.symm hne
      | level3Kernel => cases hplace
  | pi5 =>
      cases table with
      | level1 => cases hplace
      | level2Low =>
          injection hplace with hindex
          exact absurd hindex.symm hne
      | level2High =>
          rw [Contents.initial_level2High _ _ j.isLt] at hblock ⊢
          unfold Contents.highEntry at hblock ⊢
          simp only at hblock ⊢
          have hout : ∀ base offset : Nat, 0x40000000 ≤ base →
              ¬ (Platform.physicalMemoryBase .pi5 ≤ base + offset ∧
                base + offset <
                  Platform.physicalMemoryBase .pi5 + 0x40000000) := by
            intro base offset h
            have hram : Platform.physicalMemoryBase .pi5 = 0 := rfl
            omega
          split
          · exact ⟨by decide, fun offset _ => hout _ offset (by decide)⟩
          split
          · exact ⟨by decide, fun offset _ => hout _ offset (by decide)⟩
          split
          · exact ⟨by decide, fun offset _ => hout _ offset (by decide)⟩
          · rename_i hfirst hsecond hthird
            rw [if_neg hfirst, if_neg hsecond, if_neg hthird] at hblock
            cases hblock
      | level3Kernel => cases hplace

/-- Where the walk of an address ends: at the address itself, at a device, or
at the frame of a pool page. -/
theorem Sound.walk_cases (sound : Sound image state none)
    (fixed : Fixed image start state)
    (hstatic : start.static image = Contents.initial image contents)
    (hwalk : hardwareWalk image state virtualAddress = some translation) :
    (InRam platform translation.address ∧
      translation.entry = identityEntry image translation.address) ∨
    (executeNever translation.entry = true ∧
      ¬ InRam platform translation.address) ∨
    ∃ frame, Loose image state frame ∧
      translation.entry = poolDescriptor platform frame ∧
      translation.address - translation.address % pageSize =
        platform.frameAddress frame := by
  have hlt : virtualAddress < 2 ^ 39 := by
    by_contra hlarge
    unfold hardwareWalk tableWalk at hwalk
    rw [if_neg hlarge] at hwalk
    cases hwalk
  have paging := sound.paging
  by_cases hpool : level1Of virtualAddress = poolIndex
  · -- a page of the pool
    right
    right
    rw [hardwareWalk_eq paging hlt, hpool, if_neg (paging.poolBlock _)]
      at hwalk
    split at hwalk
    · rename_i htype
      cases htable : tableAt image state
          (.third poolIndex (level2Of virtualAddress)) with
      | none =>
          rw [leafAt_of_none htable] at htype
          cases htype
      | some table =>
          have hlow := fixed.poolTable paging hstatic htable
          let page := (level2Of virtualAddress).val * 512 +
            (level3Of virtualAddress).val
          have hthird := (level3Of virtualAddress).isLt
          have hpage : page < virtualPageCount := by
            rw [virtualPageCount_eq]
            omega
          have hleaf : leafAt image state poolIndex (level2Of virtualAddress)
              (level3Of virtualAddress) = poolLeaf image state page := by
            have hfirst : level1Of (pageAddress page) = poolIndex :=
              Fin.ext (level1Of_pageAddress hpage)
            have hsecond : level2Of (pageAddress page) =
                level2Of virtualAddress := by
              apply Fin.ext
              rw [level2Of_pageAddress hpage]
              omega
            have hlast : level3Of (pageAddress page) =
                level3Of virtualAddress := by
              apply Fin.ext
              rw [level3Of_pageAddress]
              omega
            unfold poolLeaf
            rw [hfirst, hsecond, hlast]
          rw [hleaf] at hwalk htype
          have hne : poolLeaf image state page ≠ 0 := by
            intro hzero
            rw [hzero] at htype
            cases htype
          obtain ⟨frame, hmapped, loose⟩ := sound.entries page hpage hne
          have haddress := poolDescriptor_address paging loose.bounded
          have haligned := platform.frameAddress_mod frame
          rw [land_addressMask_eq] at haddress
          rw [show poolLeaf image state page = poolDescriptor platform frame
            from hmapped, haddress] at hwalk
          obtain rfl := Option.some.inj hwalk
          refine ⟨frame, loose, rfl, ?_⟩
          unfold pageSize at *
          simp only
          omega
    · cases hwalk
  · by_cases hwindow : level1Of virtualAddress = (windowIndex platform).1
    · -- the memory that is mapped one-to-one
      left
      have hram : InRam platform virtualAddress := by
        have hindex := congrArg Fin.val hwindow
        have hfirst : (level1Of virtualAddress).val =
            virtualAddress / 2 ^ 30 % 512 := getLevel1Index_eq virtualAddress
        rw [hfirst] at hindex
        unfold InRam
        cases platform with
        | virt =>
            have hbase : Platform.physicalMemoryBase .virt = 0x40000000 := rfl
            have hone : ((windowIndex .virt).1 : Fin 512).val = 1 := rfl
            omega
        | pi5 =>
            have hbase : Platform.physicalMemoryBase .pi5 = 0 := rfl
            have hzero : ((windowIndex .pi5).1 : Fin 512).val = 0 := rfl
            omega
      obtain ⟨other, hother, haddress, hentry⟩ :=
        fixed.identityWalk paging hstatic hram
      obtain rfl := Option.some.inj (hwalk.symm.trans hother)
      rw [haddress]
      exact ⟨hram, hentry⟩
    · -- a device, or nothing
      right
      left
      have hthird : ∀ k, leafAt image state (level1Of virtualAddress)
          (level2Of virtualAddress) k = 0 := by
        intro k
        rw [fixed.leaf _ _ _ hpool]
        apply leafAt_of_none
        cases htable : tableAt image start (.third (level1Of virtualAddress)
            (level2Of virtualAddress)) with
        | none => rfl
        | some address =>
            obtain ⟨table, hplace, _⟩ := (tableAt_initial hstatic _ _).mp htable
            exfalso
            cases table with
            | level1 => cases hplace
            | level2Low => cases hplace
            | level2High => cases hplace
            | level3Kernel =>
                apply hwindow
                cases platform with
                | virt =>
                    injection hplace with hfirst
                    exact hfirst.symm
                | pi5 =>
                    injection hplace with hfirst
                    exact hfirst.symm
      rw [hardwareWalk_eq paging hlt, hthird, fixed.block _ _ hpool] at hwalk
      split at hwalk
      · rename_i hblock
        obtain ⟨hexecute, hout⟩ := deviceBlock hstatic hwindow hblock
        obtain rfl := Option.some.inj hwalk
        exact ⟨hexecute, hout _ (Nat.mod_lt _ (by decide))⟩
      · rw [if_neg (by decide)] at hwalk
        cases hwalk

theorem Section.Backs.window {part : Section}
    (hpart : part ∈ [image.text, image.rodata, image.data, image.bss,
      image.stack]) {address : Nat} (h : part.Backs address) :
    InRam platform address ∧
      (image.kernelStart ≤ address - address % pageSize ∧
        address - address % pageSize < image.kernelEnd) ∧
      identityEntry image address =
        makeNormalPageDescriptor (address - address % pageSize)
          (windowPermissions image (address - address % pageSize)) := by
  obtain ⟨hlow, hhigh⟩ := h
  obtain ⟨hstart, _⟩ := image.section_bounds hpart
  have hordered := image.ordered
  have hconsecutive := image.consecutive
  have hwindow := image.inWindow
  simp only [List.mem_cons, List.not_mem_nil, or_false, forall_eq_or_imp,
    forall_eq] at hordered hpart
  have hbounds : image.kernelStart ≤ address - address % pageSize ∧
      address - address % pageSize < image.kernelEnd := by
    unfold KernelImage.kernelStart KernelImage.kernelEnd
    rcases hpart with rfl | rfl | rfl | rfl | rfl <;> omega
  have hplace : platform.kernelBase ≤ address ∧
      address < platform.kernelBase + 0x200000 := by
    unfold KernelImage.kernelStart KernelImage.kernelEnd at hbounds
    have hbase := kernelBase_mod platform
    unfold pageSize at hbounds
    omega
  refine ⟨?_, hbounds, ?_⟩
  · unfold InRam
    cases platform with
    | virt =>
        have hbase : Platform.physicalMemoryBase .virt = 0x40000000 := rfl
        have hkernel : Platform.kernelBase .virt = 0x40000000 := rfl
        omega
    | pi5 =>
        have hbase : Platform.physicalMemoryBase .pi5 = 0 := rfl
        have hkernel : Platform.kernelBase .pi5 = 0x200000 := rfl
        omega
  · have hbase := kernelBase_mod platform
    unfold identityEntry
    rw [if_pos (by omega)]

theorem windowPermissions_data {part : Section}
    (hpart : part ∈ [image.data, image.bss, image.stack]) {address : Nat}
    (h : part.Holds address) :
    windowPermissions image address = attrEl1Rw ||| attrPxn := by
  simp only [List.mem_cons, List.not_mem_nil, or_false] at hpart
  unfold windowPermissions
  split
  · rfl
  split
  · rfl
  split
  · rfl
  · rename_i hstack hbss hdata
    rcases hpart with rfl | rfl | rfl
    · exact absurd h hdata
    · exact absurd h hbss
    · exact absurd h hstack

theorem windowPermissions_text {address : Nat} (h : image.text.Holds address) :
    windowPermissions image address = attrEl1Ro := by
  have hordered := image.ordered
  have hconsecutive := image.consecutive
  simp only [List.mem_cons, List.not_mem_nil, or_false, forall_eq_or_imp,
    forall_eq] at hordered
  have hnone : ∀ part ∈ [image.rodata, image.data, image.bss, image.stack],
      ¬ part.Holds address := by
    intro part hpart hholds
    unfold Section.Holds at h hholds
    simp only [List.mem_cons, List.not_mem_nil, or_false] at hpart
    rcases hpart with rfl | rfl | rfl | rfl <;> omega
  unfold windowPermissions
  rw [if_neg (hnone _ (by simp)), if_neg (hnone _ (by simp)),
    if_neg (hnone _ (by simp)), if_neg (hnone _ (by simp)), if_pos h]

/-- A page of a section is only mapped to itself. -/
theorem Sound.section_entry (sound : Sound image state none)
    (fixed : Fixed image start state)
    (hstatic : start.static image = Contents.initial image contents)
    (hwalk : hardwareWalk image state virtualAddress = some translation)
    {part : Section} (hpart : part ∈ [image.text, image.rodata, image.data,
      image.bss, image.stack]) (h : part.Backs translation.address) :
    translation.entry = makeNormalPageDescriptor
      (translation.address - translation.address % pageSize)
      (windowPermissions image
        (translation.address - translation.address % pageSize)) := by
  obtain ⟨hram, hkernel, hidentity⟩ := h.window hpart
  rcases sound.walk_cases fixed hstatic hwalk with ⟨_, hentry⟩ | ⟨_, hout⟩ |
    ⟨frame, loose, _, hframe⟩
  · rw [hentry, hidentity]
  · exact absurd hram hout
  · rw [hframe] at hkernel
    exact absurd (.inl hkernel) loose.unreserved

theorem Sound.sectionsHardened (sound : Sound image state none)
    (fixed : Fixed image start state)
    (hstatic : start.static image = Contents.initial image contents) :
    SectionsHardened image state where
  data := by
    intro part hpart virtualAddress translation hwalk hbacks
    have hmem : part ∈ [image.text, image.rodata, image.data, image.bss,
        image.stack] := List.mem_cons_of_mem _ (List.mem_cons_of_mem _ hpart)
    rw [sound.section_entry fixed hstatic hwalk hmem hbacks,
      (pageEntry_permissions _ _).2, windowPermissions_data hpart hbacks]
    decide
  text := by
    intro virtualAddress translation hwalk hbacks
    rw [sound.section_entry fixed hstatic hwalk (List.mem_cons_self ..) hbacks,
      (pageEntry_permissions _ _).1, windowPermissions_text hbacks]
    decide

/-- The page of every frame of the pool is mapped a second time, to itself,
with all permissions. -/
theorem Sound.hardened_iff (sound : Sound image state none)
    (fixed : Fixed image start state)
    (hstatic : start.static image = Contents.initial image contents) :
    Hardened image state ↔ PoolEmpty state := by
  constructor
  · intro hardened page hpage
    cases hused : state.virtualBitmap.test page with
    | false => rfl
    | true =>
        obtain ⟨frame, hmapped, loose⟩ :=
          sound.entries page hpage ((sound.bits page hpage).mp hused)
        have hlow := fixed.low frame loose.bounded
          (sound.mapped_used hpage loose.bounded hmapped)
        obtain ⟨translation, hwalk, haddress, _, hexecute⟩ :=
          fixed.frameWalk sound.paging hstatic
            (Nat.lt_trans hlow (by decide)) loose.unreserved
        have hnever := hardened.pages page frame hpage
          ((sound.mapsTo_iff hpage loose.bounded).mpr hmapped) _ translation
          hwalk (by rw [haddress, platform.frameAddress_mod, Nat.sub_zero])
        rw [hnever] at hexecute
        cases hexecute
  · intro hempty
    refine ⟨sound.sectionsHardened fixed hstatic, ?_⟩
    intro page frame hpage hmaps
    have hfree := leaf_of_free sound hpage (hempty page hpage)
    exact absurd hfree hmaps.1

theorem fixed_of_reachable
    (hstart : (initMemory image).run boot = .ok ((), start))
    {guard : MemoryState → PoolOperation → Prop}
    (reachable : (poolRuns image start).Reachable guard state) :
    Sound image state none ∧ Fixed image start state := by
  obtain ⟨resting, hstatic⟩ := resting_start hstart
  obtain ⟨initial, hinitial, sound, _⟩ := run_initMemory image boot
  cases hinitial.symm.trans hstart
  have hresting : Resting image start noPins state := by
    apply reachable.holds
    · rintro _ rfl
      exact resting
    · intro before operation after hbefore _ hrun
      exact (operation.guarded hstatic hbefore).run hrun
  have fixed := Steady.fixed hresting
  exact ⟨(reachable_sound sound (reachable.weaken fun _ _ _ => trivial)).1,
    fixed.second, fixed.block, fixed.leaf, fixed.tables, fixed.low⟩

theorem PoolOperation.poolEmpty (sound : Sound image state none)
    (hempty : PoolEmpty state) {operation : PoolOperation}
    (hfrees : ¬ operation.Allocates) {after : MemoryState}
    (hrun : (operation.program image).run state = .ok ((), after)) :
    PoolEmpty after := by
  have hsame : ∀ {α : Type} {program : Vm α} {value : α},
      program.run state = .ok (value, state) →
      (program >>= fun _ => pure ()).run state = .ok ((), after) →
      PoolEmpty after := by
    intro α program value hprogram hwhole
    rw [run_bind_ok hprogram] at hwhole
    cases hwhole
    exact hempty
  cases operation with
  | allocatePage => exact absurd trivial hfrees
  | allocatePages pageCount =>
      refine @hsame _ _ 0 ?_ hrun
      unfold VirtualMemory.allocatePages
      by_cases hzero : pageCount = 0
      · rw [if_pos hzero]
        rfl
      · have hlarge : pageCount > virtualPageCount := by
          by_contra hsmall
          exact hfrees ⟨Nat.pos_of_ne_zero hzero, Nat.le_of_not_lt hsmall⟩
        rw [if_neg hzero, if_pos hlarge]
        rfl
  | freePage virtualAddress =>
      by_cases hvalid : ∃ page, page < virtualPageCount ∧
          virtualAddress = pageAddress page
      · obtain ⟨page, hpage, rfl⟩ := hvalid
        have hfree := run_freePage sound hpage
        rw [hempty page hpage] at hfree
        exact hsame hfree hrun
      · exact hsame (run_freePage_invalid hvalid) hrun
  | freePages virtualAddress pageCount =>
      rcases run_freePages sound virtualAddress pageCount with
        ⟨_, hfree⟩ | ⟨page, _, ⟨_, hpositive, hbound, hused⟩, _⟩
      · exact hsame hfree hrun
      · have hfirst := hused 0 hpositive
        rw [Nat.add_zero, hempty page (by omega)] at hfirst
        cases hfirst

end

/-- In every state that the operations of `VirtualMemory` reach, the pages of
the pool are not EL1-executable exactly when there are none, so no run that
allocates nothing ever breaks it. -/
theorem hardened_of_reachable {platform : Platform}
    {image : KernelImage platform} {boot start : MemoryState}
    (hstart : (initMemory image).run boot = .ok ((), start)) :
    (∀ state, (poolRuns image start).Reachable System.unguarded state →
      (Hardened image state ↔ PoolEmpty state)) ∧
    ∀ state, (poolRuns image start).Reachable
        (fun _ operation => ¬ operation.Allocates) state →
      Hardened image state := by
  obtain ⟨initial, hinitial, sound, _, _, hstatic, _, hfree⟩ :=
    run_initMemory image boot
  cases hinitial.symm.trans hstart
  refine ⟨?_, ?_⟩
  · intro state reachable
    obtain ⟨hsound, fixed⟩ := fixed_of_reachable hstart reachable
    exact hsound.hardened_iff fixed hstatic
  · intro state reachable
    obtain ⟨hsound, fixed⟩ := fixed_of_reachable hstart reachable
    rw [hsound.hardened_iff fixed hstatic]
    refine (@System.Reachable.holds _ _ _ _ (fun current =>
      Sound image current none ∧ PoolEmpty current) _ reachable ?_ ?_).2
    · rintro _ rfl
      exact ⟨sound, hfree⟩
    · rintro before operation after ⟨hbefore, hempty⟩ hfrees hrun
      obtain ⟨other, hother, hafter, _⟩ := operation.sound hbefore
      cases hrun.symm.trans hother
      exact ⟨hafter, operation.poolEmpty hbefore hempty hfrees hrun⟩

/-- After the initialisation, before any page is allocated. -/
theorem hardened_smallImage :
    ∃ start, (initMemory smallImage).run bootMemory = .ok ((), start) ∧
      Hardened smallImage start := by
  obtain ⟨start, hstart, _⟩ := run_initMemory smallImage bootMemory
  exact ⟨start, hstart,
    (hardened_of_reachable hstart).2 start (.initial rfl)⟩

/-- The page at `0x80000000` after one call of `allocate_page`. -/
theorem hardened_fails_after_allocation :
    ∃ start state, (initMemory smallImage).run bootMemory = .ok ((), start) ∧
      (PoolOperation.allocatePage.program smallImage).run start =
        .ok ((), state) ∧
      (poolRuns smallImage start).Reachable System.unguarded state ∧
      ¬ Hardened smallImage state := by
  obtain ⟨start, hstart, _⟩ := run_initMemory smallImage bootMemory
  obtain ⟨state, hrun, hused⟩ := run_allocatePage_start hstart
  have reached : (poolRuns smallImage start).Reachable System.unguarded state :=
    .step (.initial rfl) trivial hrun
  refine ⟨start, state, hstart, hrun, reached, ?_⟩
  obtain ⟨sound, fixed⟩ := fixed_of_reachable hstart reached
  rw [sound.hardened_iff fixed (resting_start hstart).2]
  intro hempty
  rw [hempty 0 (by decide)] at hused
  cases hused

end Planetoid.Memory
