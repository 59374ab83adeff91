import Planetoid.Memory.PoolFixed

namespace Planetoid.Memory

open Planetoid Program Mmu TableTree VirtualMemory MemoryBlockAttributes Arch

/-! The memory that is mapped one-to-one: by pages around the kernel, and by
blocks of 2 MiB. -/

def Section.Holds (part : Section) (address : Nat) : Prop :=
  part.start ≤ address ∧ address < part.stop

instance (part : Section) (address : Nat) : Decidable (part.Holds address) :=
  inferInstanceAs (Decidable (_ ∧ _))

/-- The permissions of the page at an address of the kernel's window. -/
def windowPermissions (image : KernelImage platform) (address : Nat) : Nat :=
  if image.stack.Holds address then attrEl1Rw ||| attrPxn
  else if image.bss.Holds address then attrEl1Rw ||| attrPxn
  else if image.data.Holds address then attrEl1Rw ||| attrPxn
  else if image.rodata.Holds address then attrEl1Ro ||| attrPxn
  else if image.text.Holds address then attrEl1Ro
  else attrEl1Rw

section

variable {platform : Platform} {image : KernelImage platform}
  {contents : Contents} {start state : MemoryState}

theorem kernelBase_mod (platform : Platform) :
    platform.kernelBase % 0x200000 = 0 := by
  cases platform <;> rfl

theorem section_index {part : Section}
    (hpart : part ∈ [image.text, image.rodata, image.data, image.bss,
      image.stack]) (index : Nat) :
    (KernelImage.sectionFirst platform part ≤ index ∧
        index < KernelImage.sectionFirst platform part +
          KernelImage.sectionCount part) ↔
      part.Holds (platform.kernelBase + index * 0x1000) := by
  have haligned := image.aligned part hpart
  have hordered := image.ordered part hpart
  have hstart := (image.section_bounds hpart).1
  have hbase := kernelBase_mod platform
  unfold KernelImage.sectionFirst KernelImage.sectionCount Section.Holds
  unfold pageSize at haligned
  omega

theorem initial_level3Kernel {index : Nat} (h : index < 512) :
    Contents.initial image contents .level3Kernel index =
      Contents.windowPage platform (windowPermissions image
        (platform.kernelBase + index * 0x1000)) index := by
  have hsection := fun part hpart => @section_index platform image part hpart
    index
  unfold Contents.initial Contents.mapKernel Contents.mapSection
  simp only [Contents.fill_same, hsection image.text (by simp),
    hsection image.rodata (by simp), hsection image.data (by simp),
    hsection image.bss (by simp), hsection image.stack (by simp)]
  unfold windowPermissions
  have hwindow : 0 ≤ index ∧ index < 0 + 512 := by omega
  rw [if_pos hwindow]
  split
  · rfl
  split
  · rfl
  split
  · rfl
  split
  · rfl
  split
  · rfl
  · rfl

/-- The level 1 and level 2 indices of the kernel's window. -/
def windowIndex : Platform → Fin 512 × Fin 512
  | .virt => (1, 0)
  | .pi5 => (0, 1)

def ramTable : Platform → StaticTable
  | .virt => .level2High
  | .pi5 => .level2Low

theorem window_ne_pool (platform : Platform) :
    (windowIndex platform).1 ≠ poolIndex := by
  cases platform <;> decide

theorem ramBlock (hstatic : start.static image =
      Contents.initial image contents) {j : Fin 512}
    (hne : j ≠ (windowIndex platform).2) :
    blockAt image start (windowIndex platform).1 j =
      makeNormalBlockDescriptor
        (platform.physicalMemoryBase + j * 0x200000) attrEl1Rw := by
  have htable := (tableAt_initial hstatic (.second (windowIndex platform).1)
    (image.tableAddress (ramTable platform))).mpr
      ⟨ramTable platform, by cases platform <;> rfl, rfl⟩
  have hvalue := congrFun (congrFun hstatic (ramTable platform)) j
  have hindex : (j : Nat) ≠ (windowIndex platform).2.val :=
    fun h => hne (Fin.ext h)
  unfold blockAt
  rw [htable]
  refine hvalue.trans ?_
  cases platform with
  | virt =>
      change Contents.initial image contents .level2High j = _
      rw [Contents.initial_level2High _ _ j.isLt]
      exact if_neg hindex
  | pi5 =>
      change Contents.initial image contents .level2Low j = _
      rw [Contents.initial_level2Low _ _ j.isLt]
      refine (if_neg hindex).trans ?_
      unfold Platform.physicalMemoryBase
      simp only [Nat.zero_add]

theorem windowLeaf (hstatic : start.static image =
      Contents.initial image contents) (k : Fin 512) :
    leafAt image start (windowIndex platform).1 (windowIndex platform).2 k =
      Contents.windowPage platform (windowPermissions image
        (platform.kernelBase + k * 0x1000)) k := by
  have htable := (tableAt_initial hstatic
    (.third (windowIndex platform).1 (windowIndex platform).2)
    image.level3KernelTable).mpr
      ⟨.level3Kernel, by cases platform <;> rfl, rfl⟩
  rw [leafAt_of_table htable, ← initial_level3Kernel k.isLt]
  exact congrFun (congrFun hstatic .level3Kernel) k

def identityEntry (image : KernelImage platform) (address : Nat) : Nat :=
  if address / 0x200000 = platform.kernelBase / 0x200000 then
    makeNormalPageDescriptor (address - address % pageSize)
      (windowPermissions image (address - address % pageSize))
  else makeNormalBlockDescriptor (address - address % 0x200000) attrEl1Rw

theorem InRam.indices {address : Nat} (h : InRam platform address) :
    level1Of address = (windowIndex platform).1 ∧
      (level2Of address).val =
        (address - platform.physicalMemoryBase) / 0x200000 := by
  obtain ⟨hlow, hhigh⟩ := h
  have hfirst : (level1Of address).val = address / 2 ^ 30 % 512 :=
    getLevel1Index_eq address
  have hsecond : (level2Of address).val = address / 2 ^ 21 % 512 :=
    getLevel2Index_eq address
  cases platform with
  | virt =>
      unfold Platform.physicalMemoryBase at *
      simp only at *
      refine ⟨Fin.ext (hfirst.trans ?_), hsecond.trans (by omega)⟩
      change _ = 1
      omega
  | pi5 =>
      unfold Platform.physicalMemoryBase at *
      simp only at *
      refine ⟨Fin.ext (hfirst.trans ?_), hsecond.trans (by omega)⟩
      change _ = 0
      omega

theorem InRam.window_iff {address : Nat} (h : InRam platform address) :
    level2Of address = (windowIndex platform).2 ↔
      address / 0x200000 = platform.kernelBase / 0x200000 := by
  have hindex := h.indices.2
  obtain ⟨hlow, _⟩ := h
  rw [Fin.ext_iff, hindex]
  cases platform with
  | virt =>
      unfold Platform.physicalMemoryBase Platform.kernelBase at *
      simp only at *
      change _ = 0 ↔ _
      omega
  | pi5 =>
      unfold Platform.physicalMemoryBase Platform.kernelBase at *
      simp only at *
      change _ = 1 ↔ _
      omega

theorem outputAddress_eq {entry address low : Nat} (hlow : low = 12 ∨ low = 21)
    (haligned : address % 2 ^ low = 0)
    (h : entry &&& addressMask = address) :
    outputAddress entry low = address := by
  rw [land_addressMask_eq] at h
  unfold outputAddress at *
  generalize entry % 2 ^ 48 = bits at *
  rcases hlow with rfl | rfl
  · exact h
  · obtain ⟨block, rfl⟩ := Nat.dvd_of_mod_eq_zero haligned
    have hdiv : bits / 2 ^ 21 = block := by
      apply Nat.div_eq_of_lt_le
      · omega
      · omega
    rw [hdiv, Nat.mul_comm]

theorem makeNormalBlockDescriptor_eq (address permissions : Nat) :
    makeNormalBlockDescriptor address permissions =
      (address &&& addressMask) ||| (blockDescriptor ||| attrNormalMemory |||
        attrAccess ||| attrShareable ||| permissions) := by
  unfold makeNormalBlockDescriptor
  simp only [Nat.or_assoc]

theorem makeNormalBlockDescriptor_spec {address permissions : Nat}
    (htype : permissions &&& 0b11 = 0)
    (hpermissions : permissions &&& addressMask = 0)
    (haddress : Addressable address) :
    makeNormalBlockDescriptor address permissions % 4 = 1 ∧
      makeNormalBlockDescriptor address permissions &&& addressMask =
        address := by
  have hflags : (blockDescriptor ||| attrNormalMemory ||| attrAccess |||
      attrShareable ||| permissions) &&& addressMask = 0 := by
    rw [Nat.and_or_distrib_right, hpermissions]
    decide
  rw [makeNormalBlockDescriptor_eq]
  constructor
  · rw [← land_type, lor_land_type, Nat.and_or_distrib_right, htype]
    decide
  · rw [lor_land_addressMask hflags, land_addressMask haddress.1 haddress.2]

theorem Fixed.identityWalk (fixed : Fixed image start state)
    (paging : Paging image state)
    (hstatic : start.static image = Contents.initial image contents)
    {address : Nat} (hram : InRam platform address) :
    ∃ translation, hardwareWalk image state address = some translation ∧
      translation.address = address ∧
      translation.entry = identityEntry image address := by
  obtain ⟨hfirst, hsecond⟩ := hram.indices
  have hpool := window_ne_pool platform
  have hlt : address < 2 ^ 39 ∧ address < 2 ^ 48 := by
    obtain ⟨_, hhigh⟩ := hram
    cases platform with
    | virt =>
        unfold Platform.physicalMemoryBase at hhigh
        simp only at hhigh
        omega
    | pi5 =>
        unfold Platform.physicalMemoryBase at hhigh
        simp only at hhigh
        omega
  have hblock := fixed.block _ (level2Of address) hpool
  have hleaf := fixed.leaf _ (level2Of address) (level3Of address) hpool
  rw [hardwareWalk_eq paging hlt.1, hfirst, hblock, hleaf]
  unfold identityEntry
  by_cases hwindow : level2Of address = (windowIndex platform).2
  · rw [if_pos (hram.window_iff.mp hwindow)]
    have hin := hram.window_iff.mp hwindow
    have hnone : ¬ blockAt image start (windowIndex platform).1
        (level2Of address) % 4 = 1 := by
      intro hblock
      have hzero := leafAt_of_block hblock (level3Of address)
      rw [hwindow, windowLeaf hstatic] at hzero
      have hflags : windowPermissions image
          (platform.kernelBase + (level3Of address).val * 0x1000) &&& 0b11 =
            0 := by
        unfold windowPermissions
        repeat' split
        all_goals decide
      exact ne_zero_of_type (makeNormalPageDescriptor_type hflags _)
        (by decide) hzero
    have hthird : (level3Of address).val = address / 2 ^ 12 % 512 :=
      getLevel3Index_eq address
    have hpage : platform.kernelBase + (level3Of address).val * 0x1000 =
        address - address % pageSize := by
      have hbase := kernelBase_mod platform
      unfold pageSize
      omega
    have hflags : windowPermissions image (address - address % pageSize) &&&
        0b11 = 0 ∧ windowPermissions image (address - address % pageSize) &&&
          addressMask = 0 := by
      unfold windowPermissions
      repeat' split
      all_goals decide
    have haddress : Addressable (address - address % pageSize) := by
      unfold Addressable pageSize
      omega
    rw [if_neg hnone, hwindow, windowLeaf hstatic]
    unfold Contents.windowPage
    rw [hpage]
    have htype : makeNormalPageDescriptor (address - address % pageSize)
        (windowPermissions image (address - address % pageSize)) % 4 = 3 := by
      rw [← land_type]
      exact makeNormalPageDescriptor_type hflags.1 _
    rw [if_pos htype]
    refine ⟨_, rfl, ?_, rfl⟩
    simp only
    rw [outputAddress_eq (.inl rfl) (by unfold pageSize; omega)
      (makeNormalPageDescriptor_address hflags.2 haddress)]
    unfold pageSize
    omega
  · rw [if_neg (fun h => hwindow (hram.window_iff.mpr h))]
    have hentry : blockAt image start (windowIndex platform).1
        (level2Of address) =
          makeNormalBlockDescriptor (address - address % 0x200000)
            attrEl1Rw := by
      rw [ramBlock hstatic hwindow, hsecond]
      congr 1
      obtain ⟨hlow, _⟩ := hram
      cases platform with
      | virt =>
          unfold Platform.physicalMemoryBase at *
          simp only at *
          omega
      | pi5 =>
          unfold Platform.physicalMemoryBase at *
          simp only at *
          omega
    have haddress : Addressable (address - address % 0x200000) := by
      unfold Addressable pageSize
      omega
    obtain ⟨htype, htarget⟩ := @makeNormalBlockDescriptor_spec
      (address - address % 0x200000) attrEl1Rw rfl rfl haddress
    rw [hentry, if_pos htype]
    refine ⟨_, rfl, ?_, rfl⟩
    simp only
    rw [outputAddress_eq (.inr rfl) (by omega) htarget]
    omega

theorem testBit_descriptor {i : Nat} (hi : addressMask.testBit i = false)
    (address flags : Nat) :
    ((address &&& addressMask) ||| flags).testBit i = flags.testBit i := by
  rw [Nat.testBit_or, Nat.testBit_and, hi, Bool.and_false, Bool.false_or]

theorem pageEntry_permissions (address permissions : Nat) :
    readOnly (makeNormalPageDescriptor address permissions) =
        permissions.testBit 7 ∧
      executeNever (makeNormalPageDescriptor address permissions) =
        permissions.testBit 53 := by
  have hbit : ∀ i, i = 7 ∨ i = 53 →
      (normalPageFlags permissions).testBit i = permissions.testBit i := by
    intro i hi
    have hflags : (pageDescriptor ||| attrNormalMemory ||| attrAccess |||
        attrShareable).testBit i = false := by
      rcases hi with rfl | rfl <;> decide
    rw [normalPageFlags, Nat.testBit_or, hflags, Bool.false_or]
  unfold readOnly executeNever
  rw [makeNormalPageDescriptor_eq, testBit_descriptor (by decide),
    testBit_descriptor (by decide), hbit 7 (.inl rfl), hbit 53 (.inr rfl)]
  exact ⟨rfl, rfl⟩

theorem blockEntry_permissions (address : Nat) :
    readOnly (makeNormalBlockDescriptor address attrEl1Rw) = false ∧
      executeNever (makeNormalBlockDescriptor address attrEl1Rw) = false := by
  unfold readOnly executeNever
  rw [makeNormalBlockDescriptor_eq, testBit_descriptor (by decide),
    testBit_descriptor (by decide)]
  decide

theorem windowPermissions_outside {address : Nat}
    (h : ¬ (image.kernelStart ≤ address ∧ address < image.kernelEnd)) :
    windowPermissions image address = attrEl1Rw := by
  have hordered := image.ordered
  have hconsecutive := image.consecutive
  simp only [List.mem_cons, List.not_mem_nil, or_false, forall_eq_or_imp,
    forall_eq] at hordered
  unfold KernelImage.kernelStart KernelImage.kernelEnd at h
  have hnone : ∀ part ∈ [image.text, image.rodata, image.data, image.bss,
      image.stack], ¬ part.Holds address := by
    intro part hpart hholds
    unfold Section.Holds at hholds
    simp only [List.mem_cons, List.not_mem_nil, or_false] at hpart
    rcases hpart with rfl | rfl | rfl | rfl | rfl <;> omega
  unfold windowPermissions
  rw [if_neg (hnone _ (by simp)), if_neg (hnone _ (by simp)),
    if_neg (hnone _ (by simp)), if_neg (hnone _ (by simp)),
    if_neg (hnone _ (by simp))]

theorem Fixed.frameWalk (fixed : Fixed image start state)
    (paging : Paging image state)
    (hstatic : start.static image = Contents.initial image contents)
    {frame : Nat} (hlt : frame < 0x40000) (hfree : ¬ Reserved image frame) :
    ∃ translation,
      hardwareWalk image state (platform.frameAddress frame) =
        some translation ∧
      translation.address = platform.frameAddress frame ∧
      readOnly translation.entry = false ∧
      executeNever translation.entry = false := by
  obtain ⟨translation, hwalk, haddress, hentry⟩ :=
    fixed.identityWalk paging hstatic (frameAddress_inRam hlt)
  refine ⟨translation, hwalk, haddress, ?_⟩
  rw [hentry]
  unfold identityEntry
  split
  · have hpage : platform.frameAddress frame -
        platform.frameAddress frame % pageSize =
          platform.frameAddress frame := by
      rw [platform.frameAddress_mod, Nat.sub_zero]
    rw [hpage, windowPermissions_outside (fun h => hfree (.inl h))]
    obtain ⟨hread, hexecute⟩ :=
      pageEntry_permissions (platform.frameAddress frame) attrEl1Rw
    rw [hread, hexecute]
    decide
  · exact blockEntry_permissions _

end

end Planetoid.Memory
