import Planetoid.Memory.Frames

namespace Planetoid.Memory.Mmu

open Planetoid Program MemoryBlockAttributes

/-! Page-table entries, and the parts of a virtual address. -/

theorem land_addressMask {address : Nat} (haligned : address % pageSize = 0)
    (hlt : address < 2 ^ 48) : address &&& addressMask = address := by
  obtain ⟨page, rfl⟩ := Nat.dvd_of_mod_eq_zero haligned
  have hpage : page < 2 ^ 36 := by
    unfold pageSize at hlt
    omega
  have hshift : pageSize * page = page <<< 12 := by
    rw [Nat.shiftLeft_eq, Nat.mul_comm]
    rfl
  have hmask : addressMask = (2 ^ 36 - 1) <<< 12 := by decide
  rw [hshift, hmask, ← Nat.shiftLeft_and_distrib, Nat.and_two_pow_sub_one_eq_mod,
    Nat.mod_eq_of_lt hpage]

theorem lor_land_addressMask {flags : Nat} (hflags : flags &&& addressMask = 0)
    (address : Nat) :
    ((address &&& addressMask) ||| flags) &&& addressMask =
      address &&& addressMask := by
  rw [Nat.and_or_distrib_right, Nat.and_assoc, Nat.and_self, hflags,
    Nat.or_zero]

theorem lor_land_type (address flags : Nat) :
    ((address &&& addressMask) ||| flags) &&& 0b11 = flags &&& 0b11 := by
  have hmask : addressMask &&& 0b11 = 0 := by decide
  rw [Nat.and_or_distrib_right, Nat.and_assoc, hmask, Nat.and_zero,
    Nat.zero_or]

def Addressable (address : Nat) : Prop :=
  address % pageSize = 0 ∧ address < 2 ^ 48

theorem makeTableDescriptor_type (address : Nat) :
    makeTableDescriptor address &&& 0b11 = tableDescriptor :=
  lor_land_type address tableDescriptor

theorem makeTableDescriptor_address {address : Nat}
    (h : Addressable address) :
    makeTableDescriptor address &&& addressMask = address :=
  (lor_land_addressMask (by decide) address).trans
    (land_addressMask h.1 h.2)

theorem ne_zero_of_type {entry type : Nat} (h : entry &&& 0b11 = type)
    (htype : type ≠ 0) : entry ≠ 0 := by
  rintro rfl
  exact htype (h.symm.trans (Nat.zero_and _))

def normalPageFlags (permissions : Nat) : Nat :=
  pageDescriptor ||| attrNormalMemory ||| attrAccess ||| attrShareable |||
    permissions

theorem makeNormalPageDescriptor_eq (address permissions : Nat) :
    makeNormalPageDescriptor address permissions =
      (address &&& addressMask) ||| normalPageFlags permissions := by
  unfold makeNormalPageDescriptor normalPageFlags
  simp only [Nat.or_assoc]

theorem makeNormalPageDescriptor_type {permissions : Nat}
    (h : permissions &&& 0b11 = 0) (address : Nat) :
    makeNormalPageDescriptor address permissions &&& 0b11 =
      pageDescriptor := by
  rw [makeNormalPageDescriptor_eq, lor_land_type, normalPageFlags,
    Nat.and_or_distrib_right, h]
  decide

theorem makeNormalPageDescriptor_address {address permissions : Nat}
    (h : permissions &&& addressMask = 0) (haddress : Addressable address) :
    makeNormalPageDescriptor address permissions &&& addressMask =
      address := by
  have hflags : normalPageFlags permissions &&& addressMask = 0 := by
    rw [normalPageFlags, Nat.and_or_distrib_right, h]
    decide
  rw [makeNormalPageDescriptor_eq, lor_land_addressMask hflags,
    land_addressMask haddress.1 haddress.2]

def devicePageFlags (permissions : Nat) : Nat :=
  pageDescriptor ||| attrDeviceMemory ||| attrAccess ||| permissions

theorem makeDevicePageDescriptor_eq (address permissions : Nat) :
    makeDevicePageDescriptor address permissions =
      (address &&& addressMask) ||| devicePageFlags permissions := by
  unfold makeDevicePageDescriptor devicePageFlags
  simp only [Nat.or_assoc]

theorem makePageDescriptor_type {permissions : Nat}
    (h : permissions &&& 0b11 = 0) (memoryType : EMemoryType)
    (address : Nat) :
    makePageDescriptor memoryType address permissions &&& 0b11 =
      pageDescriptor := by
  cases memoryType with
  | normal => exact makeNormalPageDescriptor_type h address
  | device =>
      unfold makePageDescriptor
      rw [makeDevicePageDescriptor_eq, lor_land_type, devicePageFlags,
        Nat.and_or_distrib_right, h]
      decide

theorem makePageDescriptor_address {address permissions : Nat}
    (h : permissions &&& addressMask = 0) (haddress : Addressable address)
    (memoryType : EMemoryType) :
    makePageDescriptor memoryType address permissions &&& addressMask =
      address := by
  cases memoryType with
  | normal => exact makeNormalPageDescriptor_address h haddress
  | device =>
      have hflags : devicePageFlags permissions &&& addressMask = 0 := by
        rw [devicePageFlags, Nat.and_or_distrib_right, h]
        decide
      unfold makePageDescriptor
      rw [makeDevicePageDescriptor_eq, lor_land_addressMask hflags,
        land_addressMask haddress.1 haddress.2]

theorem getLevel1Index_eq (virtualAddress : Nat) :
    getLevel1Index virtualAddress = virtualAddress / 2 ^ 30 % 512 := by
  unfold getLevel1Index
  rw [Nat.shiftRight_eq_div_pow]
  exact Nat.and_two_pow_sub_one_eq_mod _ 9

theorem getLevel2Index_eq (virtualAddress : Nat) :
    getLevel2Index virtualAddress = virtualAddress / 2 ^ 21 % 512 := by
  unfold getLevel2Index
  rw [Nat.shiftRight_eq_div_pow]
  exact Nat.and_two_pow_sub_one_eq_mod _ 9

theorem getLevel3Index_eq (virtualAddress : Nat) :
    getLevel3Index virtualAddress = virtualAddress / 2 ^ 12 % 512 := by
  unfold getLevel3Index
  rw [Nat.shiftRight_eq_div_pow]
  exact Nat.and_two_pow_sub_one_eq_mod _ 9

theorem land_page_mask (address : Nat) :
    address &&& 0xFFF = address % pageSize :=
  Nat.and_two_pow_sub_one_eq_mod address 12

instance tableSize_neZero : NeZero 512 := ⟨by decide⟩

/-- The indices of a virtual address in the tables of the three levels. -/
def level1Of (virtualAddress : Nat) : Fin 512 :=
  ⟨getLevel1Index virtualAddress, by
    rw [getLevel1Index_eq]
    exact Nat.mod_lt _ (by decide)⟩

def level2Of (virtualAddress : Nat) : Fin 512 :=
  ⟨getLevel2Index virtualAddress, by
    rw [getLevel2Index_eq]
    exact Nat.mod_lt _ (by decide)⟩

def level3Of (virtualAddress : Nat) : Fin 512 :=
  ⟨getLevel3Index virtualAddress, by
    rw [getLevel3Index_eq]
    exact Nat.mod_lt _ (by decide)⟩

theorem page_eq_of_path {first second : Nat} (hfirst : first < 2 ^ 39)
    (hsecond : second < 2 ^ 39)
    (h : level1Of first = level1Of second ∧
      level2Of first = level2Of second ∧ level3Of first = level3Of second) :
    first / pageSize = second / pageSize := by
  have hlevel1 := congrArg Fin.val h.1
  have hlevel2 := congrArg Fin.val h.2.1
  have hlevel3 := congrArg Fin.val h.2.2
  change getLevel1Index _ = getLevel1Index _ at hlevel1
  change getLevel2Index _ = getLevel2Index _ at hlevel2
  change getLevel3Index _ = getLevel3Index _ at hlevel3
  rw [getLevel1Index_eq, getLevel1Index_eq] at hlevel1
  rw [getLevel2Index_eq, getLevel2Index_eq] at hlevel2
  rw [getLevel3Index_eq, getLevel3Index_eq] at hlevel3
  unfold pageSize
  omega

theorem path_eq_of_page {first second : Nat}
    (h : first / pageSize = second / pageSize) :
    level1Of first = level1Of second ∧ level2Of first = level2Of second ∧
      level3Of first = level3Of second := by
  unfold pageSize at h
  refine ⟨Fin.ext ?_, Fin.ext ?_, Fin.ext ?_⟩
  · change getLevel1Index _ = getLevel1Index _
    rw [getLevel1Index_eq, getLevel1Index_eq]
    omega
  · change getLevel2Index _ = getLevel2Index _
    rw [getLevel2Index_eq, getLevel2Index_eq]
    omega
  · change getLevel3Index _ = getLevel3Index _
    rw [getLevel3Index_eq, getLevel3Index_eq]
    omega

end Planetoid.Memory.Mmu
