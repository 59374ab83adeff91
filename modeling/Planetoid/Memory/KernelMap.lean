import Planetoid.Base.Assertions
import Planetoid.Memory.Hardening

namespace Planetoid.Memory

open Planetoid Program Mmu TableTree MemoryBlockAttributes Arch

/-! The page tables that `MMU::init` leaves, for every layout of the
sections. -/

def KernelImage.sections (image : KernelImage platform) : List Section :=
  [image.text, image.rodata, image.data, image.bss, image.stack]

/-- The index that the pass over a section writes in one of its steps. -/
def passIndex (platform : Platform) (part : Section) (step : Nat) : Nat :=
  (part.start + step * 0x1000 - platform.kernelBase) / 0x1000

def InWindow (platform : Platform) (address : Nat) : Prop :=
  platform.kernelBase ≤ address ∧ address < platform.kernelBase + 0x200000

/-- The page of an address holds a byte of the section. -/
def Section.Shares (part : Section) (address : Nat) : Prop :=
  ∃ byte, part.Holds byte ∧ byte / pageSize = address / pageSize

section

variable {platform : Platform} (image : KernelImage platform)

def BehindTable (contents : Nat → Nat) (state : MemoryState) : Prop :=
  ∀ index, 512 ≤ index →
    state.tables image.level3KernelTable index = contents index

/-- Where the pages of a section are mapped one-to-one with permissions. -/
def MappedAs (state : MemoryState) (part : Section)
    (isReadOnly isNever : Bool) : Prop :=
  ∀ address, part.Shares address → ∃ translation,
    hardwareWalk image state address = some translation ∧
    translation.address = address ∧
    readOnly translation.entry = isReadOnly ∧
    executeNever translation.entry = isNever

structure KernelMapped (state : MemoryState) : Prop where
  /-- No access of `MMU::init` is behind the end of the table. -/
  bounded : ∀ contents, (Mmu.init image).Keeps (BehindTable image contents)
  indices : ∀ part ∈ image.sections, ∀ step,
    step < KernelImage.sectionCount part → passIndex platform part step < 512
  /-- No pass writes an entry that another one writes. -/
  apart : image.sections.Pairwise fun first second => ∀ step other,
    step < KernelImage.sectionCount first →
    other < KernelImage.sectionCount second →
    passIndex platform first step ≠ passIndex platform second other
  identity : ∀ address, InWindow platform address ∨ InRam platform address →
    ∃ translation, hardwareWalk image state address = some translation ∧
      translation.address = address
  text : MappedAs image state image.text true false
  rodata : MappedAs image state image.rodata true true
  data : ∀ part ∈ [image.data, image.bss, image.stack],
    MappedAs image state part false true

end

section

variable {platform : Platform} {image : KernelImage platform}
  {state after : MemoryState}

theorem mapSection_eq (part : Section) (permissions : Nat) :
    mapSection image part permissions =
      forEach (fun step => setEntry image.level3KernelTable
        (passIndex platform part step) (makeNormalPageDescriptor
          (part.start + step * 0x1000) permissions))
        0 (KernelImage.sectionCount part) := rfl

theorem passIndex_lt {part : Section} (hpart : part ∈ image.sections)
    {step : Nat} (hstep : step < KernelImage.sectionCount part) :
    passIndex platform part step < 512 := by
  obtain ⟨hstart, hstop⟩ := image.section_bounds hpart
  have haligned := image.aligned part hpart
  have hbase := kernelBase_mod platform
  unfold KernelImage.sectionCount at hstep
  unfold passIndex
  unfold pageSize at haligned
  omega

theorem passIndex_ne {first second : Section}
    (hfirst : first ∈ image.sections) (hsecond : second ∈ image.sections)
    (h : first.stop ≤ second.start) {step other : Nat}
    (hstep : step < KernelImage.sectionCount first) :
    passIndex platform first step ≠ passIndex platform second other := by
  obtain ⟨hlow, _⟩ := image.section_bounds hfirst
  obtain ⟨hlow', _⟩ := image.section_bounds hsecond
  have haligned := image.aligned first hfirst
  have haligned' := image.aligned second hsecond
  have hbase := kernelBase_mod platform
  unfold KernelImage.sectionCount at hstep
  unfold passIndex
  unfold pageSize at haligned haligned'
  omega

theorem sections_pairwise (image : KernelImage platform) :
    image.sections.Pairwise fun first second => first.stop ≤ second.start := by
  have hordered := image.ordered
  have hconsecutive := image.consecutive
  unfold KernelImage.sections
  simp only [List.mem_cons, List.not_mem_nil, or_false, forall_eq_or_imp,
    forall_eq, List.pairwise_cons, List.Pairwise.nil, and_true,
    IsEmpty.forall_iff, implies_true] at hordered ⊢
  omega

theorem keeps_setEntry {contents : Nat → Nat} {table index value : Nat}
    (h : table = image.level3KernelTable → index < 512) :
    (setEntry table index value).Keeps (BehindTable image contents) := by
  apply keeps_write
  intro current hcurrent place hplace
  rw [← hcurrent place hplace]
  change Function.update current.tables table
    (Function.update (current.tables table) index value)
      image.level3KernelTable place = _
  by_cases htable : table = image.level3KernelTable
  · have hindex := h htable
    subst htable
    rw [Function.update_self, Function.update_of_ne (by omega)]
  · rw [Function.update_of_ne (Ne.symm htable)]

theorem keeps_mapSection {contents : Nat → Nat} {part : Section}
    (hpart : part ∈ image.sections) (permissions : Nat) :
    (mapSection image part permissions).Keeps
      (BehindTable image contents) := by
  rw [mapSection_eq]
  apply keeps_forEach
  intro step _ hstep
  exact keeps_setEntry fun _ => passIndex_lt hpart (by omega)

theorem table_ne_level3Kernel (image : KernelImage platform) :
    image.level1Table ≠ image.level3KernelTable ∧
      image.level2LowTable ≠ image.level3KernelTable ∧
      image.level2HighTable ≠ image.level3KernelTable := by
  have hnodup := image.tables_nodup
  simp only [List.nodup_cons, List.mem_cons, List.not_mem_nil, or_false,
    not_or] at hnodup
  exact ⟨hnodup.1.1, Ne.symm hnodup.2.1.1, Ne.symm hnodup.2.1.2⟩

theorem keeps_initPlatform (image : KernelImage platform)
    (contents : Nat → Nat) :
    (initPlatform image).Keeps (BehindTable image contents) := by
  obtain ⟨hfirst, hlow, hhigh⟩ := table_ne_level3Kernel image
  cases platform with
  | virt =>
      refine keeps_bind (keeps_setEntry fun h => absurd h hfirst) fun _ => ?_
      refine keeps_bind (keeps_setEntry fun h => absurd h hfirst) fun _ => ?_
      refine keeps_bind (keeps_setEntry fun h => absurd h hlow) fun _ => ?_
      refine keeps_bind (keeps_setEntry fun h => absurd h hlow) fun _ => ?_
      refine keeps_bind (keeps_setEntry fun h => absurd h hhigh) fun _ => ?_
      exact keeps_forEach fun _ _ _ => keeps_setEntry fun h => absurd h hhigh
  | pi5 =>
      refine keeps_bind (keeps_setEntry fun h => absurd h hfirst) fun _ => ?_
      refine keeps_bind (keeps_setEntry fun h => absurd h hfirst) fun _ => ?_
      refine keeps_bind (keeps_forEach fun _ _ _ =>
        keeps_setEntry fun h => absurd h hlow) fun _ => ?_
      refine keeps_bind (keeps_setEntry fun h => absurd h hlow) fun _ => ?_
      refine keeps_bind (keeps_setEntry fun h => absurd h hhigh) fun _ => ?_
      refine keeps_bind (keeps_setEntry fun h => absurd h hhigh) fun _ => ?_
      exact keeps_setEntry fun h => absurd h hhigh

theorem keeps_init (image : KernelImage platform) (contents : Nat → Nat) :
    (Mmu.init image).Keeps (BehindTable image contents) := by
  obtain ⟨hfirst, hlow, hhigh⟩ := table_ne_level3Kernel image
  have hsection := fun part hpart permissions =>
    @keeps_mapSection _ image contents part hpart permissions
  refine keeps_bind (keeps_forEach fun index _ hindex => ?_) fun _ => ?_
  · refine keeps_bind (keeps_setEntry fun h => absurd h hfirst) fun _ => ?_
    refine keeps_bind (keeps_setEntry fun _ => by omega) fun _ => ?_
    refine keeps_bind (keeps_setEntry fun h => absurd h hlow) fun _ => ?_
    exact keeps_setEntry fun h => absurd h hhigh
  refine keeps_bind (keeps_initPlatform image contents) fun _ => ?_
  refine keeps_bind (keeps_forEach fun index _ hindex =>
    keeps_setEntry fun _ => by omega) fun _ => ?_
  refine keeps_bind (hsection _ (by simp [KernelImage.sections]) _) fun _ => ?_
  refine keeps_bind (hsection _ (by simp [KernelImage.sections]) _) fun _ => ?_
  refine keeps_bind (hsection _ (by simp [KernelImage.sections]) _) fun _ => ?_
  refine keeps_bind (hsection _ (by simp [KernelImage.sections]) _) fun _ => ?_
  refine keeps_bind (hsection _ (by simp [KernelImage.sections]) _) fun _ => ?_
  exact keeps_write fun _ h => h

theorem tables_initMemory
    (hrun : (Mmu.init image).run state = .ok ((), after)) :
    ∃ final, (initMemory image).run state = .ok ((), final) ∧
      final.tables = after.tables := by
  obtain ⟨hbase, hend, _, _⟩ := image.kernel_bounds
  obtain ⟨physical, hphysical, _⟩ := PhysicalMemory.run_init platform
    platform.memoryMap hbase hend after
  obtain ⟨bitmap, hvirtual, _⟩ := VirtualMemory.run_init
    { after with
      physicalBitmap := physical
      frameCount := PhysicalMemory.usableCount platform.memoryMap }
  refine ⟨_, (run_bind_ok hrun _).trans ((run_bind_ok hphysical _).trans
    hvirtual), rfl⟩

theorem InWindow.inRam {address : Nat} (h : InWindow platform address) :
    InRam platform address := by
  unfold InWindow at h
  unfold InRam
  cases platform with
  | virt =>
      have hbase : Platform.physicalMemoryBase .virt = 0x40000000 := rfl
      have hkernel : Platform.kernelBase .virt = 0x40000000 := rfl
      omega
  | pi5 =>
      have hbase : Platform.physicalMemoryBase .pi5 = 0 := rfl
      have hkernel : Platform.kernelBase .pi5 = 0x200000 := rfl
      omega

theorem identityWalk_init
    (hrun : (Mmu.init image).run state = .ok ((), after)) {address : Nat}
    (hram : InRam platform address) :
    ∃ translation, hardwareWalk image after address = some translation ∧
      translation.address = address ∧
      translation.entry = identityEntry image address := by
  obtain ⟨final, hfinal, htables⟩ := tables_initMemory hrun
  obtain ⟨other, hother, sound, hcount, hreserved, hstatic, _⟩ :=
    run_initMemory image state
  cases hother.symm.trans hfinal
  have hwalk := (fixed_initial hstatic hcount hreserved).identityWalk
    sound.paging hstatic hram
  unfold hardwareWalk at hwalk ⊢
  rw [htables] at hwalk
  exact hwalk

theorem Section.Shares.backs {part : Section} (hpart : part ∈ image.sections)
    {address : Nat} (h : part.Shares address) : part.Backs address := by
  obtain ⟨byte, hholds, hpage⟩ := h
  have haligned := image.aligned part hpart
  unfold Section.Holds at hholds
  unfold Section.Backs Section.Holds
  unfold pageSize at *
  omega

theorem windowPermissions_rodata {address : Nat}
    (h : image.rodata.Holds address) :
    windowPermissions image address = attrEl1Ro ||| attrPxn := by
  have hordered := image.ordered
  have hconsecutive := image.consecutive
  simp only [List.mem_cons, List.not_mem_nil, or_false, forall_eq_or_imp,
    forall_eq] at hordered
  have hnone : ∀ part ∈ [image.data, image.bss, image.stack],
      ¬ part.Holds address := by
    intro part hpart hholds
    unfold Section.Holds at h hholds
    simp only [List.mem_cons, List.not_mem_nil, or_false] at hpart
    rcases hpart with rfl | rfl | rfl <;> omega
  unfold windowPermissions
  rw [if_neg (hnone _ (by simp)), if_neg (hnone _ (by simp)),
    if_neg (hnone _ (by simp)), if_pos h]

theorem mappedAs_init (hrun : (Mmu.init image).run state = .ok ((), after))
    {part : Section} (hpart : part ∈ image.sections) {permissions : Nat}
    (h : ∀ address, part.Holds address →
      windowPermissions image address = permissions) :
    MappedAs image after part (permissions.testBit 7)
      (permissions.testBit 53) := by
  intro address hshares
  have hbacks := hshares.backs hpart
  obtain ⟨hram, _, hentry⟩ := hbacks.window hpart
  obtain ⟨translation, hwalk, haddress, hidentity⟩ :=
    identityWalk_init hrun hram
  obtain ⟨hread, hnever⟩ := pageEntry_permissions
    (address - address % pageSize)
    (windowPermissions image (address - address % pageSize))
  refine ⟨translation, hwalk, haddress, ?_, ?_⟩
  · rw [hidentity, hentry, hread, h _ hbacks]
  · rw [hidentity, hentry, hnever, h _ hbacks]

/-- After `MMU::init` the memory of the kernel is mapped one-to-one, with the
permissions of its sections. -/
theorem init_kernelMapped (image : KernelImage platform)
    (state : MemoryState) :
    ∃ after, (Mmu.init image).run state = .ok ((), after) ∧
      KernelMapped image after := by
  have hrun := Mmu.run_init image state
  refine ⟨_, hrun, ?_⟩
  constructor
  · exact keeps_init image
  · exact fun part hpart step => passIndex_lt hpart
  · have hpairs := sections_pairwise image
    refine List.Pairwise.imp_of_mem ?_ hpairs
    intro first second hfirst hsecond hstop step other hstep _
    exact passIndex_ne hfirst hsecond hstop hstep
  · intro address h
    obtain ⟨translation, hwalk, haddress, _⟩ :=
      identityWalk_init hrun (h.elim InWindow.inRam id)
    exact ⟨translation, hwalk, haddress⟩
  · exact mappedAs_init hrun (by simp [KernelImage.sections])
      fun _ => windowPermissions_text
  · exact mappedAs_init hrun (by simp [KernelImage.sections])
      fun _ => windowPermissions_rodata
  · intro part hpart
    have hmem : part ∈ image.sections :=
      List.mem_cons_of_mem _ (List.mem_cons_of_mem _ hpart)
    exact mappedAs_init hrun hmem fun _ => windowPermissions_data hpart

end

end Planetoid.Memory
