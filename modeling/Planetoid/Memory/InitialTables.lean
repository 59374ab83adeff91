import Planetoid.Memory.Paging

namespace Planetoid.Memory

open Planetoid Program Mmu TableTree MemoryBlockAttributes

/-! The page tables after `MMU::init`. -/

inductive StaticTable where
  | level1
  | level3Kernel
  | level2Low
  | level2High
  deriving DecidableEq, Repr

abbrev Contents := StaticTable → Nat → Nat

namespace Contents

def set (contents : Contents) (table : StaticTable) (index value : Nat) :
    Contents :=
  Function.update contents table
    (Function.update (contents table) index value)

def fill (contents : Contents) (table : StaticTable) (first count : Nat)
    (value : Nat → Nat) : Contents :=
  Function.update contents table fun index =>
    if first ≤ index ∧ index < first + count then value index
    else contents table index

def cleared (contents : Contents) (count : Nat) : Contents :=
  fun table index => if index < count then 0 else contents table index

variable (contents : Contents) {table other : StaticTable}

theorem set_same (table : StaticTable) (index value place : Nat) :
    contents.set table index value table place =
      if place = index then value else contents table place := by
  unfold set
  rw [Function.update_self, Function.update_apply]

theorem set_of_ne (h : other ≠ table) (index value : Nat) :
    contents.set table index value other = contents other :=
  Function.update_of_ne h _ _

theorem fill_same (table : StaticTable) (first count : Nat)
    (value : Nat → Nat) (index : Nat) :
    contents.fill table first count value table index =
      if first ≤ index ∧ index < first + count then value index
      else contents table index := by
  unfold fill
  rw [Function.update_self]

theorem fill_of_ne (h : other ≠ table) (first count : Nat)
    (value : Nat → Nat) :
    contents.fill table first count value other = contents other :=
  Function.update_of_ne h _ _

end Contents

namespace KernelImage

variable {platform : Platform} (image : KernelImage platform)

def tableAddress : StaticTable → Nat
  | .level1 => image.level1Table
  | .level3Kernel => image.level3KernelTable
  | .level2Low => image.level2LowTable
  | .level2High => image.level2HighTable

theorem tableAddress_mem (table : StaticTable) :
    image.tableAddress table ∈ [image.level1Table, image.level3KernelTable,
      image.level2LowTable, image.level2HighTable] := by
  cases table <;> simp [tableAddress]

theorem tableAddress_injective {first second : StaticTable}
    (h : image.tableAddress first = image.tableAddress second) :
    first = second := by
  have hnodup := image.tables_nodup
  simp only [List.nodup_cons, List.mem_cons, List.not_mem_nil, or_false,
    not_or] at hnodup
  obtain ⟨⟨h13, h1l, h1h⟩, ⟨h3l, h3h⟩, hlh, _⟩ := hnodup
  cases first <;> cases second <;> simp only [tableAddress] at h <;>
    first | rfl | exact absurd h ‹_› | exact absurd h.symm ‹_›

def tableFor (address : Nat) : Option StaticTable :=
  if address = image.level1Table then some .level1
  else if address = image.level3KernelTable then some .level3Kernel
  else if address = image.level2LowTable then some .level2Low
  else if address = image.level2HighTable then some .level2High
  else none

theorem tableFor_eq_some {address : Nat} {table : StaticTable} :
    image.tableFor address = some table ↔
      address = image.tableAddress table := by
  unfold tableFor
  constructor
  · intro h
    split at h
    · rw [← Option.some.inj h]
      assumption
    split at h
    · rw [← Option.some.inj h]
      assumption
    split at h
    · rw [← Option.some.inj h]
      assumption
    split at h
    · rw [← Option.some.inj h]
      assumption
    · cases h
  · intro h
    have hsame : ∀ other, address = image.tableAddress other →
        other = table :=
      fun other heq => image.tableAddress_injective (heq.symm.trans h)
    split
    · rw [hsame .level1 ‹_›]
    split
    · rw [hsame .level3Kernel ‹_›]
    split
    · rw [hsame .level2Low ‹_›]
    split
    · rw [hsame .level2High ‹_›]
    · cases table <;> contradiction

end KernelImage

namespace MemoryState

variable {platform : Platform} (image : KernelImage platform)

def static (state : MemoryState) : Contents :=
  fun table => state.tables (image.tableAddress table)

def withStatic (state : MemoryState) (contents : Contents) : MemoryState :=
  { state with tables := fun address =>
      match image.tableFor address with
      | some table => contents table
      | none => state.tables address }

theorem static_withStatic (state : MemoryState) (contents : Contents) :
    (state.withStatic image contents).static image = contents := by
  funext table
  unfold static withStatic
  simp only [image.tableFor_eq_some.mpr rfl]

theorem tables_withStatic (state : MemoryState) (contents : Contents)
    (table : StaticTable) :
    (state.withStatic image contents).tables (image.tableAddress table) =
      contents table :=
  congrFun (static_withStatic image state contents) table

theorem withStatic_static (state : MemoryState) :
    state.withStatic image (state.static image) = state := by
  unfold withStatic static
  congr 1
  funext address
  cases h : image.tableFor address with
  | none => rfl
  | some table => exact congrArg _ (image.tableFor_eq_some.mp h).symm

theorem update_withStatic (state : MemoryState) (contents : Contents)
    (table : StaticTable) (values : Nat → Nat) :
    { state.withStatic image contents with
      tables := Function.update (state.withStatic image contents).tables
        (image.tableAddress table) values } =
      state.withStatic image (Function.update contents table values) := by
  unfold withStatic
  simp only [MemoryState.mk.injEq, true_and, and_true]
  funext address
  by_cases heq : address = image.tableAddress table
  · subst heq
    rw [Function.update_self]
    simp only [image.tableFor_eq_some.mpr rfl, Function.update_self]
  · rw [Function.update_of_ne heq]
    cases h : image.tableFor address with
    | none => rfl
    | some other =>
        have hne : other ≠ table := by
          rintro rfl
          exact heq (image.tableFor_eq_some.mp h)
        simp only [Function.update_of_ne hne]

end MemoryState

namespace Mmu

variable {platform : Platform} (image : KernelImage platform)
  (state : MemoryState) (contents : Contents)

theorem run_setEntry_static (table : StaticTable) (index value : Nat) :
    (setEntry (image.tableAddress table) index value).run
      (state.withStatic image contents) =
        .ok ((), state.withStatic image (contents.set table index value)) := by
  rw [run_setEntry, MemoryState.withEntry, MemoryState.tables_withStatic,
    MemoryState.update_withStatic]
  rfl

theorem run_fill_static (table : StaticTable) {body : Nat → Vm Unit}
    {start first count : Nat} {value : Nat → Nat}
    (h : ∀ step, step < count → body (start + step) =
      setEntry (image.tableAddress table) (first + step)
        (value (first + step))) :
    (forEach body start count).run (state.withStatic image contents) =
      .ok ((), state.withStatic image
        (contents.fill table first count value)) := by
  have hloop := @run_forEach_fill _ Fault _
    (fun current : MemoryState => current.tables (image.tableAddress table))
    (fun values current => { current with
      tables := Function.update current.tables (image.tableAddress table)
        values })
    (fun _ _ => Function.update_self ..)
    (fun _ _ _ => by simp only [Function.update_idem])
    (fun _ => by simp only [Function.update_eq_self])
    body start first count value
    (fun step hstep current => by
      rw [h step hstep, run_setEntry]
      rfl) (state.withStatic image contents)
  rw [hloop, MemoryState.update_withStatic, MemoryState.tables_withStatic]
  rfl

theorem run_clear :
    (forEach (fun i => do
      setEntry image.level1Table i 0
      setEntry image.level3KernelTable i 0
      setEntry image.level2LowTable i 0
      setEntry image.level2HighTable i 0) 0 512).run state =
        .ok ((), state.withStatic image
          ((state.static image).cleared 512)) := by
  have hfirst : state.withStatic image ((state.static image).cleared 0) =
      state := by
    have hnone : (state.static image).cleared 0 = state.static image := by
      funext table index
      exact if_neg (Nat.not_lt_zero index)
    rw [hnone, MemoryState.withStatic_static]
  have hloop := @run_forEach _ _ (fun i => do
      setEntry image.level1Table i 0
      setEntry image.level3KernelTable i 0
      setEntry image.level2LowTable i 0
      setEntry image.level2HighTable i 0)
    (fun count => state.withStatic image
      ((state.static image).cleared count)) 0 512
    (by
      intro index _
      rw [Nat.zero_add]
      refine (run_bind_ok (run_setEntry_static image state _ .level1 index 0)
        _).trans ?_
      refine (run_bind_ok (run_setEntry_static image state _ .level3Kernel
        index 0) _).trans ?_
      refine (run_bind_ok (run_setEntry_static image state _ .level2Low
        index 0) _).trans ?_
      refine (run_setEntry_static image state _ .level2High index 0).trans ?_
      congr 3
      funext table place
      unfold Contents.set Contents.cleared
      by_cases heq : place = index
      · cases table <;> simp [heq]
      · have hlt : place < index + 1 ↔ place < index := by omega
        cases table <;> simp [heq, hlt])
  rw [hfirst] at hloop
  exact hloop

end Mmu

namespace KernelImage

variable {platform : Platform} (image : KernelImage platform)

theorem section_bounds {part : Section}
    (h : part ∈ [image.text, image.rodata, image.data, image.bss,
      image.stack]) :
    platform.kernelBase ≤ part.start ∧
      part.stop ≤ platform.kernelBase + 0x200000 := by
  have hordered := image.ordered
  have hconsecutive := image.consecutive
  have hwindow := image.inWindow
  simp only [List.mem_cons, List.not_mem_nil, or_false, forall_eq_or_imp,
    forall_eq] at h hordered
  rcases h with rfl | rfl | rfl | rfl | rfl <;> omega

def sectionFirst (platform : Platform) (part : Section) : Nat :=
  (part.start - platform.kernelBase) / 0x1000

def sectionCount (part : Section) : Nat :=
  (part.stop - part.start + 0xFFF) / 0x1000

end KernelImage

namespace Contents

variable {platform : Platform}

def windowPage (platform : Platform) (permissions index : Nat) : Nat :=
  makeNormalPageDescriptor (platform.kernelBase + index * 0x1000) permissions

def mapSection (contents : Contents) (platform : Platform) (part : Section)
    (permissions : Nat) : Contents :=
  contents.fill .level3Kernel (KernelImage.sectionFirst platform part)
    (KernelImage.sectionCount part) (windowPage platform permissions)

variable (image : KernelImage platform) (contents : Contents)

def initPi5 : Contents :=
  ((((((contents.set .level1 0 (makeTableDescriptor image.level2LowTable)).set
    .level1 65 (makeTableDescriptor image.level2HighTable)).fill
    .level2Low 0 512 (fun i =>
      makeNormalBlockDescriptor (i * 0x200000) attrEl1Rw)).set
    .level2Low 1 (makeTableDescriptor image.level3KernelTable)).set
    .level2High 488 (makeDeviceBlockDescriptor 0x107D000000
      (attrEl1Rw ||| attrPxn ||| attrUxn))).set
    .level2High 490 (makeDeviceBlockDescriptor 0x107D400000
      (attrEl1Rw ||| attrPxn ||| attrUxn))).set
    .level2High 511 (makeDeviceBlockDescriptor 0x107FE00000
      (attrEl1Rw ||| attrPxn ||| attrUxn))

def initVirt : Contents :=
  (((((contents.set .level1 0 (makeTableDescriptor image.level2LowTable)).set
    .level1 1 (makeTableDescriptor image.level2HighTable)).set
    .level2Low 64 (makeDeviceBlockDescriptor 0x08000000
      (attrEl1Rw ||| attrPxn ||| attrUxn))).set
    .level2Low 72 (makeDeviceBlockDescriptor 0x09000000
      (attrEl1Rw ||| attrPxn ||| attrUxn))).set
    .level2High 0 (makeTableDescriptor image.level3KernelTable)).fill
    .level2High 1 511 (fun i =>
      makeNormalBlockDescriptor (0x40000000 + i * 0x200000) attrEl1Rw)

def mapKernel : Contents :=
  (((((contents.fill .level3Kernel 0 512 (windowPage platform
    attrEl1Rw)).mapSection platform image.text attrEl1Ro).mapSection platform
    image.rodata (attrEl1Ro ||| attrPxn)).mapSection platform
    image.data (attrEl1Rw ||| attrPxn)).mapSection platform
    image.bss (attrEl1Rw ||| attrPxn)).mapSection platform
    image.stack (attrEl1Rw ||| attrPxn)

def initPlatform : Contents :=
  match platform with
  | .pi5 => initPi5 image contents
  | .virt => initVirt image contents

def initial : Contents :=
  mapKernel image (initPlatform image (contents.cleared 512))

end Contents

namespace Mmu

variable {platform : Platform} (image : KernelImage platform)
  (state : MemoryState) (contents : Contents)

theorem run_mapSection {part : Section}
    (hpart : part ∈ [image.text, image.rodata, image.data, image.bss,
      image.stack]) (permissions : Nat) :
    (mapSection image part permissions).run
      (state.withStatic image contents) =
        .ok ((), state.withStatic image
          (contents.mapSection platform part permissions)) := by
  apply run_fill_static image state contents .level3Kernel
  intro step _
  have haligned := image.aligned part hpart
  have hstart := (image.section_bounds hpart).1
  have hindex : (part.start + (0 + step) * 0x1000 - platform.kernelBase) /
      0x1000 = KernelImage.sectionFirst platform part + step := by
    unfold KernelImage.sectionFirst
    omega
  have hbase : platform.kernelBase % 0x1000 = 0 := by
    cases platform <;> rfl
  have haddress : part.start + (0 + step) * 0x1000 =
      platform.kernelBase +
        (KernelImage.sectionFirst platform part + step) * 0x1000 := by
    unfold KernelImage.sectionFirst
    unfold pageSize at haligned
    omega
  simp only [hindex]
  rw [Contents.windowPage, ← haddress]
  rfl

theorem run_initPi5 :
    (initPi5 image).run (state.withStatic image contents) =
      .ok ((), state.withStatic image (contents.initPi5 image)) := by
  unfold initPi5
  refine (run_bind_ok (run_setEntry_static image state _ .level1 0 _)
    _).trans ?_
  refine (run_bind_ok (run_setEntry_static image state _ .level1 65 _)
    _).trans ?_
  refine (run_bind_ok (@run_fill_static _ image state _ .level2Low _ 0 0 512
    (fun i => makeNormalBlockDescriptor (i * 0x200000) attrEl1Rw)
    fun _ _ => rfl) _).trans ?_
  refine (run_bind_ok (run_setEntry_static image state _ .level2Low 1 _)
    _).trans ?_
  refine (run_bind_ok (run_setEntry_static image state _ .level2High 488 _)
    _).trans ?_
  refine (run_bind_ok (run_setEntry_static image state _ .level2High 490 _)
    _).trans ?_
  exact run_setEntry_static image state _ .level2High 511 _

theorem run_initVirt :
    (initVirt image).run (state.withStatic image contents) =
      .ok ((), state.withStatic image (contents.initVirt image)) := by
  unfold initVirt
  refine (run_bind_ok (run_setEntry_static image state _ .level1 0 _)
    _).trans ?_
  refine (run_bind_ok (run_setEntry_static image state _ .level1 1 _)
    _).trans ?_
  refine (run_bind_ok (run_setEntry_static image state _ .level2Low 64 _)
    _).trans ?_
  refine (run_bind_ok (run_setEntry_static image state _ .level2Low 72 _)
    _).trans ?_
  refine (run_bind_ok (run_setEntry_static image state _ .level2High 0 _)
    _).trans ?_
  exact @run_fill_static _ image state _ .level2High _ 1 1 511
    (fun i => makeNormalBlockDescriptor (0x40000000 + i * 0x200000) attrEl1Rw)
    fun _ _ => rfl

theorem run_init :
    (init image).run state = .ok ((), { state.withStatic image
      (Contents.initial image (state.static image)) with
        tlb := fun _ => none }) := by
  have hplatform : ∀ contents, (initPlatform image).run
      (state.withStatic image contents) =
        .ok ((), state.withStatic image (contents.initPlatform image)) := by
    intro contents
    cases platform with
    | virt => exact run_initVirt image state contents
    | pi5 => exact run_initPi5 image state contents
  unfold init
  refine (run_bind_ok (run_clear image state) _).trans ?_
  refine (run_bind_ok (hplatform _) _).trans ?_
  refine (run_bind_ok (@run_fill_static _ image state _ .level3Kernel _ 0 0
    512 (Contents.windowPage platform attrEl1Rw)
    fun _ _ => rfl) _).trans ?_
  refine (run_bind_ok (@run_mapSection _ image state _ image.text (by simp)
    _) _).trans ?_
  refine (run_bind_ok (@run_mapSection _ image state _ image.rodata (by simp)
    _) _).trans ?_
  refine (run_bind_ok (@run_mapSection _ image state _ image.data (by simp)
    _) _).trans ?_
  refine (run_bind_ok (@run_mapSection _ image state _ image.bss (by simp)
    _) _).trans ?_
  refine (run_bind_ok (@run_mapSection _ image state _ image.stack (by simp)
    _) _).trans ?_
  rfl

end Mmu

end Planetoid.Memory
