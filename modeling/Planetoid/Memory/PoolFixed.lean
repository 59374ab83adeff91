import Mathlib.Data.Finset.Card
import Planetoid.Memory.HardwareWalk
import Planetoid.Memory.PoolOperations

namespace Planetoid.Memory

open Planetoid Program Mmu TableTree VirtualMemory

/-! What the operations on the pool leave as the initialisation made it, and
how many frames they use at most. -/

def InRam (platform : Platform) (address : Nat) : Prop :=
  platform.physicalMemoryBase ≤ address ∧
    address < platform.physicalMemoryBase + 0x40000000

def PoolNode (node : Node (Fin 512)) : Prop :=
  node = .second poolIndex ∨
    ∃ j : Fin 512, j.val < 8 ∧ node = .third poolIndex j

/-- More frames than the kernel, the pool and its tables ever use. -/
def lowFrames : Nat := 0x2000

section

variable {platform : Platform} (image : KernelImage platform)

structure Fixed (start state : MemoryState) : Prop where
  second : ∀ i, i ≠ poolIndex →
    tableAt image state (.second i) = tableAt image start (.second i)
  block : ∀ i j, i ≠ poolIndex →
    blockAt image state i j = blockAt image start i j
  leaf : ∀ i j k, i ≠ poolIndex →
    leafAt image state i j k = leafAt image start i j k
  tables : ∀ node address, tableAt image state node = some address →
    (∃ table, image.tableAddress table = address) ∨ PoolNode node
  low : ∀ frame, frame < state.frameCount → state.used frame = true →
    frame < lowFrames

/-- A state in the middle of an operation, which differs from `before` by at
most one more frame in use and by tables that the tree does not link. -/
structure Near (before after : MemoryState) : Prop
    extends SameTables image before after where
  leafAt : leafAt image after = leafAt image before
  extra : ∃ extra, ∀ frame, after.used frame = true →
    before.used frame = true ∨ frame = extra

end

section

variable {platform : Platform} {image : KernelImage platform}
  {start before state : MemoryState} {held : Option Nat}

theorem Near.refl (state : MemoryState) : Near image state state where
  tableAt := fun _ => rfl
  level1 := fun _ => rfl
  level2 := fun _ _ _ => rfl
  used := fun _ h => h
  frameCount := rfl
  leafAt := rfl
  extra := ⟨0, fun _ h => .inl h⟩

theorem SameTables.blockAt (same : SameTables image before state)
    (i j : Fin 512) : blockAt image state i j = blockAt image before i j := by
  unfold Memory.blockAt
  rw [same.tableAt]
  cases h : Memory.tableAt image before (.second i) with
  | none => rfl
  | some table => exact congrFun (same.level2 i table h) j

theorem frameAddress_inRam {frame : Nat} (h : frame < 0x40000) :
    InRam platform (platform.frameAddress frame) := by
  unfold InRam Platform.frameAddress pageSize
  omega

theorem frameAddress_inRam_of_low {frame : Nat} (h : frame < lowFrames) :
    InRam platform (platform.frameAddress frame) :=
  frameAddress_inRam (Nat.lt_trans h (by decide))

theorem reserved_lt {frame : Nat} (h : Reserved image frame) :
    frame < 1024 := by
  obtain ⟨hbase, _, hend, _⟩ := image.kernel_bounds
  unfold Reserved Platform.frameAddress pageSize at h
  rcases h with ⟨_, hlt⟩ | ⟨rfl, hlt⟩
  · omega
  · unfold Platform.physicalMemoryBase at *
    simp only at *
    omega

def frameOf (platform : Platform) (address : Nat) : Nat :=
  PhysicalMemory.getFrameNumber platform address

@[simp] theorem frameOf_frameAddress (frame : Nat) :
    frameOf platform (platform.frameAddress frame) = frame :=
  platform.getFrameNumber_frameAddress frame

def poolNode (index : Nat) : Node (Fin 512) :=
  if index = 8 then .second poolIndex
  else .third poolIndex (Fin.ofNat 512 index)

theorem PoolNode.exists_index {node : Node (Fin 512)} (h : PoolNode node) :
    ∃ index, index < 9 ∧ poolNode index = node := by
  rcases h with rfl | ⟨j, hj, rfl⟩
  · exact ⟨8, by decide, rfl⟩
  · refine ⟨j, by omega, ?_⟩
    have hmod : Fin.ofNat 512 j = j := Fin.ext (Nat.mod_eq_of_lt j.isLt)
    unfold poolNode
    rw [if_neg (by omega), hmod]

theorem nextFrame_low (sound : Sound image before held)
    (fixed : Fixed image start before) (near : Near image before state)
    {frame : Nat} (hnext : state.nextFrame = some frame) :
    frame < lowFrames := by
  by_contra hhigh
  obtain ⟨extra, hextra⟩ := near.extra
  have hlt := MemoryState.nextFrame_lt hnext
  rw [near.frameCount] at hlt
  have hused : ∀ other, other < lowFrames → state.used other = true := by
    intro other hother
    unfold MemoryState.nextFrame at hnext
    rw [List.find?_range'_eq_some] at hnext
    simpa using hnext.2.2 other (Nat.zero_le _) (by omega)
  let kernel := Finset.range 1024
  let pages := (Finset.range virtualPageCount).image fun page =>
    frameOf platform (poolLeaf image before page &&& addressMask)
  let tables := (Finset.range 9).image fun index =>
    frameOf platform ((tableAt image before (poolNode index)).getD 0)
  let others := (Finset.range 2).image fun index =>
    if index = 0 then extra else held.getD 0
  have hsubset : Finset.range lowFrames ⊆
      kernel ∪ (pages ∪ (tables ∪ others)) := by
    intro other hother
    rw [Finset.mem_range] at hother
    have hcount : other < before.frameCount := by omega
    simp only [Finset.mem_union]
    rcases hextra other (hused other hother) with hbefore | rfl
    · cases (sound.used_iff other hcount).mp hbefore with
      | reserved h => exact .inl (Finset.mem_range.mpr (reserved_lt h))
      | mapped hpage h =>
          refine .inr (.inl (Finset.mem_image.mpr
            ⟨_, Finset.mem_range.mpr hpage, ?_⟩))
          rw [show poolLeaf image before _ = poolDescriptor platform other
            from h, poolDescriptor_address sound.paging hcount,
            frameOf_frameAddress]
      | table h =>
          rcases fixed.tables _ _ h with ⟨table, htable⟩ | hnode
          · obtain ⟨place, hplace, hbound⟩ := image.tableAddress_frame table
            rw [htable] at hplace
            rw [platform.frameAddress_injective hplace] at hbound
            exact .inl (Finset.mem_range.mpr hbound)
          · obtain ⟨index, hindex, rfl⟩ := hnode.exists_index
            refine .inr (.inr (.inl (Finset.mem_image.mpr
              ⟨index, Finset.mem_range.mpr hindex, ?_⟩)))
            rw [h]
            exact frameOf_frameAddress other
      | held h =>
          refine .inr (.inr (.inr (Finset.mem_image.mpr
            ⟨1, by decide, ?_⟩)))
          rw [h]
          rfl
    · exact .inr (.inr (.inr (Finset.mem_image.mpr ⟨0, by decide, rfl⟩)))
  have hcard := Finset.card_le_card hsubset
  have hunion₁ := Finset.card_union_le kernel (pages ∪ (tables ∪ others))
  have hunion₂ := Finset.card_union_le pages (tables ∪ others)
  have hunion₃ := Finset.card_union_le tables others
  have hkernel : kernel.card = 1024 := Finset.card_range 1024
  have hpages : pages.card ≤ virtualPageCount :=
    Finset.card_image_le.trans (Finset.card_range _).le
  have htables : tables.card ≤ 9 :=
    Finset.card_image_le.trans (Finset.card_range _).le
  have hothers : others.card ≤ 2 :=
    Finset.card_image_le.trans (Finset.card_range _).le
  rw [Finset.card_range] at hcard
  rw [virtualPageCount_eq] at hpages
  unfold lowFrames at hcard
  omega

theorem fixed_initial {contents : Contents}
    (hstatic : start.static image = Contents.initial image contents)
    (hcount : start.frameCount = frameTotal platform)
    (hreserved : ∀ frame, frame < frameTotal platform →
      (start.used frame = true ↔ Reserved image frame)) :
    Fixed image start start where
  second := fun _ _ => rfl
  block := fun _ _ _ => rfl
  leaf := fun _ _ _ _ => rfl
  tables := by
    intro node address htable
    obtain ⟨table, _, heq⟩ := (tableAt_initial hstatic node address).mp htable
    exact .inl ⟨table, heq⟩
  low := by
    intro frame hlt hused
    rw [hcount] at hlt
    exact Nat.lt_trans (reserved_lt ((hreserved frame hlt).mp hused))
      (by decide)

end

end Planetoid.Memory
