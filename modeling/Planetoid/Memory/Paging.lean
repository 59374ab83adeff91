import Planetoid.Base.TableTree
import Planetoid.Memory.Descriptors

namespace Planetoid.Memory

open Planetoid Program Mmu TableTree

/-! The tree of page tables. -/

def child (entry : Nat) : Option Nat :=
  if entry &&& 0b11 = tableDescriptor then some (entry &&& addressMask)
  else none

@[simp] theorem child_zero : child 0 = none := rfl

theorem child_makeTableDescriptor {address : Nat} (h : Addressable address) :
    child (makeTableDescriptor address) = some address := by
  rw [child, if_pos (makeTableDescriptor_type address),
    makeTableDescriptor_address h]

namespace MemoryState

def entries (state : MemoryState) (table : Nat) (index : Fin 512) : Nat :=
  state.tables table index

def withEntry (state : MemoryState) (table index value : Nat) :
    MemoryState :=
  { state with
    tables := Function.update state.tables table
      (Function.update (state.tables table) index value) }

def flush (state : MemoryState) (virtualAddress : Nat) : MemoryState :=
  { state with
    tlb := Function.update state.tlb (virtualAddress >>> 12) none }

def clearTable (state : MemoryState) (table : Nat) : MemoryState :=
  { state with
    tables := Function.update state.tables table fun index =>
      if index < 512 then 0 else state.tables table index }

def addTable (state : MemoryState) (platform : Platform)
    (table index frame : Nat) : MemoryState :=
  ((state.claim frame).clearTable (platform.frameAddress frame)).withEntry
    table index (makeTableDescriptor (platform.frameAddress frame))

theorem entries_withEntry (state : MemoryState) (table : Nat)
    (index : Fin 512) (value : Nat) :
    (state.withEntry table index value).entries =
      TableTree.setEntry state.entries table index value := by
  funext other place
  unfold entries withEntry TableTree.setEntry
  by_cases htable : other = table
  · subst other
    by_cases hindex : place = index
    · subst place
      simp
    · have hne : (place : Nat) ≠ index := fun h => hindex (Fin.ext h)
      simp [hindex, hne]
  · simp [htable]

theorem entries_clearTable (state : MemoryState) (table : Nat) :
    (state.clearTable table).entries =
      Function.update state.entries table fun _ => 0 := by
  funext other place
  unfold entries clearTable
  by_cases htable : other = table
  · subst other
    simp [place.isLt]
  · simp [htable]

theorem entries_addTable (state : MemoryState) (platform : Platform)
    (table : Nat) (index : Fin 512) (frame : Nat) :
    (state.addTable platform table index frame).entries =
      attach 0 state.entries table index (platform.frameAddress frame)
        (makeTableDescriptor (platform.frameAddress frame)) := by
  unfold addTable attach
  rw [entries_withEntry, entries_clearTable]
  rfl

end MemoryState

section

variable {platform : Platform} (image : KernelImage platform)

def tableAt (state : MemoryState) (node : Node (Fin 512)) : Option Nat :=
  tableOf child image.level1Table state.entries node

/-- The level 3 entry on a path, 0 when there is no table. -/
def leafAt (state : MemoryState) (i j k : Fin 512) : Nat :=
  leaf child image.level1Table 0 state.entries i j k

theorem leafAt_of_table {image : KernelImage platform}
    {state : MemoryState} {i j : Fin 512} {table : Nat}
    (h : tableAt image state (.third i j) = some table) (k : Fin 512) :
    leafAt image state i j k = state.entries table k := by
  unfold leafAt leaf
  rw [show tableOf child image.level1Table state.entries (.third i j) =
    some table from h]

theorem leafAt_of_none {image : KernelImage platform} {state : MemoryState}
    {i j : Fin 512} (h : tableAt image state (.third i j) = none)
    (k : Fin 512) : leafAt image state i j k = 0 := by
  unfold leafAt leaf
  rw [show tableOf child image.level1Table state.entries (.third i j) =
    none from h]

def poolIndex : Fin 512 := 2

structure Paging (state : MemoryState) : Prop where
  tree : IsTree child image.level1Table state.entries
  /-- Every table is in a frame that is in use. -/
  tables : ∀ node table, tableAt image state node = some table →
    ∃ frame, frame < state.frameCount ∧ table = platform.frameAddress frame ∧
      state.used frame = true
  /-- The level 1 table has no other entries than tables. -/
  level1 : ∀ i, state.entries image.level1Table i ≠ 0 →
    ∃ table, tableAt image state (.second i) = some table
  /-- Neither has the level 2 table of the pool. -/
  level2 : ∀ table, tableAt image state (.second poolIndex) = some table →
    ∀ j, state.entries table j ≠ 0 →
      ∃ below, tableAt image state (.third poolIndex j) = some below
  /-- The address 0 does not stand for a free frame. -/
  positive : ∀ frame, frame < state.frameCount → state.used frame = false →
    platform.frameAddress frame ≠ 0
  bounded : state.frameCount ≤ 2 ^ 20

/-- `after` has one table more than `before`, in a frame that was free. -/
structure Grows (before after : MemoryState) (place : Node (Fin 512))
    (frame : Nat) : Prop where
  next : before.nextFrame = some frame
  absent : tableAt image before place = none
  tableAt : ∀ node, tableAt image after node =
    if node = place then some (platform.frameAddress frame)
    else tableAt image before node
  leafAt : leafAt image after = leafAt image before
  level1 : ∀ i, after.entries image.level1Table i =
      before.entries image.level1Table i ∨ place = .second i
  level2 : ∀ i table, Memory.tableAt image after (.second i) = some table →
    ∀ j, after.entries table j = 0 ∨ place = .third i j ∨
      Memory.tableAt image before (.second i) = some table ∧
        after.entries table j = before.entries table j
  used : ∀ other, after.used other =
    (decide (other = frame) || before.used other)
  frameCount : after.frameCount = before.frameCount
  virtualBitmap : after.virtualBitmap = before.virtualBitmap
  tlb : after.tlb = before.tlb

theorem frameAddress_addressable {state : MemoryState} {frame : Nat}
    (hbounded : state.frameCount ≤ 2 ^ 20) (h : frame < state.frameCount) :
    Addressable (platform.frameAddress frame) := by
  refine ⟨platform.frameAddress_mod frame, ?_⟩
  unfold Platform.frameAddress pageSize
  cases platform with
  | virt =>
      simp only [Platform.physicalMemoryBase]
      omega
  | pi5 =>
      simp only [Platform.physicalMemoryBase]
      omega

variable {image} {state : MemoryState} (paging : Paging image state)

include paging

theorem Paging.fresh {frame : Nat} (h : state.nextFrame = some frame)
    (node : Node (Fin 512)) :
    tableAt image state node ≠ some (platform.frameAddress frame) := by
  intro htable
  obtain ⟨other, _, heq, hused⟩ := paging.tables node _ htable
  obtain rfl := platform.frameAddress_injective heq
  rw [MemoryState.nextFrame_free h] at hused
  cases hused

theorem Paging.child_pointer {frame : Nat}
    (h : state.nextFrame = some frame) :
    child (makeTableDescriptor (platform.frameAddress frame)) =
      some (platform.frameAddress frame) :=
  child_makeTableDescriptor (frameAddress_addressable paging.bounded
    (MemoryState.nextFrame_lt h))

theorem Paging.grows_level2 {i : Fin 512}
    (hnone : tableAt image state (.second i) = none) {frame : Nat}
    (h : state.nextFrame = some frame) :
    Grows image state
      (state.addTable platform image.level1Table i frame) (.second i)
      frame := by
  have hplace := paging.tree.tableOf_attachSecond (paging.fresh h)
    child_zero (paging.child_pointer h) hnone
  refine ⟨h, hnone, ?_, ?_, ?_, ?_, ?_, rfl, rfl, rfl⟩
  · intro node
    unfold tableAt
    rw [MemoryState.entries_addTable]
    exact hplace node
  · funext first second third
    unfold leafAt
    rw [MemoryState.entries_addTable]
    exact paging.tree.leaf_attach (paging.fresh h) (tableOf_root _)
      (by simp) hplace hnone first second third
  · intro other
    by_cases heq : other = i
    · exact .inr (by rw [heq])
    · left
      have hroot : image.level1Table ≠ platform.frameAddress frame :=
        fun hsame => paging.fresh h .root (by rw [← hsame]; rfl)
      rw [MemoryState.entries_addTable]
      unfold attach
      rw [setEntry_of_index_ne heq, Function.update_of_ne hroot]
  · intro other table htable j
    have hroot : table ≠ image.level1Table := by
      rintro rfl
      unfold tableAt at htable
      rw [MemoryState.entries_addTable, hplace] at htable
      split at htable
      · exact paging.fresh h .root htable.symm
      · exact paging.tree.second_ne_root htable rfl
    unfold tableAt at htable
    rw [MemoryState.entries_addTable] at htable ⊢
    rw [attach_apply, if_neg (fun heq => hroot heq.1)]
    rw [hplace] at htable
    split at htable
    · obtain rfl := Option.some.inj htable
      rw [if_pos rfl]
      exact .inl rfl
    · have hne : table ≠ platform.frameAddress frame := by
        rintro rfl
        exact paging.fresh h _ htable
      rw [if_neg hne]
      exact .inr (.inr ⟨htable, rfl⟩)
  · exact fun other => MemoryState.used_claim ..

omit paging in
theorem tableAt_third {i j : Fin 512} {table : Nat}
    (hsecond : tableAt image state (.second i) = some table) :
    tableAt image state (.third i j) = child (state.entries table j) := by
  have hbind : tableAt image state (.third i j) =
      (tableAt image state (.second i)).bind fun below =>
        child (state.entries below j) := rfl
  rw [hbind, hsecond]
  rfl

theorem Paging.grows_level3 {i j : Fin 512} {table : Nat}
    (hsecond : tableAt image state (.second i) = some table)
    (hnone : child (state.entries table j) = none) {frame : Nat}
    (h : state.nextFrame = some frame) :
    Grows image state (state.addTable platform table j frame) (.third i j)
      frame := by
  have habsent : tableAt image state (.third i j) = none :=
    (tableAt_third hsecond).trans hnone
  have hplace : ∀ node, tableOf child image.level1Table
      (attach 0 state.entries table j (platform.frameAddress frame)
        (makeTableDescriptor (platform.frameAddress frame))) node =
      if node = .third i j then some (platform.frameAddress frame)
      else tableOf child image.level1Table state.entries node :=
    paging.tree.tableOf_attachThird (paging.fresh h) (paging.child_pointer h)
      hsecond hnone
  refine ⟨h, habsent, ?_, ?_, ?_, ?_, ?_, rfl, rfl, rfl⟩
  · intro node
    unfold tableAt
    rw [MemoryState.entries_addTable]
    exact hplace node
  · funext first second third
    unfold leafAt
    rw [MemoryState.entries_addTable]
    exact paging.tree.leaf_attach (paging.fresh h) hsecond (by simp) hplace
      habsent first second third
  · intro other
    left
    have hroot : image.level1Table ≠ platform.frameAddress frame :=
      fun hsame => paging.fresh h .root (by rw [← hsame]; rfl)
    have htable : image.level1Table ≠ table :=
      (paging.tree.second_ne_root hsecond).symm
    rw [MemoryState.entries_addTable]
    unfold attach
    rw [setEntry_of_ne htable, Function.update_of_ne hroot]
  · intro other second hbelow index
    unfold tableAt at hbelow
    rw [MemoryState.entries_addTable] at hbelow ⊢
    rw [hplace, if_neg (by simp)] at hbelow
    rw [attach_apply]
    split
    · rename_i heq
      obtain ⟨rfl, rfl⟩ := heq
      cases paging.tree _ _ _ hsecond hbelow
      exact .inr (.inl rfl)
    · have hne : second ≠ platform.frameAddress frame := by
        rintro rfl
        exact paging.fresh h _ hbelow
      rw [if_neg hne]
      exact .inr (.inr ⟨hbelow, rfl⟩)
  · exact fun other => MemoryState.used_claim ..

end

section

variable {platform : Platform} {image : KernelImage platform}
  {before after : MemoryState} {place : Node (Fin 512)} {frame : Nat}

theorem Grows.paging (grows : Grows image before after place frame)
    (paging : Paging image before) : Paging image after where
  tree := paging.tree.of_attached (paging.fresh grows.next) grows.tableAt
  tables := by
    intro node table h
    rw [grows.tableAt] at h
    rw [grows.frameCount]
    split at h
    · obtain rfl := Option.some.inj h
      refine ⟨frame, MemoryState.nextFrame_lt grows.next, rfl, ?_⟩
      rw [grows.used]
      simp
    · obtain ⟨other, hlt, heq, hused⟩ := paging.tables node table h
      refine ⟨other, hlt, heq, ?_⟩
      rw [grows.used, hused]
      simp
  level1 := by
    intro i hentry
    rw [grows.tableAt]
    split
    · exact ⟨_, rfl⟩
    · rename_i hne
      rcases grows.level1 i with heq | heq
      · rw [heq] at hentry
        exact paging.level1 i hentry
      · exact absurd heq.symm hne
  level2 := by
    intro table htable j hentry
    rw [grows.tableAt]
    split
    · exact ⟨_, rfl⟩
    · rename_i hne
      rcases grows.level2 _ table htable j with heq | heq | ⟨hold, heq⟩
      · exact absurd heq hentry
      · exact absurd heq.symm hne
      · rw [heq] at hentry
        exact paging.level2 table hold j hentry
  positive := by
    intro other hlt hfree
    rw [grows.used] at hfree
    rw [grows.frameCount] at hlt
    exact paging.positive other hlt (by simp at hfree; exact hfree.2)
  bounded := by
    rw [grows.frameCount]
    exact paging.bounded

/-- `after` has the tables of `before`, with other leaves, and no fewer frames
in use. -/
structure SameTables (image : KernelImage platform)
    (before after : MemoryState) : Prop where
  tableAt : ∀ node, tableAt image after node = tableAt image before node
  level1 : ∀ i, after.entries image.level1Table i =
    before.entries image.level1Table i
  level2 : ∀ i table, Memory.tableAt image before (.second i) = some table →
    after.entries table = before.entries table
  used : ∀ frame, before.used frame = true → after.used frame = true
  frameCount : after.frameCount = before.frameCount

theorem SameTables.paging (same : SameTables image before after)
    (paging : Paging image before) : Paging image after where
  tree := by
    intro first second table hfirst hsecond
    exact paging.tree first second table
      ((same.tableAt first).symm.trans hfirst)
      ((same.tableAt second).symm.trans hsecond)
  tables := by
    intro node table h
    rw [same.tableAt] at h
    rw [same.frameCount]
    obtain ⟨frame, hlt, heq, hused⟩ := paging.tables node table h
    exact ⟨frame, hlt, heq, same.used frame hused⟩
  level1 := by
    intro i hentry
    rw [same.level1] at hentry
    rw [same.tableAt]
    exact paging.level1 i hentry
  level2 := by
    intro table htable j hentry
    rw [same.tableAt] at htable ⊢
    rw [same.level2 _ table htable] at hentry
    exact paging.level2 table htable j hentry
  positive := by
    intro frame hlt hfree
    rw [same.frameCount] at hlt
    apply paging.positive frame hlt
    cases hused : before.used frame with
    | false => rfl
    | true =>
        rw [same.used frame hused] at hfree
        cases hfree
  bounded := by
    rw [same.frameCount]
    exact paging.bounded

theorem sameTables_of_setEntry (paging : Paging image before) {i j : Fin 512}
    {table : Nat} (htable : tableAt image before (.third i j) = some table)
    {k : Fin 512} {value : Nat}
    (hentries : after.entries =
      TableTree.setEntry before.entries table k value)
    (hused : ∀ frame, after.used frame = before.used frame)
    (hcount : after.frameCount = before.frameCount) :
    SameTables image before after := by
  refine ⟨?_, ?_, ?_, fun frame h => (hused frame).trans h, hcount⟩
  · intro node
    unfold tableAt
    rw [hentries]
    exact paging.tree.tableOf_setLeaf htable _ _ node
  · intro i
    rw [hentries, setEntry_of_ne (paging.tree.third_ne_root htable).symm]
  · intro i second hsecond
    rw [hentries, setEntry_of_ne
      (paging.tree.third_ne_second htable hsecond).symm]

end

namespace Mmu

variable {platform : Platform} {image : KernelImage platform}

theorem run_entry (table index : Nat) (state : MemoryState) :
    (entry table index).run state = .ok (state.tables table index, state) :=
  rfl

theorem run_setEntry (table index value : Nat) (state : MemoryState) :
    (setEntry table index value).run state =
      .ok ((), state.withEntry table index value) := rfl

theorem run_clearTable (table : Nat) (state : MemoryState) :
    (forEach (fun i => setEntry table i 0) 0 512).run state =
      .ok ((), state.clearTable table) := by
  have hrun := @run_forEach _ _ (fun i => setEntry table i 0)
    (fun count => { state with
      tables := Function.update state.tables table fun index =>
        if index < count then 0 else state.tables table index }) 0 512
    (by
      intro index _
      rw [Nat.zero_add, run_setEntry]
      congr 2
      unfold MemoryState.withEntry
      congr 1
      funext other place
      by_cases htable : other = table
      · subst other
        simp only [Function.update_self]
        by_cases hplace : place = index
        · subst place
          simp
        · simp only [Function.update_of_ne hplace]
          congr 1
          simp
          omega
      · simp [htable])
  have hfirst : ({ state with
      tables := Function.update state.tables table fun index =>
        if index < 0 then 0 else state.tables table index } : MemoryState) =
      state := by
    simp
  rw [hfirst] at hrun
  exact hrun

end Mmu

end Planetoid.Memory
