import Planetoid.Memory.PoolAccesses

namespace Planetoid.Memory

open Planetoid Program Mmu TableTree VirtualMemory

/-! The states between the steps of an operation on the pool. -/

section

variable {platform : Platform} {image : KernelImage platform}
  {start base state current after : MemoryState} {held : Option Nat}
  {window : Option (Nat × Nat)} {bitmap : Bitmap} {pins : Pins}

/-- A state that is sound with the bits of `bitmap`, and in which only current
translations of pool pages are cached. -/
structure Steady (image : KernelImage platform) (start : MemoryState)
    (pins : Pins) (held : Option Nat) (bitmap : Bitmap)
    (state : MemoryState) : Prop where
  sound : Sound image (state.core.withBitmap bitmap) held
  fixed : Fixed image start (state.core.withBitmap bitmap)
  cached : Cached image none state
  pinned : Pinned image pins state

theorem Near.of_bitmap (state : MemoryState) (bitmap : Bitmap) :
    Near image (state.withBitmap bitmap) state where
  tableAt := fun _ => rfl
  level1 := fun _ => rfl
  level2 := fun _ _ _ => rfl
  used := fun _ h => h
  frameCount := rfl
  leafAt := rfl
  extra := ⟨0, fun _ h => .inl h⟩

theorem Near.pinned
    (near : Near image (state.core.withBitmap bitmap) after.core)
    (pinned : Pinned image pins state) : Pinned image pins after := by
  have hleaf : Memory.leafAt image after = Memory.leafAt image state :=
    near.leafAt
  exact pinned.congr hleaf

theorem Steady.within (steady : Steady image start pins held bitmap state) :
    Within image start pins held none state :=
  ⟨⟨_, steady.sound, steady.fixed, Near.of_bitmap ..⟩, steady.cached, nofun,
    steady.pinned⟩

theorem Steady.rely (steady : Steady image start pins held bitmap state)
    (rely : Caches image state after) :
    Steady image start pins held bitmap after := by
  refine ⟨?_, ?_, steady.cached.rely steady.within.paging rely,
    steady.pinned.of_core rely.core⟩
  · rw [rely.core]
    exact steady.sound
  · rw [rely.core]
    exact steady.fixed

theorem Steady.core_paging
    (steady : Steady image start pins held bitmap state) :
    Paging image state.core :=
  ⟨steady.sound.paging.tree, steady.sound.paging.tables,
    steady.sound.paging.level1, steady.sound.paging.level2,
    steady.sound.paging.positive, steady.sound.paging.bounded⟩

theorem Cached.congr (cached : Cached image window state)
    (htlb : after.tlb = state.tlb)
    (hleaf : leafAt image after = leafAt image state) :
    Cached image window after := by
  have hpool : ∀ page, poolLeaf image after page = poolLeaf image state page :=
    fun page => congrFun (congrFun (congrFun hleaf _) _) _
  intro page address hpage h
  unfold cachedAt at h
  rw [htlb] at h
  rw [hpool]
  exact cached page address hpage h

theorem Cached.of_flush (cached : Cached image window state)
    (virtualAddress : Nat) :
    Cached image window (state.flush virtualAddress) := by
  intro page address hpage h
  apply cached page address hpage
  unfold cachedAt at *
  unfold MemoryState.flush at h
  simp only [Function.update_apply] at h
  split at h
  · cases h
  · exact h

theorem Cached.close {page frame : Nat}
    (cached : Cached image (some (page, frame)) state) :
    Cached image none (state.flush (pageAddress page)) := by
  intro other address hother h
  rcases (cached.of_flush _) other address hother h with hmapped |
    ⟨target, hwindow, _⟩
  · exact .inl hmapped
  · cases hwindow
    unfold cachedAt MemoryState.flush at h
    simp only [Function.update_self] at h
    cases h

/-! Frames. -/

theorem near_claim (state : MemoryState) (bitmap : Bitmap) (frame : Nat) :
    Near image (state.withBitmap bitmap) (state.claim frame) where
  tableAt := fun _ => rfl
  level1 := fun _ => rfl
  level2 := fun _ _ _ => rfl
  used := by
    intro other h
    have hused : state.used other = true := h
    rw [MemoryState.used_claim, hused, Bool.or_true]
  frameCount := rfl
  leafAt := rfl
  extra := by
    refine ⟨frame, ?_⟩
    intro other h
    rw [MemoryState.used_claim] at h
    rcases Bool.or_eq_true_iff.mp h with heq | hused
    · exact .inr (of_decide_eq_true heq)
    · exact .inl hused

theorem Steady.claim_within (steady : Steady image start pins held bitmap state)
    (frame : Nat) : Within image start pins held none (state.claim frame) :=
  ⟨⟨_, steady.sound, steady.fixed, near_claim ..⟩, steady.cached, nofun,
    steady.pinned⟩

theorem Steady.next_low (steady : Steady image start pins held bitmap state)
    {frame : Nat} (h : state.nextFrame = some frame) : frame < lowFrames :=
  nextFrame_low steady.sound steady.fixed (Near.of_bitmap state.core bitmap) h

theorem Steady.claim (steady : Steady image start pins none bitmap state)
    {frame : Nat} (h : state.nextFrame = some frame)
    (hcore : after.core = (state.claim frame).core)
    (cached : Cached image none after) :
    Steady image start pins (some frame) bitmap after := by
  have hlow := steady.next_low h
  have hpinned : Pinned image pins (state.claim frame) :=
    steady.pinned.congr rfl
  refine ⟨?_, ?_, cached, hpinned.of_core hcore⟩
  · rw [hcore]
    exact steady.sound.claim h
  · rw [hcore]
    refine ⟨steady.fixed.second, steady.fixed.block, steady.fixed.leaf,
      steady.fixed.tables, ?_⟩
    intro other hlt hused
    have hclaimed : (state.claim frame).used other = true := hused
    rw [MemoryState.used_claim] at hclaimed
    rcases Bool.or_eq_true_iff.mp hclaimed with heq | hold
    · rw [of_decide_eq_true heq]
      exact hlow
    · exact steady.fixed.low other hlt hold

theorem Steady.release {frame : Nat}
    (steady : Steady image start pins (some frame) bitmap state)
    (hcore : after.core = (state.release frame).core)
    (cached : Cached image none after) :
    Steady image start pins none bitmap after := by
  have hpinned : Pinned image pins (state.release frame) :=
    steady.pinned.congr rfl
  refine ⟨?_, ?_, cached, hpinned.of_core hcore⟩
  · rw [hcore]
    exact steady.sound.release
  · rw [hcore]
    refine ⟨steady.fixed.second, steady.fixed.block, steady.fixed.leaf,
      steady.fixed.tables, ?_⟩
    intro other hlt hused
    have hreleased : (state.release frame).used other = true := hused
    rw [MemoryState.used_release] at hreleased
    exact steady.fixed.low other hlt (by
      simp only [Bool.and_eq_true] at hreleased
      exact hreleased.2)

/-! Tables. -/

theorem Near.withEntry (near : Near image base state) {fresh : Nat}
    (hfresh : ∀ node, tableAt image base node ≠ some fresh)
    (index : Fin 512) (value : Nat) :
    Near image base (state.withEntry fresh index value) := by
  have hentries := MemoryState.entries_withEntry state fresh index value
  have hroot : image.level1Table ≠ fresh := fun h => hfresh .root (by
    rw [← h]
    rfl)
  have hlinked : ∀ node table, tableAt image base node = some table →
      (state.withEntry fresh index value).entries table =
        state.entries table := by
    intro node table htable
    rw [hentries, setEntry_of_ne]
    rintro rfl
    exact hfresh node htable
  have hplaces : ∀ node, tableAt image (state.withEntry fresh index value)
      node = tableAt image state node := by
    intro node
    apply tableOf_congr
    · intro i
      rw [hentries, setEntry_of_ne hroot]
    · intro i table htable j
      have hbase : tableAt image base (.second i) = some table :=
        (near.tableAt (.second i)).symm.trans htable
      exact congrFun (hlinked _ table hbase) j
  refine ⟨⟨fun node => (hplaces node).trans (near.tableAt node), ?_, ?_,
    near.used, near.frameCount⟩, ?_, near.extra⟩
  · intro i
    rw [hentries, setEntry_of_ne hroot]
    exact near.level1 i
  · intro i table htable
    rw [hlinked _ table htable]
    exact near.level2 i table htable
  · rw [← near.leafAt]
    funext i j k
    have hplace := hplaces (.third i j)
    cases htable : tableAt image state (.third i j) with
    | none =>
        rw [leafAt_of_none htable, leafAt_of_none (hplace.trans htable)]
    | some table =>
        rw [leafAt_of_table htable, leafAt_of_table (hplace.trans htable),
          hlinked _ table ((near.tableAt _).symm.trans htable)]

/-- A table behind an entry for the pool leaves the other entries of level 2. -/
theorem blockAt_addTable (paging : Paging image base) {frame table : Nat}
    (hnext : base.nextFrame = some frame) {index : Fin 512}
    (htable : table = image.level1Table ∨
      tableAt image base (.second poolIndex) = some table)
    {place : Node (Fin 512)} (hplace : PoolNode place)
    (grows : Grows image base (base.addTable platform table index frame) place
      frame) {i : Fin 512} (hne : i ≠ poolIndex) (j : Fin 512) :
    tableAt image (base.addTable platform table index frame) (.second i) =
        tableAt image base (.second i) ∧
      blockAt image (base.addTable platform table index frame) i j =
        blockAt image base i j := by
  have hsecond : tableAt image (base.addTable platform table index frame)
      (.second i) = tableAt image base (.second i) := by
    rw [grows.tableAt, if_neg]
    rintro rfl
    rcases hplace with heq | ⟨_, _, heq⟩
    · exact hne (Node.second.inj heq)
    · cases heq
  refine ⟨hsecond, ?_⟩
  unfold blockAt
  rw [hsecond]
  cases hother : tableAt image base (.second i) with
  | none => rfl
  | some other =>
      have hfresh : other ≠ platform.frameAddress frame := by
        rintro rfl
        exact paging.fresh hnext _ hother
      have hapart : other ≠ table := by
        rintro rfl
        rcases htable with heq | hpool
        · exact paging.tree.second_ne_root hother heq
        · exact hne (Node.second.inj (paging.tree _ _ _ hother hpool))
      simp only
      rw [MemoryState.entries_addTable, attach_apply,
        if_neg (fun h => hapart h.1), if_neg hfresh]

theorem Steady.addTable (steady : Steady image start pins held bitmap state)
    {frame table : Nat} (hnext : state.nextFrame = some frame)
    {index : Fin 512}
    (htable : table = image.level1Table ∨
      tableAt image state (.second poolIndex) = some table)
    {place : Node (Fin 512)} (hplace : PoolNode place)
    (grows : Grows image (state.core.withBitmap bitmap)
      ((state.core.withBitmap bitmap).addTable platform table index frame)
      place frame)
    (hcore : after.core = (state.addTable platform table index frame).core)
    (cached : Cached image none after) :
    Steady image start pins held bitmap after := by
  have hlow := steady.next_low hnext
  have hbase : after.core.withBitmap bitmap =
      (state.core.withBitmap bitmap).addTable platform table index frame := by
    rw [hcore]
    rfl
  have hblock := @blockAt_addTable _ _ _ steady.sound.paging frame table hnext
    index htable place hplace grows
  have hleaf : leafAt image (state.addTable platform table index frame) =
      leafAt image state := grows.leafAt
  refine ⟨?_, ?_, cached, (steady.pinned.congr hleaf).of_core hcore⟩
  · rw [hbase]
    exact steady.sound.grows grows
  · rw [hbase]
    refine ⟨?_, ?_, ?_, ?_, ?_⟩
    · intro i hne
      rw [(hblock hne 0).1]
      exact steady.fixed.second i hne
    · intro i j hne
      rw [(hblock hne j).2]
      exact steady.fixed.block i j hne
    · intro i j k hne
      rw [grows.leafAt]
      exact steady.fixed.leaf i j k hne
    · intro node address h
      rw [grows.tableAt] at h
      split at h
      · rename_i heq
        rw [heq]
        exact .inr hplace
      · exact steady.fixed.tables node address h
    · intro other hlt hused
      rw [grows.used] at hused
      rcases Bool.or_eq_true_iff.mp hused with heq | hold
      · rw [of_decide_eq_true heq]
        exact hlow
      · exact steady.fixed.low other hlt hold

/-! Leaves. -/

theorem Fixed.sets {page value : Nat} (fixed : Fixed image start base)
    (hpage : page < virtualPageCount) (paging : Paging image base)
    {table : Nat}
    (htable : tableAt image base (.third (level1Of (pageAddress page))
      (level2Of (pageAddress page))) = some table)
    (hentries : after.entries = TableTree.setEntry base.entries table
      (level3Of (pageAddress page)) value)
    (same : SameTables image base after)
    (hused : ∀ frame, after.used frame = base.used frame) :
    Fixed image start after := by
  have hpool : level1Of (pageAddress page) = poolIndex :=
    Fin.ext (level1Of_pageAddress hpage)
  refine ⟨?_, ?_, ?_, ?_, ?_⟩
  · intro i hne
    rw [same.tableAt]
    exact fixed.second i hne
  · intro i j hne
    rw [same.blockAt]
    exact fixed.block i j hne
  · intro i j k hne
    rw [← fixed.leaf i j k hne]
    unfold leafAt
    rw [hentries, paging.tree.leaf_setLeaf htable, if_neg]
    rintro ⟨rfl, _⟩
    exact hne hpool
  · intro node address h
    rw [same.tableAt] at h
    exact fixed.tables node address h
  · intro frame hlt h
    rw [same.frameCount] at hlt
    rw [hused] at h
    exact fixed.low frame hlt h

theorem Steady.mapLeaf {page frame table : Nat}
    (steady : Steady image start pins (some frame) bitmap state)
    (hpage : page < virtualPageCount) (hfree : poolLeaf image state page = 0)
    (htable : tableAt image state (.third (level1Of (pageAddress page))
      (level2Of (pageAddress page))) = some table) :
    Steady image start pins none (bitmap.set page)
      (state.withEntry table (level3Of (pageAddress page))
        (poolDescriptor platform frame)) := by
  let base := state.core.withBitmap bitmap
  let filled := (base.withEntry table (level3Of (pageAddress page))
    (poolDescriptor platform frame)).withBitmap (bitmap.set page)
  have hentries : filled.entries = TableTree.setEntry base.entries table
      (level3Of (pageAddress page)) (poolDescriptor platform frame) :=
    MemoryState.entries_withEntry base table _ _
  have sets : Sets image base filled page (poolDescriptor platform frame) := by
    apply sets_of_withEntry steady.sound.paging hpage htable _ hentries
    · intro other
      rw [show filled.virtualBitmap = bitmap.set page from rfl,
        Bitmap.test_set]
      simp only [poolDescriptor_ne_zero, ne_eq, not_false_eq_true, decide_true]
      by_cases heq : other = page
      · simp [heq]
      · simp [heq]
        rfl
    · exact fun _ => rfl
    · rfl
  have hleaf : ∀ other, other < virtualPageCount →
      poolLeaf image (state.withEntry table (level3Of (pageAddress page))
        (poolDescriptor platform frame)) other =
          if other = page then poolDescriptor platform frame
          else poolLeaf image state other := sets.leaf
  refine ⟨steady.sound.map hpage hfree sets,
    steady.fixed.sets hpage steady.sound.paging htable hentries
      sets.sameTables (fun _ => rfl), ?_,
    steady.pinned.sets hleaf (steady.pinned.not_pins hfree)⟩
  intro other address hother h
  have hkept := steady.cached other address hother h
  rw [hleaf other hother]
  by_cases heq : other = page
  · rcases hkept with ⟨hne, _⟩ | ⟨_, hnone, _⟩
    · rw [heq] at hne
      exact absurd hfree hne
    · cases hnone
  · rw [if_neg heq]
    exact hkept

theorem Steady.unmapLeaf {page frame table : Nat}
    (steady : Steady image start pins none bitmap state)
    (hpage : page < virtualPageCount) (hmapped : Mapped image state page frame)
    (hout : ∀ entry, ¬ pins page entry) (loose : Loose image state frame)
    (htable : tableAt image state (.third (level1Of (pageAddress page))
      (level2Of (pageAddress page))) = some table) :
    Sound image ((state.withEntry table (level3Of (pageAddress page))
        0).core.withBitmap (bitmap.clear page)) (some frame) ∧
      Fixed image start ((state.withEntry table
        (level3Of (pageAddress page)) 0).core.withBitmap
          (bitmap.clear page)) ∧
      Cached image (some (page, frame)) (state.withEntry table
        (level3Of (pageAddress page)) 0) ∧
      Pinned image pins (state.withEntry table
        (level3Of (pageAddress page)) 0) := by
  let base := state.core.withBitmap bitmap
  let emptied := (base.withEntry table (level3Of (pageAddress page))
    0).withBitmap (bitmap.clear page)
  have hentries : emptied.entries = TableTree.setEntry base.entries table
      (level3Of (pageAddress page)) 0 :=
    MemoryState.entries_withEntry base table _ _
  have sets : Sets image base emptied page 0 := by
    apply sets_of_withEntry steady.sound.paging hpage htable _ hentries
    · intro other
      rw [show emptied.virtualBitmap = bitmap.clear page from rfl,
        Bitmap.test_clear]
      by_cases heq : other = page
      · simp [heq]
      · simp [heq]
        rfl
    · exact fun _ => rfl
    · rfl
  have hleaf : ∀ other, other < virtualPageCount →
      poolLeaf image (state.withEntry table (level3Of (pageAddress page))
        0) other = if other = page then 0 else poolLeaf image state other :=
    sets.leaf
  refine ⟨steady.sound.unmap hpage hmapped
      ⟨loose.bounded, loose.unreserved, loose.noTable⟩ sets,
    steady.fixed.sets hpage steady.sound.paging htable hentries
      sets.sameTables (fun _ => rfl), ?_, steady.pinned.sets hleaf hout⟩
  intro other address hother h
  rw [hleaf other hother]
  rcases steady.cached other address hother h with ⟨hne, haddress⟩ |
    ⟨_, hnone, _⟩
  · by_cases heq : other = page
    · subst heq
      refine .inr ⟨frame, rfl, if_pos rfl, ?_⟩
      rw [← haddress, show poolLeaf image state other =
        poolDescriptor platform frame from hmapped,
        poolDescriptor_address steady.core_paging loose.bounded]
    · rw [if_neg heq]
      exact .inl ⟨hne, haddress⟩
  · cases hnone

end

end Planetoid.Memory
