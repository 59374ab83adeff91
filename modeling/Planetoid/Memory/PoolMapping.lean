import Planetoid.Memory.PoolGuards

namespace Planetoid.Memory

open Planetoid Program Mmu TableTree VirtualMemory

/-! The accesses of `map_page` and `unmap_page` on pool pages. -/

section

variable {platform : Platform} {image : KernelImage platform}
  {contents : Contents} {start state middle after : MemoryState}
  {held : Option Nat} {bitmap : Bitmap} {pins : Pins}
  {frame page virtualAddress : Nat}

theorem Steady.of_core (steady : Steady image start pins held bitmap state)
    (hcore : after.core = state.core) (cached : Cached image none after) :
    Steady image start pins held bitmap after := by
  refine ⟨?_, ?_, cached, steady.pinned.of_core hcore⟩
  · rw [hcore]
    exact steady.sound
  · rw [hcore]
    exact steady.fixed

theorem tableAt_of_core (h : after.core = state.core)
    (node : Node (Fin 512)) :
    tableAt image after node = tableAt image state node := by
  have htable := congrArg (fun current => tableAt image current node) h
  exact htable

theorem leafAt_of_core (h : after.core = state.core) :
    leafAt image after = leafAt image state := by
  have hleaf := congrArg (leafAt image) h
  exact hleaf

theorem virtualBitmap_of_core (h : after.core = state.core) :
    after.virtualBitmap = state.virtualBitmap := by
  have hbitmap := congrArg MemoryState.virtualBitmap h
  exact hbitmap

theorem Loose.of_core (loose : Loose image state frame)
    (h : after.core = state.core) : Loose image after frame where
  bounded := by
    have hcount := congrArg MemoryState.frameCount h
    exact hcount ▸ loose.bounded
  unreserved := loose.unreserved
  noTable := by
    intro node
    rw [tableAt_of_core h]
    exact loose.noTable node

theorem Owned.of_core (owned : Owned image state held frame)
    (h : after.core = state.core) : Owned image after held frame := by
  cases owned with
  | reserved hreserved => exact .reserved hreserved
  | mapped hpage hmapped =>
      exact .mapped hpage ((poolLeaf_of_core h _).trans hmapped)
  | table htable => exact .table ((tableAt_of_core h _).trans htable)
  | held hheld => exact .held hheld

theorem Sound.of_core (sound : Sound image state.core held) :
    Sound image state held where
  paging := {
    tree := sound.paging.tree
    tables := sound.paging.tables
    level1 := sound.paging.level1
    level2 := sound.paging.level2
    positive := sound.paging.positive
    bounded := sound.paging.bounded }
  bits := sound.bits
  entries := by
    intro page hpage hleaf
    obtain ⟨frame, hmapped, loose⟩ := sound.entries page hpage hleaf
    exact ⟨frame, hmapped, loose.of_core rfl⟩
  unique := sound.unique
  used_iff := fun frame hlt => (sound.used_iff frame hlt).trans
    ⟨fun owned => owned.of_core rfl, fun owned => owned.of_core rfl⟩
  held := by
    intro frame hheld
    obtain ⟨loose, hmapped⟩ := sound.held frame hheld
    exact ⟨loose.of_core rfl, hmapped⟩

structure FoundTable (image : KernelImage platform) (start : MemoryState)
    (pins : Pins) (held : Option Nat) (bitmap : Bitmap)
    (before : MemoryState) (place : Node (Fin 512)) (result : Option Nat)
    (after : MemoryState) : Prop where
  steady : Steady image start pins held bitmap after
  leafAt : leafAt image after = leafAt image before
  virtualBitmap : after.virtualBitmap = before.virtualBitmap
  table : ∀ table, result = some table → tableAt image after place = some table

theorem FoundTable.of_rely
    (steady : Steady image start pins held bitmap state)
    (rely : Caches image state after) {place : Node (Fin 512)}
    {result : Option Nat}
    (h : ∀ table, result = some table →
      tableAt image state place = some table) :
    FoundTable image start pins held bitmap state place result after where
  steady := steady.rely rely
  leafAt := leafAt_of_core rely.core
  virtualBitmap := virtualBitmap_of_core rely.core
  table := by
    intro table hresult
    rw [tableAt_of_core rely.core]
    exact h table hresult

theorem FoundTable.rely {place : Node (Fin 512)} {result : Option Nat}
    (found : FoundTable image start pins held bitmap state place result middle)
    (rely : Caches image middle after) :
    FoundTable image start pins held bitmap state place result after where
  steady := found.steady.rely rely
  leafAt := (leafAt_of_core rely.core).trans found.leafAt
  virtualBitmap := (virtualBitmap_of_core rely.core).trans found.virtualBitmap
  table := by
    intro table hresult
    rw [tableAt_of_core rely.core]
    exact found.table table hresult

theorem Steady.linkTable (steady : Steady image start pins held bitmap state)
    {table frame : Nat} (hnext : state.core.nextFrame = some frame)
    {index : Fin 512}
    (htable : table = image.level1Table ∨
      tableAt image state (.second poolIndex) = some table)
    {place : Node (Fin 512)} (hplace : PoolNode place)
    (grows : Grows image (state.core.withBitmap bitmap)
      ((state.core.withBitmap bitmap).addTable platform table index frame)
      place frame)
    (hcore : middle.core = (state.core.claim frame).clearTable
      (platform.frameAddress frame))
    (near : Near image (state.core.withBitmap bitmap) middle.core)
    (cached : Cached image none middle) :
    FoundTable image start pins held bitmap state place
      (some (platform.frameAddress frame))
      (middle.withEntry table index
        (makeTableDescriptor (platform.frameAddress frame))) := by
  have hafter : (middle.withEntry table index
      (makeTableDescriptor (platform.frameAddress frame))).core =
        (state.addTable platform table index frame).core := by
    have hsame := congrArg (fun current : MemoryState =>
      current.withEntry table index
        (makeTableDescriptor (platform.frameAddress frame))) hcore
    exact hsame
  have hleaf : leafAt image (middle.withEntry table index
      (makeTableDescriptor (platform.frameAddress frame))) =
        leafAt image state := by
    rw [leafAt_of_core hafter]
    exact grows.leafAt
  have hmiddle : leafAt image middle = leafAt image state := near.leafAt
  have hcached : Cached image none (middle.withEntry table index
      (makeTableDescriptor (platform.frameAddress frame))) :=
    cached.congr rfl (hleaf.trans hmiddle.symm)
  refine ⟨steady.addTable hnext htable hplace grows hafter hcached, hleaf, ?_,
    ?_⟩
  · have hbitmap := virtualBitmap_of_core hafter
    exact hbitmap
  · intro other hresult
    obtain rfl := Option.some.inj hresult
    rw [tableAt_of_core hafter]
    have hplaced := grows.tableAt place
    rw [if_pos rfl] at hplaced
    exact hplaced

section

variable (hstatic : start.static image = Contents.initial image contents)

include hstatic

theorem guarded_getOrCreateLevel2Table
    (steady : Steady image start pins held bitmap state)
    (hpool : level1Of virtualAddress = poolIndex) :
    (getOrCreateLevel2Table image virtualAddress).Guarded
      (poolEnvironment image pins)
      (FoundTable image start pins held bitmap state (.second poolIndex))
      state := by
  have hroot : InRam platform image.level1Table :=
    (steady.within.kept hstatic).tables .root _ rfl
  have hindex : getLevel1Index virtualAddress = (poolIndex : Fin 512).val :=
    congrArg Fin.val hpool
  unfold getOrCreateLevel2Table
  refine guarded_bind (guarded_entry hstatic steady.within hroot _) ?_
  rintro value middle ⟨hvalue, rely⟩
  rw [hindex] at hvalue ⊢
  have hentry : value = state.entries image.level1Table poolIndex := hvalue
  have htable : tableAt image state (.second poolIndex) = child value := by
    rw [hentry]
    rfl
  by_cases hzero : value = 0
  · rw [if_neg (not_not.mpr hzero)]
    have hmiddle := steady.rely rely
    refine guarded_bind (guarded_allocatePageTable hstatic hmiddle) ?_
    rintro result after ⟨hresult, near, cached⟩
    cases hnext : middle.core.nextFrame with
    | none =>
        rw [hnext] at hresult
        obtain ⟨rfl, hcore⟩ := hresult
        have hafter := hmiddle.of_core hcore cached
        have found : FoundTable image start pins held bitmap state
            (.second poolIndex) none after :=
          ⟨hafter, leafAt_of_core (hcore.trans rely.core),
            virtualBitmap_of_core (hcore.trans rely.core), nofun⟩
        exact guarded_return hstatic hafter.within
          fun current hcurrent => found.rely hcurrent
    | some frame =>
        rw [hnext] at hresult
        obtain ⟨rfl, hcore⟩ := hresult
        have hnone : tableAt image (middle.core.withBitmap bitmap)
            (.second poolIndex) = none := by
          have hsame : tableAt image middle (.second poolIndex) = none := by
            rw [tableAt_of_core rely.core, htable, hzero, child_zero]
          exact hsame
        have grows := hmiddle.sound.paging.grows_level2 hnone hnext
        have hlink : ∀ current, Caches image after current →
            FoundTable image start pins held bitmap middle (.second poolIndex)
              (some (platform.frameAddress frame))
              (current.withEntry image.level1Table (poolIndex : Fin 512)
                (makeTableDescriptor (platform.frameAddress frame))) := by
          intro current hcurrent
          have hnear : Near image (middle.core.withBitmap bitmap)
              current.core := by
            rw [hcurrent.core]
            exact near
          have hwithin : Within image start pins held none after :=
            ⟨⟨_, hmiddle.sound, hmiddle.fixed, near⟩, cached, nofun,
              near.pinned hmiddle.pinned⟩
          exact hmiddle.linkTable hnext (.inl rfl) (.inl rfl) grows
            (hcurrent.core.trans hcore) hnear (hwithin.rely hcurrent).cached
        have hwithin : Within image start pins held none after :=
          ⟨⟨_, hmiddle.sound, hmiddle.fixed, near⟩, cached, nofun,
            near.pinned hmiddle.pinned⟩
        refine guarded_bind (guarded_setEntry hstatic hwithin hroot
          (poolIndex : Fin 512) _ fun current hcurrent =>
            ⟨_, _, (hlink current hcurrent).steady.within⟩) ?_
        rintro _ last ⟨current, hcurrent, hlast⟩
        have hfound := (hlink current hcurrent).rely hlast
        refine guarded_return hstatic hfound.steady.within ?_
        intro final hfinal
        have hend := hfound.rely hfinal
        exact ⟨hend.steady, hend.leafAt.trans (leafAt_of_core rely.core),
          hend.virtualBitmap.trans (virtualBitmap_of_core rely.core),
          hend.table⟩
  · rw [if_pos hzero]
    rw [hentry] at hzero
    obtain ⟨table, hsome⟩ := steady.within.paging.level1 poolIndex hzero
    have haddress : value &&& addressMask = table := by
      rw [htable, child] at hsome
      split at hsome
      · exact Option.some.inj hsome
      · cases hsome
    refine guarded_return hstatic (steady.within.rely rely) ?_
    intro current hcurrent
    apply FoundTable.of_rely steady (rely.trans hcurrent)
    intro other hother
    rw [← Option.some.inj hother, haddress]
    exact hsome

theorem guarded_getOrCreateLevel3Table
    (steady : Steady image start pins held bitmap state) {table : Nat}
    (hsecond : tableAt image state (.second poolIndex) = some table)
    (hlow : (level2Of virtualAddress).val < 8) :
    (getOrCreateLevel3Table platform table virtualAddress).Guarded
      (poolEnvironment image pins)
      (FoundTable image start pins held bitmap state
        (.third poolIndex (level2Of virtualAddress))) state := by
  have hin : InRam platform table :=
    (steady.within.kept hstatic).tables _ _ hsecond
  have hnode : PoolNode (.third poolIndex (level2Of virtualAddress)) :=
    .inr ⟨_, hlow, rfl⟩
  unfold getOrCreateLevel3Table
  refine guarded_bind (guarded_entry hstatic steady.within hin _) ?_
  rintro value middle ⟨hvalue, rely⟩
  have hentry : value = state.entries table (level2Of virtualAddress) := hvalue
  have htable : tableAt image state
      (.third poolIndex (level2Of virtualAddress)) = child value := by
    rw [hentry]
    exact tableAt_third hsecond
  by_cases hzero : value = 0
  · rw [if_neg (not_not.mpr hzero)]
    have hmiddle := steady.rely rely
    have hsecond' : tableAt image middle (.second poolIndex) = some table := by
      rw [tableAt_of_core rely.core]
      exact hsecond
    refine guarded_bind (guarded_allocatePageTable hstatic hmiddle) ?_
    rintro result after ⟨hresult, near, cached⟩
    have hwithin : Within image start pins held none after :=
      ⟨⟨_, hmiddle.sound, hmiddle.fixed, near⟩, cached, nofun,
        near.pinned hmiddle.pinned⟩
    cases hnext : middle.core.nextFrame with
    | none =>
        rw [hnext] at hresult
        obtain ⟨rfl, hcore⟩ := hresult
        have hafter := hmiddle.of_core hcore cached
        have found : FoundTable image start pins held bitmap state
            (.third poolIndex (level2Of virtualAddress)) none after :=
          ⟨hafter, leafAt_of_core (hcore.trans rely.core),
            virtualBitmap_of_core (hcore.trans rely.core), nofun⟩
        exact guarded_return hstatic hafter.within
          fun current hcurrent => found.rely hcurrent
    | some frame =>
        rw [hnext] at hresult
        obtain ⟨rfl, hcore⟩ := hresult
        have hnone : child ((middle.core.withBitmap bitmap).entries table
            (level2Of virtualAddress)) = none := by
          have hsame : middle.entries table (level2Of virtualAddress) =
              value := by
            rw [hentry]
            exact congrFun (congrFun (tables_of_core rely.core) _) _
          change child (middle.entries table (level2Of virtualAddress)) = none
          rw [hsame, hzero, child_zero]
        have grows := hmiddle.sound.paging.grows_level3 hsecond' hnone hnext
        have hlink : ∀ current, Caches image after current →
            FoundTable image start pins held bitmap middle
              (.third poolIndex (level2Of virtualAddress))
              (some (platform.frameAddress frame))
              (current.withEntry table (level2Of virtualAddress)
                (makeTableDescriptor (platform.frameAddress frame))) := by
          intro current hcurrent
          have hnear : Near image (middle.core.withBitmap bitmap)
              current.core := by
            rw [hcurrent.core]
            exact near
          exact hmiddle.linkTable hnext (.inr hsecond') hnode grows
            (hcurrent.core.trans hcore) hnear (hwithin.rely hcurrent).cached
        refine guarded_bind (guarded_setEntry hstatic hwithin hin
          (level2Of virtualAddress) _ fun current hcurrent =>
            ⟨_, _, (hlink current hcurrent).steady.within⟩) ?_
        rintro _ last ⟨current, hcurrent, hlast⟩
        have hfound := (hlink current hcurrent).rely hlast
        refine guarded_return hstatic hfound.steady.within ?_
        intro final hfinal
        have hend := hfound.rely hfinal
        exact ⟨hend.steady, hend.leafAt.trans (leafAt_of_core rely.core),
          hend.virtualBitmap.trans (virtualBitmap_of_core rely.core),
          hend.table⟩
  · rw [if_pos hzero]
    rw [hentry] at hzero
    obtain ⟨below, hsome⟩ :=
      steady.within.paging.level2 table hsecond (level2Of virtualAddress) hzero
    rw [htable, child] at hsome
    split at hsome
    · rename_i htype
      have haddress := Option.some.inj hsome
      rw [if_neg (not_not.mpr htype)]
      refine guarded_return hstatic (steady.within.rely rely) ?_
      intro current hcurrent
      apply FoundTable.of_rely steady (rely.trans hcurrent)
      intro other hother
      rw [← Option.some.inj hother, htable, child, if_pos htype]
    · cases hsome

theorem guarded_invalidateTlb
    (steady : Steady image start pins held bitmap state)
    (virtualAddress : Nat) :
    (invalidateTlb virtualAddress).Guarded (poolEnvironment image pins)
      (fun _ after => Steady image start pins held bitmap after ∧
        after.core = state.core) state := by
  have hflush : ∀ current, Caches image state current →
      Steady image start pins held bitmap (current.flush virtualAddress) := by
    intro current rely
    have hsteady := steady.rely rely
    exact hsteady.of_core rfl (hsteady.cached.of_flush virtualAddress)
  refine (guarded_write hstatic steady.within
    (permitted_flush platform virtualAddress) fun current rely =>
      ⟨_, _, (hflush current rely).within⟩).weaken ?_
  rintro _ after ⟨current, rely, hafter⟩
  exact ⟨(hflush current rely).rely hafter, hafter.core.trans rely.core⟩

theorem guarded_mapPage
    (steady : Steady image start pins (some frame) bitmap state)
    (hpage : page < virtualPageCount) (hfree : poolLeaf image state page = 0) :
    (mapPage image (pageAddress page) (platform.frameAddress frame) .normal
      poolPermissions).Guarded (poolEnvironment image pins)
        (fun result after => after.virtualBitmap = state.virtualBitmap ∧
          if result then Steady image start pins none (bitmap.set page) after
          else Steady image start pins (some frame) bitmap after) state := by
  have hpool : level1Of (pageAddress page) = poolIndex :=
    Fin.ext (level1Of_pageAddress hpage)
  have hlow : (level2Of (pageAddress page)).val < 8 := by
    rw [level2Of_pageAddress hpage]
    rw [virtualPageCount_eq] at hpage
    omega
  have haligned : ¬ (pageAddress page &&& 0xFFF ≠ 0 ∨
      platform.frameAddress frame &&& 0xFFF ≠ 0) := by
    rw [land_page_mask, land_page_mask, pageAddress_mod,
      platform.frameAddress_mod]
    simp
  have hfail : ∀ middle, Steady image start pins (some frame) bitmap middle →
      middle.virtualBitmap = state.virtualBitmap →
      (pure false : Vm Bool).Guarded (poolEnvironment image pins)
        (fun result after => after.virtualBitmap = state.virtualBitmap ∧
          if result then Steady image start pins none (bitmap.set page) after
          else Steady image start pins (some frame) bitmap after) middle := by
    intro middle hsteady hbitmap
    exact guarded_return hstatic hsteady.within fun current rely =>
      ⟨(virtualBitmap_of_core rely.core).trans hbitmap, hsteady.rely rely⟩
  unfold mapPage
  rw [if_neg haligned]
  refine guarded_bind
    (guarded_getOrCreateLevel2Table hstatic steady hpool) ?_
  rintro second middle ⟨hmiddle, hmiddleLeaf, hmiddleBitmap, hsecond⟩
  cases second with
  | none => exact hfail middle hmiddle hmiddleBitmap
  | some level2Table =>
      refine guarded_bind (guarded_getOrCreateLevel3Table hstatic hmiddle
        (hsecond level2Table rfl) hlow) ?_
      rintro third found ⟨hfound, hfoundLeaf, hfoundBitmap, hthird⟩
      have hbitmap := hfoundBitmap.trans hmiddleBitmap
      cases third with
      | none => exact hfail found hfound hbitmap
      | some level3Table =>
          have htable : tableAt image found (.third
              (level1Of (pageAddress page)) (level2Of (pageAddress page))) =
                some level3Table := by
            rw [hpool]
            exact hthird level3Table rfl
          have hin := (hfound.within.kept hstatic).tables _ _ htable
          have hempty : poolLeaf image found page = 0 := by
            rw [← hfree]
            exact congrFun (congrFun (congrFun
              (hfoundLeaf.trans hmiddleLeaf) _) _) _
          refine guarded_bind (guarded_entry hstatic hfound.within hin _) ?_
          rintro value last ⟨hvalue, rely⟩
          have hzero : value = 0 := by
            rw [hvalue, ← hempty, poolLeaf_of_table htable]
            rfl
          have hlast := hfound.rely rely
          rw [if_neg (not_not.mpr hzero)]
          have hmap : ∀ current, Caches image last current →
              Steady image start pins none (bitmap.set page)
                (current.withEntry level3Table (level3Of (pageAddress page))
                  (poolDescriptor platform frame)) := by
            intro current hcurrent
            have hcore := hcurrent.core.trans rely.core
            apply (hlast.rely hcurrent).mapLeaf hpage
            · rw [poolLeaf_of_core hcore]
              exact hempty
            · rw [tableAt_of_core hcore]
              exact htable
          refine guarded_bind (guarded_setEntry hstatic hlast.within hin
            (level3Of (pageAddress page)) (poolDescriptor platform frame)
            fun current hcurrent => ⟨_, _, (hmap current hcurrent).within⟩) ?_
          rintro _ written ⟨current, hcurrent, hwritten⟩
          have hsteady := (hmap current hcurrent).rely hwritten
          have hkept : written.virtualBitmap = state.virtualBitmap := by
            rw [virtualBitmap_of_core hwritten.core]
            exact (virtualBitmap_of_core
              (hcurrent.core.trans rely.core)).trans hbitmap
          refine guarded_bind
            (guarded_invalidateTlb hstatic hsteady (pageAddress page)) ?_
          rintro _ flushed ⟨hflushed, hcore⟩
          refine guarded_return hstatic hflushed.within ?_
          intro final hfinal
          exact ⟨(virtualBitmap_of_core (hfinal.core.trans hcore)).trans hkept,
            hflushed.rely hfinal⟩

theorem guarded_findLevel3Table
    (steady : Steady image start pins held bitmap state)
    (virtualAddress : Nat) :
    (findLevel3Table image virtualAddress).Guarded (poolEnvironment image pins)
      (fun result after => result = tableAt image state
          (.third (level1Of virtualAddress) (level2Of virtualAddress)) ∧
        Steady image start pins held bitmap after ∧ after.core = state.core)
      state := by
  have hroot : InRam platform image.level1Table :=
    (steady.within.kept hstatic).tables .root _ rfl
  have hreturn : ∀ (result : Option Nat) middle, Caches image state middle →
      (pure result : Vm (Option Nat)).Guarded (poolEnvironment image pins)
        (fun _ after => Steady image start pins held bitmap after) middle :=
    fun result middle rely =>
      guarded_return hstatic (steady.rely rely).within
        fun current hcurrent => steady.rely (rely.trans hcurrent)
  have hweak : (findLevel3Table image virtualAddress).Guarded
      (poolEnvironment image pins)
      (fun _ after => Steady image start pins held bitmap after) state := by
    unfold findLevel3Table
    refine guarded_bind (guarded_entry hstatic steady.within hroot _) ?_
    rintro first middle ⟨hfirst, rely⟩
    by_cases hzero : first = 0
    · rw [if_pos hzero]
      exact hreturn none middle rely
    rw [if_neg hzero]
    by_cases htype : first &&& 0b11 = tableDescriptor
    · rw [if_neg (not_not.mpr htype)]
      have hsecond : tableAt image state
          (.second (level1Of virtualAddress)) =
            some (first &&& addressMask) := by
        have hchild : tableAt image state
            (.second (level1Of virtualAddress)) = child first := by
          rw [hfirst]
          rfl
        rw [hchild, child, if_pos htype]
      have hin := (steady.within.kept hstatic).tables _ _ hsecond
      refine guarded_bind
        (guarded_entry hstatic (steady.rely rely).within hin _) ?_
      rintro second last ⟨_, hlast⟩
      have hrely := rely.trans hlast
      split
      · exact hreturn none last hrely
      · split
        · exact hreturn none last hrely
        · exact hreturn _ last hrely
    · rw [if_pos htype]
      exact hreturn none middle rely
  refine (hweak.ends (agree_core state)
    (run_findLevel3Table virtualAddress)).weaken ?_
  rintro result after ⟨hsteady, hresult, hcore⟩
  exact ⟨hresult, hsteady, hcore⟩

theorem guarded_getPhysicalAddress
    (steady : Steady image start pins held bitmap state)
    (virtualAddress : Nat) :
    (getPhysicalAddress image virtualAddress).Guarded
      (poolEnvironment image pins)
      (fun result after =>
        (getPhysicalAddress image virtualAddress).run state.core =
          .ok (result, state.core) ∧
        Steady image start pins held bitmap after ∧ after.core = state.core)
      state := by
  have hweak : (getPhysicalAddress image virtualAddress).Guarded
      (poolEnvironment image pins)
      (fun _ after => Steady image start pins held bitmap after) state := by
    unfold getPhysicalAddress
    refine guarded_bind
      (guarded_findLevel3Table hstatic steady virtualAddress) ?_
    rintro found middle ⟨hfound, hmiddle, hcore⟩
    cases found with
    | none =>
        exact guarded_return hstatic hmiddle.within
          fun current rely => hmiddle.rely rely
    | some level3Table =>
        have hin := (steady.within.kept hstatic).tables _ _ hfound.symm
        refine guarded_bind (guarded_entry hstatic hmiddle.within hin _) ?_
        rintro value last ⟨_, rely⟩
        have hlast := hmiddle.rely rely
        have hreturn : ∀ result : Nat, (pure result : Vm Nat).Guarded
            (poolEnvironment image pins)
            (fun _ after => Steady image start pins held bitmap after) last :=
          fun _ => guarded_return hstatic hlast.within
            fun current hcurrent => hlast.rely hcurrent
        split
        · exact hreturn 0
        · split
          · exact hreturn 0
          · exact hreturn _
  refine (hweak.ends (agree_core state)
    (run_getPhysicalAddress virtualAddress)).weaken ?_
  rintro result after ⟨hsteady, hresult, hcore⟩
  refine ⟨?_, hsteady, hcore⟩
  rw [hresult]
  exact run_getPhysicalAddress virtualAddress

theorem guarded_unmapPage (steady : Steady image start pins none bitmap state)
    (hpage : page < virtualPageCount) (hmapped : Mapped image state page frame)
    (hout : ∀ entry, ¬ pins page entry) (loose : Loose image state frame) :
    (unmapPage image (pageAddress page)).Guarded (poolEnvironment image pins)
      (fun result after => result = true ∧
        after.virtualBitmap = state.virtualBitmap ∧
        Steady image start pins (some frame) (bitmap.clear page) after)
      state := by
  have haligned : ¬ pageAddress page &&& 0xFFF ≠ 0 := by
    rw [land_page_mask, pageAddress_mod]
    simp
  have hne : poolLeaf image state page ≠ 0 := by
    rw [show poolLeaf image state page = poolDescriptor platform frame from
      hmapped]
    exact poolDescriptor_ne_zero frame
  obtain ⟨table, htable⟩ := table_of_poolLeaf hne
  have hin := (steady.within.kept hstatic).tables _ _ htable
  unfold unmapPage
  rw [if_neg haligned]
  refine guarded_bind
    (guarded_findLevel3Table hstatic steady (pageAddress page)) ?_
  rintro found middle ⟨hfound, hmiddle, hcore⟩
  rw [htable] at hfound
  subst found
  refine guarded_bind (guarded_entry hstatic hmiddle.within hin _) ?_
  rintro value last ⟨hvalue, rely⟩
  have hlast := hmiddle.rely rely
  have hvalue' : value = poolLeaf image state page := by
    rw [hvalue, tables_of_core hcore, poolLeaf_of_table htable]
    rfl
  rw [if_neg (by rw [hvalue']; exact hne)]
  have hunmap : ∀ current, Caches image last current →
      Within image start pins (some frame) (some (page, frame))
        (current.withEntry table (level3Of (pageAddress page)) 0) ∧
      Sound image ((current.withEntry table (level3Of (pageAddress page))
        0).core.withBitmap (bitmap.clear page)) (some frame) ∧
      Fixed image start ((current.withEntry table
        (level3Of (pageAddress page)) 0).core.withBitmap
          (bitmap.clear page)) := by
    intro current hcurrent
    have hsame := (hcurrent.core.trans rely.core).trans hcore
    have hcurrentMapped : Mapped image current page frame := by
      unfold Mapped
      rw [poolLeaf_of_core hsame]
      exact hmapped
    have hcurrentTable : tableAt image current
        (.third (level1Of (pageAddress page))
          (level2Of (pageAddress page))) = some table := by
      rw [tableAt_of_core hsame]
      exact htable
    obtain ⟨hsound, hfixed, hcached, hpinned⟩ :=
      (hlast.rely hcurrent).unmapLeaf hpage hcurrentMapped hout
        (loose.of_core hsame) hcurrentTable
    refine ⟨⟨⟨_, hsound, hfixed, Near.of_bitmap ..⟩, hcached, ?_, hpinned⟩,
      hsound, hfixed⟩
    rintro other target ⟨⟩
    rfl
  refine guarded_bind (guarded_setEntry hstatic hlast.within hin
    (level3Of (pageAddress page)) 0 fun current hcurrent =>
      ⟨_, _, (hunmap current hcurrent).1⟩) ?_
  rintro _ written ⟨current, hcurrent, hwritten⟩
  obtain ⟨hwithin, hsound, hfixed⟩ := hunmap current hcurrent
  have hclose : ∀ next, Caches image written next →
      Steady image start pins (some frame) (bitmap.clear page)
        (next.flush (pageAddress page)) := by
    intro next hnext
    have hrely := hwritten.trans hnext
    have hpinned : Pinned image pins (next.flush (pageAddress page)) :=
      (hwithin.rely hrely).pinned.congr rfl
    refine ⟨?_, ?_, (hwithin.rely hrely).cached.close, hpinned⟩
    · change Sound image (next.core.withBitmap (bitmap.clear page)) _
      rw [hrely.core]
      exact hsound
    · change Fixed image start (next.core.withBitmap (bitmap.clear page))
      rw [hrely.core]
      exact hfixed
  refine guarded_bind (guarded_write hstatic (hwithin.rely hwritten)
    (permitted_flush platform (pageAddress page)) fun next hnext =>
      ⟨_, _, (hclose next hnext).within⟩) ?_
  rintro _ flushed ⟨next, hnext, hflushed⟩
  have hsteady := (hclose next hnext).rely hflushed
  have hbitmap : flushed.virtualBitmap = state.virtualBitmap := by
    rw [virtualBitmap_of_core hflushed.core]
    change next.virtualBitmap = _
    rw [virtualBitmap_of_core (hwritten.trans hnext).core]
    have hsame := virtualBitmap_of_core
      ((hcurrent.core.trans rely.core).trans hcore)
    exact hsame
  refine guarded_return hstatic hsteady.within ?_
  intro final hfinal
  exact ⟨rfl, (virtualBitmap_of_core hfinal.core).trans hbitmap,
    hsteady.rely hfinal⟩

end

end

end Planetoid.Memory
