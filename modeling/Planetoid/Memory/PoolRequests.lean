import Planetoid.Memory.PoolMapping

namespace Planetoid.Memory

open Planetoid Program Mmu TableTree VirtualMemory

/-! The accesses of the functions of `virtual_memory.cpp`. -/

section

variable {platform : Platform} {image : KernelImage platform}
  {contents : Contents} {start state middle after : MemoryState}
  {held : Option Nat} {bitmap : Bitmap} {pins : Pins} {frame page : Nat}

def Resting (image : KernelImage platform) (start : MemoryState)
    (pins : Pins) (state : MemoryState) : Prop :=
  Steady image start pins none state.virtualBitmap state

theorem Resting.sound (resting : Resting image start pins state) :
    Sound image state.core none := Steady.sound resting

theorem Resting.of_core (resting : Resting image start pins state)
    (hcore : after.core = state.core) (cached : Cached image none after) :
    Resting image start pins after := by
  unfold Resting
  rw [virtualBitmap_of_core hcore]
  exact Steady.of_core resting hcore cached

theorem Resting.rely (resting : Resting image start pins state)
    (rely : Caches image state after) : Resting image start pins after :=
  resting.of_core rely.core (Steady.rely resting rely).cached

theorem Steady.resting (steady : Steady image start pins none bitmap state)
    (hbitmap : state.virtualBitmap = bitmap) :
    Resting image start pins state := by
  unfold Resting
  rw [hbitmap]
  exact steady

theorem Resting.not_pins (resting : Resting image start pins state)
    (hpage : page < virtualPageCount)
    (hfree : state.virtualBitmap.test page = false) (entry : Nat) :
    ¬ pins page entry := by
  have hleaf : poolLeaf image state page = 0 :=
    leaf_of_free resting.sound hpage hfree
  exact (Steady.pinned resting).not_pins hleaf entry

theorem Resting.used_page (resting : Resting image start pins state)
    (hpage : page < virtualPageCount)
    (hused : state.virtualBitmap.test page = true) :
    ∃ frame, Mapped image state page frame ∧ Loose image state frame ∧
      platform.frameAddress frame ≠ 0 ∧
      (getPhysicalAddress image (pageAddress page)).run state.core =
        .ok (platform.frameAddress frame, state.core) := by
  obtain ⟨frame, hmapped, loose⟩ := resting.sound.entries page hpage
    ((resting.sound.bits page hpage).mp hused)
  obtain ⟨other, _, _, hzero, hget, _⟩ :=
    VirtualMemory.used_page resting.sound hpage hused
  have htype : leafAt image state.core (level1Of (pageAddress page))
      (level2Of (pageAddress page)) (level3Of (pageAddress page)) &&& 0b11 =
        pageDescriptor := by
    change poolLeaf image state.core page &&& 0b11 = pageDescriptor
    rw [show poolLeaf image state.core page = poolDescriptor platform frame
      from hmapped]
    exact poolDescriptor_type frame
  have hsame := hget
  rw [run_getPhysicalAddress, if_pos htype, land_page_mask, pageAddress_mod,
    Nat.add_zero] at hsame
  injection hsame with hsame
  have haddress : poolLeaf image state.core page &&& addressMask =
      platform.frameAddress other := congrArg Prod.fst hsame
  rw [show poolLeaf image state.core page = poolDescriptor platform frame from
    hmapped, poolDescriptor_address resting.sound.paging loose.bounded]
    at haddress
  rw [← haddress] at hzero hget
  exact ⟨frame, hmapped, ⟨loose.bounded, loose.unreserved, loose.noTable⟩,
    hzero, hget⟩

section

variable (hstatic : start.static image = Contents.initial image contents)

include hstatic

theorem guarded_resting {α : Type} (resting : Resting image start pins state)
    (value : α) :
    (pure value : Vm α).Guarded (poolEnvironment image pins)
      (fun _ after => Resting image start pins after) state :=
  guarded_return hstatic (Steady.within resting)
    fun _ rely => resting.rely rely

/-! The bitmap of pages. -/

theorem guarded_isPageUsed (resting : Resting image start pins state)
    (page : Nat) :
    (isPageUsed page).Guarded (poolEnvironment image pins)
      (fun result after => result = state.virtualBitmap.test page ∧
        Caches image state after) state := by
  apply guarded_read hstatic (Steady.within resting)
  intro _ _ same
  rw [same.virtualBitmap]

theorem guarded_setPage (steady : Steady image start pins held bitmap state)
    (page : Nat) (change : BitVec 8 → BitVec 8) :
    (do
      let byte ← read (·.virtualBitmap (page / 8))
      write fun state => { state with
        virtualBitmap := Function.update state.virtualBitmap (page / 8)
          (change byte) } : Vm Unit).Guarded (poolEnvironment image pins)
      (fun _ after => Steady image start pins held bitmap after ∧
        after.virtualBitmap = Function.update state.virtualBitmap (page / 8)
          (change (state.virtualBitmap (page / 8)))) state := by
  refine guarded_bind (guarded_read hstatic steady.within
    (fun _ _ same => congrFun same.virtualBitmap _)) ?_
  rintro byte middle ⟨rfl, rely⟩
  have hmiddle := steady.rely rely
  have hwrite : ∀ current, Caches image middle current →
      Steady image start pins held bitmap { current with
        virtualBitmap := Function.update current.virtualBitmap (page / 8)
          (change (state.virtualBitmap (page / 8))) } := by
    intro current hcurrent
    obtain ⟨sound, fixed, cached, pinned⟩ := hmiddle.rely hcurrent
    exact ⟨sound, fixed, cached, pinned.congr rfl⟩
  refine (guarded_write hstatic hmiddle.within (permitted_virtual platform
    (page / 8) (change (state.virtualBitmap (page / 8))))
    fun current hcurrent => ⟨_, _, (hwrite current hcurrent).within⟩).weaken ?_
  rintro _ after ⟨current, hcurrent, hafter⟩
  refine ⟨(hwrite current hcurrent).rely hafter, ?_⟩
  rw [virtualBitmap_of_core hafter.core]
  simp only
  rw [virtualBitmap_of_core (rely.trans hcurrent).core]

theorem guarded_setPageUsed
    (steady : Steady image start pins none (state.virtualBitmap.set page)
      state) :
    (setPageUsed page).Guarded (poolEnvironment image pins)
      (fun _ after => Resting image start pins after) state := by
  refine (guarded_setPage hstatic steady page
    (· ||| (1#8 <<< (page % 8)))).weaken ?_
  rintro _ after ⟨hsteady, hbitmap⟩
  exact hsteady.resting hbitmap

theorem guarded_setPageFree
    (steady : Steady image start pins none (state.virtualBitmap.clear page)
      state) :
    (setPageFree page).Guarded (poolEnvironment image pins)
      (fun _ after => Resting image start pins after) state := by
  refine (guarded_setPage hstatic steady page
    (· &&& ~~~(1#8 <<< (page % 8)))).weaken ?_
  rintro _ after ⟨hsteady, hbitmap⟩
  exact hsteady.resting hbitmap

theorem guarded_search {β γ : Type} {first count : Nat}
    {body : Nat → β → Vm (β ⊕ γ)}
    (hbody : ∀ index value before, index < first + count →
      Resting image start pins before →
      (body index value).Guarded (poolEnvironment image pins)
        (fun _ after => Resting image start pins after) before)
    (resting : Resting image start pins state) (value : β) :
    (forRange body first count value).Guarded (poolEnvironment image pins)
      (fun _ after => Resting image start pins after) state := by
  have hrest : ∀ before, Resting image start pins before →
      ∀ current, Caches image before current →
        Kept image pins current ∧ Resting image start pins current := by
    intro before hbefore current rely
    have hcurrent := hbefore.rely rely
    exact ⟨(Steady.within hcurrent).kept hstatic, hcurrent⟩
  apply @guarded_forRange _ _ _ _ _ _
    (fun _ _ current => Resting image start pins current)
  · intro index value before hindex hbefore
    refine (hbody index value before hindex hbefore).weaken ?_
    intro result after hafter
    cases result with
    | inl next => exact hafter
    | inr left => exact hafter
  · exact fun _ before hbefore => hrest before hbefore
  · exact fun _ before hbefore => hrest before hbefore
  · exact resting

theorem guarded_findFreePage (resting : Resting image start pins state) :
    findFreePage.Guarded (poolEnvironment image pins)
      (fun result after =>
        result = (firstFree state.core).getD virtualPageCount ∧
        after.core = state.core ∧ Resting image start pins after) state := by
  have hweak : findFreePage.Guarded (poolEnvironment image pins)
      (fun _ after => Resting image start pins after) state := by
    unfold findFreePage
    refine guarded_bind (guarded_search hstatic ?_ resting ()) ?_
    · intro index _ before _ hbefore
      refine guarded_bind (guarded_isPageUsed hstatic hbefore index) ?_
      rintro used middle ⟨_, rely⟩
      cases used with
      | true => exact guarded_resting hstatic (hbefore.rely rely) _
      | false => exact guarded_resting hstatic (hbefore.rely rely) _
    · intro result after hafter
      cases result with
      | inl _ => exact guarded_resting hstatic hafter _
      | inr page => exact guarded_resting hstatic hafter _
  refine (hweak.ends (agree_core state)
    (run_findFreePage state.core)).weaken ?_
  rintro result after ⟨hresting, hresult, hcore⟩
  exact ⟨hresult, hcore, hresting⟩

theorem guarded_findFreePages (resting : Resting image start pins state)
    (pageCount : Nat) :
    (findFreePages pageCount).Guarded (poolEnvironment image pins)
      (fun first after =>
        (first = virtualPageCount ∨ FreeRun state.core first pageCount) ∧
        after.core = state.core ∧ Resting image start pins after) state := by
  have hweak : (findFreePages pageCount).Guarded (poolEnvironment image pins)
      (fun _ after => Resting image start pins after) state := by
    unfold findFreePages
    refine guarded_bind (guarded_search hstatic ?_ resting 0) ?_
    · intro index count before _ hbefore
      unfold countFreePage
      refine guarded_bind (guarded_isPageUsed hstatic hbefore index) ?_
      rintro used middle ⟨_, rely⟩
      have hmiddle := hbefore.rely rely
      cases used with
      | true => exact guarded_resting hstatic hmiddle _
      | false =>
          rw [if_neg Bool.false_ne_true]
          split
          · exact guarded_resting hstatic hmiddle _
          · exact guarded_resting hstatic hmiddle _
    · intro result after hafter
      cases result with
      | inl _ => exact guarded_resting hstatic hafter _
      | inr page => exact guarded_resting hstatic hafter _
  obtain ⟨first, hrun, hfirst⟩ := run_findFreePages state.core pageCount
  refine (hweak.ends (agree_core state) hrun).weaken ?_
  rintro result after ⟨hresting, rfl, hcore⟩
  exact ⟨hfirst, hcore, hresting⟩

/-! Allocating. -/

theorem guarded_fill {α : Type} (resting : Resting image start pins state)
    (hpage : page < virtualPageCount)
    (hfree : state.virtualBitmap.test page = false) (success failure : α) :
    (do
      let frame ← PhysicalMemory.allocateFrame platform
      if frame = 0 then
        pure failure
      else if ← mapPage image (virtualMemoryStart + page * pageSize) frame
          .normal poolPermissions then do
        setPageUsed page
        pure success
      else do
        PhysicalMemory.freeFrame platform frame
        pure failure : Vm α).Guarded (poolEnvironment image pins)
      (fun _ after => Resting image start pins after) state := by
  refine guarded_bind (guarded_allocateFrame hstatic resting) ?_
  rintro address middle ⟨haddress, hcore, hwithin⟩
  unfold PhysicalMemory.allocateEffect at haddress hcore
  cases hnext : state.core.nextFrame with
  | none =>
      rw [hnext] at haddress hcore
      simp only at haddress hcore
      rw [if_pos haddress]
      exact guarded_resting hstatic (resting.of_core hcore hwithin.cached) _
  | some frame =>
      rw [hnext] at haddress hcore
      simp only at haddress hcore
      have hclaimed : Steady image start pins (some frame) state.virtualBitmap
          middle := Steady.claim resting hnext hcore hwithin.cached
      have hbitmap : middle.virtualBitmap = state.virtualBitmap := by
        have hsame := congrArg MemoryState.virtualBitmap hcore
        exact hsame
      have hempty : poolLeaf image middle page = 0 := by
        rw [← leaf_of_free resting.sound hpage hfree]
        have hsame := congrArg (fun current => poolLeaf image current page)
          hcore
        exact hsame
      have hloose := (resting.sound.loose_of_free hnext).1
      rw [haddress, if_neg (frameAddress_ne_zero image hloose.unreserved)]
      refine guarded_bind
        (guarded_mapPage hstatic hclaimed hpage hempty) ?_
      rintro mapped last ⟨hkept, hlast⟩
      have hlastBitmap := hkept.trans hbitmap
      cases mapped with
      | true =>
          rw [if_pos rfl] at hlast ⊢
          rw [← hlastBitmap] at hlast
          refine guarded_bind (guarded_setPageUsed hstatic hlast) ?_
          exact fun _ after hafter => guarded_resting hstatic hafter _
      | false =>
          rw [if_neg Bool.false_ne_true] at hlast ⊢
          refine guarded_bind (guarded_freeFrame hstatic hlast) ?_
          rintro _ after ⟨hafter, hsame⟩
          have hafterBitmap : after.virtualBitmap = last.virtualBitmap := by
            have hbits := congrArg MemoryState.virtualBitmap hsame
            exact hbits
          exact guarded_resting hstatic
            (hafter.resting (hafterBitmap.trans hlastBitmap)) _

theorem guarded_allocatePage (resting : Resting image start pins state) :
    (allocatePage image).Guarded (poolEnvironment image pins)
      (fun _ after => Resting image start pins after) state := by
  unfold allocatePage
  refine guarded_bind (guarded_findFreePage hstatic resting) ?_
  rintro page middle ⟨hfound, hcore, hmiddle⟩
  split
  · exact guarded_resting hstatic hmiddle _
  · rename_i hne
    cases hfirst : firstFree state.core with
    | none =>
        rw [hfirst] at hfound
        exact absurd hfound hne
    | some first =>
        rw [hfirst, Option.getD_some] at hfound
        obtain ⟨hlt, hfree⟩ := firstFree_spec hfirst
        rw [← hfound] at hlt hfree
        apply guarded_fill hstatic hmiddle hlt
        rw [virtualBitmap_of_core hcore]
        exact hfree

theorem guarded_allocateNext (resting : Resting image start pins state)
    (hpage : page < virtualPageCount)
    (hfree : state.virtualBitmap.test page = false) (count : Nat) :
    (allocateNext image page count).Guarded (poolEnvironment image pins)
      (fun _ after => Resting image start pins after ∧
        ∀ other, other ≠ page → after.virtualBitmap.test other =
          state.virtualBitmap.test other) state := by
  have hweak : (allocateNext image page count).Guarded
      (poolEnvironment image pins)
      (fun _ after => Resting image start pins after) state :=
    guarded_fill hstatic resting hpage hfree _ _
  have filled := fillEffect_filled resting.sound hpage hfree
  refine (hweak.ends (agree_core state)
    (run_allocateNext resting.sound page count)).weaken ?_
  rintro result after ⟨hresting, _, hcore⟩
  refine ⟨hresting, ?_⟩
  intro other hne
  rw [virtualBitmap_of_core hcore, filled.bit other, if_neg hne]
  rfl

/-! Freeing. -/

theorem guarded_reclaim
    (steady : Steady image start pins (some frame)
      (state.virtualBitmap.clear page) state) {α : Type} (value : α) :
    (do
      PhysicalMemory.freeFrame platform (platform.frameAddress frame)
      setPageFree page
      pure value : Vm α).Guarded (poolEnvironment image pins)
      (fun _ after => Resting image start pins after) state := by
  refine guarded_bind (guarded_freeFrame hstatic steady) ?_
  rintro _ middle ⟨hmiddle, hcore⟩
  have hbitmap : middle.virtualBitmap = state.virtualBitmap := by
    have hbits := congrArg MemoryState.virtualBitmap hcore
    exact hbits
  rw [← hbitmap] at hmiddle
  refine guarded_bind (guarded_setPageFree hstatic hmiddle) ?_
  exact fun _ after hafter => guarded_resting hstatic hafter _

theorem guarded_rollBack (resting : Resting image start pins state)
    (hpage : page < virtualPageCount)
    (hused : state.virtualBitmap.test page = true)
    (hout : ∀ entry, ¬ pins page entry) :
    (rollBack image page).Guarded (poolEnvironment image pins)
      (fun _ after => Resting image start pins after ∧
        ∀ other, other ≠ page → after.virtualBitmap.test other =
          state.virtualBitmap.test other) state := by
  obtain ⟨frame, hmapped, loose, _, hget⟩ := resting.used_page hpage hused
  have hweak : (rollBack image page).Guarded (poolEnvironment image pins)
      (fun _ after => Resting image start pins after) state := by
    unfold rollBack
    refine guarded_bind
      (guarded_getPhysicalAddress hstatic resting (pageAddress page)) ?_
    rintro address middle ⟨haddress, hmiddle, hcore⟩
    rw [hget] at haddress
    injection haddress with haddress
    injection haddress with haddress _
    subst address
    have hmiddleMapped : Mapped image middle page frame := by
      unfold Mapped
      rw [poolLeaf_of_core hcore]
      exact hmapped
    have hmiddleLoose := loose.of_core hcore
    refine guarded_bind (guarded_unmapPage hstatic hmiddle hpage
      hmiddleMapped hout hmiddleLoose) ?_
    rintro _ last ⟨_, hbitmap, hlast⟩
    rw [← virtualBitmap_of_core hcore, ← hbitmap] at hlast
    exact guarded_reclaim hstatic hlast ()
  have filled := emptyEffect_filled resting.sound hpage hused
  refine (hweak.ends (agree_core state)
    (run_rollBack resting.sound hpage hused)).weaken ?_
  rintro result after ⟨hresting, _, hcore⟩
  refine ⟨hresting, ?_⟩
  intro other hne
  rw [virtualBitmap_of_core hcore, filled.bit other, if_neg hne]
  rfl

theorem guarded_allocatePages (resting : Resting image start pins state)
    (pageCount : Nat) :
    (allocatePages image pageCount).Guarded (poolEnvironment image pins)
      (fun _ after => Resting image start pins after) state := by
  have hrest : ∀ before, Resting image start pins before →
      ∀ current, Caches image before current →
        Kept image pins current ∧ Resting image start pins current := by
    intro before hbefore current rely
    have hcurrent := hbefore.rely rely
    exact ⟨(Steady.within hcurrent).kept hstatic, hcurrent⟩
  unfold allocatePages
  split
  · exact guarded_resting hstatic resting _
  split
  · exact guarded_resting hstatic resting _
  refine guarded_bind (guarded_findFreePages hstatic resting pageCount) ?_
  rintro first middle ⟨hfirst, hcore, hmiddle⟩
  split
  · exact guarded_resting hstatic hmiddle _
  rename_i hne
  obtain ⟨hbound, hfree⟩ : FreeRun middle first pageCount := by
    rcases hfirst with heq | hfound
    · exact absurd heq hne
    · refine ⟨hfound.1, ?_⟩
      intro page hlow hhigh
      rw [virtualBitmap_of_core hcore]
      exact hfound.2 page hlow hhigh
  have hout : ∀ page, first ≤ page → page < first + pageCount →
      ∀ entry, ¬ pins page entry := by
    intro page hlow hhigh
    exact hmiddle.not_pins (by omega) (hfree page hlow hhigh)
  have hloop : (forRange (allocateNext image) first pageCount 0).Guarded
      (poolEnvironment image pins)
      (fun _ after => Resting image start pins after) middle := by
    apply @guarded_forRange _ _ _ _ _ _ (fun index _ current =>
      Resting image start pins current ∧ ∀ page, index ≤ page →
        page < first + pageCount → current.virtualBitmap.test page = false)
    · rintro index count before hindex ⟨hbefore, hrun⟩
      refine (guarded_allocateNext hstatic hbefore (by omega)
        (hrun index (Nat.le_refl index) hindex) count).weaken ?_
      rintro result after ⟨hafter, hkept⟩
      cases result with
      | inl next =>
          refine ⟨hafter, ?_⟩
          intro page hlow hhigh
          rw [hkept page (by omega)]
          exact hrun page (by omega) hhigh
      | inr left => exact hafter
    · exact fun _ before hbefore => hrest before hbefore.1
    · exact fun _ before hbefore => hrest before hbefore
    · exact ⟨hmiddle, hfree⟩
  obtain ⟨filled, undisturbed, hle, hrun, _, hbits⟩ :=
    run_allocateLoop hmiddle.sound hbound hfree 0
  refine guarded_bind (hloop.ends (agree_core middle) hrun) ?_
  rintro stopped after ⟨hafter, rfl, hsame⟩
  simp only [Nat.zero_add]
  have hcounted : Sum.elim id id (if filled = pageCount then
      (.inl filled : Nat ⊕ Nat) else .inr filled) = filled := by
    split <;> rfl
  rw [hcounted]
  split
  · refine guarded_bind (@guarded_forEach _ _ _ _ (fun index current =>
      Resting image start pins current ∧ ∀ page, first + index ≤ page →
        page < first + filled → current.virtualBitmap.test page = true)
      _ _ _ ?_ ?_ ?_) ?_
    · rintro index before hindex ⟨hbefore, hused⟩
      refine (guarded_rollBack hstatic hbefore (by omega)
        (hused (first + index) (Nat.le_refl _) (by omega))
        (hout (first + index) (Nat.le_add_right ..) (by omega))).weaken ?_
      rintro _ next ⟨hnext, hkept⟩
      refine ⟨hnext, ?_⟩
      intro page hlow hhigh
      rw [hkept page (by omega)]
      exact hused page (by omega) hhigh
    · rintro before ⟨hbefore, _⟩ current rely
      obtain ⟨hkept, hcurrent⟩ := hrest before hbefore current rely
      exact ⟨hkept, hcurrent, fun page hlow hhigh => by omega⟩
    · refine ⟨hafter, ?_⟩
      intro page hlow hhigh
      rw [virtualBitmap_of_core hsame]
      exact hbits.inside (by omega) hhigh
    · rintro _ last ⟨hlast, _⟩
      exact guarded_resting hstatic hlast _
  · exact guarded_resting hstatic hafter _

theorem guarded_freePage (resting : Resting image start pins state)
    {virtualAddress : Nat}
    (hout : ∀ page entry, virtualAddress = pageAddress page →
      ¬ pins page entry) :
    (freePage image virtualAddress).Guarded (poolEnvironment image pins)
      (fun _ after => Resting image start pins after) state := by
  unfold freePage
  split
  · exact guarded_resting hstatic resting _
  split
  · exact guarded_resting hstatic resting _
  rename_i hrange haligned
  obtain ⟨page, hpage, rfl⟩ := pageAddress_of_valid hrange haligned
  simp only [pageAddress_page]
  refine guarded_bind (guarded_isPageUsed hstatic resting page) ?_
  rintro used middle ⟨hused, rely⟩
  have hmiddle := resting.rely rely
  cases used with
  | false => exact guarded_resting hstatic hmiddle _
  | true =>
      rw [← virtualBitmap_of_core rely.core] at hused
      obtain ⟨frame, hmapped, loose, hzero, hget⟩ :=
        hmiddle.used_page hpage hused.symm
      refine guarded_bind
        (guarded_getPhysicalAddress hstatic hmiddle (pageAddress page)) ?_
      rintro address last ⟨haddress, hlast, hcore⟩
      rw [hget] at haddress
      injection haddress with haddress
      injection haddress with haddress _
      subst address
      rw [if_neg hzero]
      have hlastMapped : Mapped image last page frame := by
        unfold Mapped
        rw [poolLeaf_of_core hcore]
        exact hmapped
      have hlastLoose := loose.of_core hcore
      refine guarded_bind (guarded_unmapPage hstatic hlast hpage hlastMapped
        (fun entry => hout page entry rfl) hlastLoose) ?_
      rintro _ after ⟨rfl, hbitmap, hafter⟩
      rw [← virtualBitmap_of_core hcore, ← hbitmap] at hafter
      exact guarded_reclaim hstatic hafter true

theorem guarded_checkPage (resting : Resting image start pins state)
    (virtualAddress i : Nat) :
    (checkPage image virtualAddress i).Guarded (poolEnvironment image pins)
      (fun _ after => Resting image start pins after) state := by
  unfold checkPage
  refine guarded_bind (guarded_isPageUsed hstatic resting _) ?_
  rintro used middle ⟨_, rely⟩
  have hmiddle := resting.rely rely
  cases used with
  | false => exact guarded_resting hstatic hmiddle _
  | true =>
      refine guarded_bind
        (guarded_getPhysicalAddress hstatic hmiddle _) ?_
      rintro address last ⟨_, hlast, hcore⟩
      have hresting := hmiddle.of_core hcore hlast.cached
      split
      · exact guarded_resting hstatic hresting _
      · exact guarded_resting hstatic hresting _

theorem guarded_freePages (resting : Resting image start pins state)
    {virtualAddress pageCount : Nat}
    (hout : ∀ i, i < pageCount → ∀ page entry,
      virtualAddress + i * pageSize = pageAddress page → ¬ pins page entry) :
    (freePages image virtualAddress pageCount).Guarded
      (poolEnvironment image pins)
      (fun _ after => Resting image start pins after) state := by
  unfold freePages
  split
  · exact guarded_resting hstatic resting _
  split
  · exact guarded_resting hstatic resting _
  split
  · exact guarded_resting hstatic resting _
  simp only
  split
  · exact guarded_resting hstatic resting _
  refine guarded_bind (guarded_search hstatic (fun index _ before _ hbefore =>
    guarded_checkPage hstatic hbefore virtualAddress index) resting ()) ?_
  intro checked middle hmiddle
  cases checked with
  | inr result => exact guarded_resting hstatic hmiddle _
  | inl _ =>
      refine guarded_bind (guarded_search hstatic ?_ hmiddle ()) ?_
      · intro index _ before hindex hbefore
        refine guarded_bind (guarded_freePage hstatic hbefore
          (hout index (by omega))) ?_
        intro freed after hafter
        cases freed with
        | true => exact guarded_resting hstatic hafter _
        | false => exact guarded_resting hstatic hafter _
      · intro freed after hafter
        cases freed with
        | inl _ => exact guarded_resting hstatic hafter _
        | inr result => exact guarded_resting hstatic hafter _

theorem PoolOperation.guarded (resting : Resting image start noPins state)
    (operation : PoolOperation) :
    (operation.program image).Guarded (poolEnvironment image noPins)
      (fun _ after => Resting image start noPins after) state := by
  cases operation with
  | allocatePage =>
      exact guarded_bind (guarded_allocatePage hstatic resting)
        fun _ after hafter => guarded_resting hstatic hafter _
  | allocatePages pageCount =>
      exact guarded_bind (guarded_allocatePages hstatic resting pageCount)
        fun _ after hafter => guarded_resting hstatic hafter _
  | freePage virtualAddress =>
      exact guarded_bind (guarded_freePage hstatic resting fun _ _ _ h => h)
        fun _ after hafter => guarded_resting hstatic hafter _
  | freePages virtualAddress pageCount =>
      exact guarded_bind
        (guarded_freePages hstatic resting fun _ _ _ _ _ h => h)
        fun _ after hafter => guarded_resting hstatic hafter _

end

end

end Planetoid.Memory
