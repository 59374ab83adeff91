import Planetoid.Memory.PoolPages

namespace Planetoid.Memory.VirtualMemory

open Planetoid Program Mmu TableTree

/-! What the functions of `virtual_memory.cpp` do in a sound state. -/

section

variable {platform : Platform} {image : KernelImage platform}
  {state : MemoryState}

theorem run_isPageUsed (page : Nat) :
    (isPageUsed page).run state =
      .ok (state.virtualBitmap.test page, state) := rfl

def firstFree (state : MemoryState) : Option Nat :=
  (List.range' 0 virtualPageCount).find? fun page =>
    !state.virtualBitmap.test page

theorem firstFree_spec {page : Nat} (h : firstFree state = some page) :
    page < virtualPageCount ∧ state.virtualBitmap.test page = false := by
  have hmem := List.mem_of_find?_eq_some h
  have hfound := List.find?_some h
  exact ⟨by simpa using hmem, by simpa using hfound⟩

theorem run_findFreePage (state : MemoryState) :
    findFreePage.run state =
      .ok ((firstFree state).getD virtualPageCount, state) := by
  have hloop := @run_forRange_find _ _ _ (fun page _ => do
      if ← isPageUsed page then pure (.inl ()) else pure (.inr page))
    (fun page => !state.virtualBitmap.test page) (fun page => (page, state))
    state
    (by
      intro page hused
      rw [run_bind_ok (run_isPageUsed page)]
      simp only [Bool.not_eq_false'] at hused
      rw [hused]
      rfl)
    (by
      intro page hfree
      rw [run_bind_ok (run_isPageUsed page)]
      simp only [Bool.not_eq_true'] at hfree
      rw [hfree]
      rfl) 0 virtualPageCount
  unfold findFreePage firstFree
  cases hfind : (List.range' 0 virtualPageCount).find?
      (fun page => !state.virtualBitmap.test page) with
  | none =>
      rw [hfind] at hloop
      exact run_bind_ok hloop _
  | some page =>
      rw [hfind] at hloop
      exact run_bind_ok hloop _

theorem run_mapPage_claimed (sound : Sound image state none) {frame : Nat}
    (hframe : state.nextFrame = some frame) (page : Nat) :
    ∃ mapped grown,
      (mapPage image (virtualMemoryStart + page * pageSize)
        (platform.frameAddress frame) .normal poolPermissions).run
          (state.claim frame) = .ok (mapped, grown) ∧
      frame < grown.frameCount ∧
      fillEffect image state page =
        if mapped then (true, grown.usePage page)
        else (false, grown.release frame) := by
  have claimed := sound.claim hframe
  have hrun := run_mapPage claimed.paging (pageAddress_mod page)
    (platform.frameAddress_mod frame) .normal poolPermissions
  obtain ⟨grown, extended, hcases⟩ := mapEffect_cases claimed.paging
    (pageAddress page) (poolDescriptor platform frame)
  have hlt : frame < grown.frameCount :=
    ((claimed.extends extended).held frame rfl).1.bounded
  unfold fillEffect
  rw [hframe]
  simp only
  rcases hcases with heq | ⟨table, _, _, heq⟩
  · refine ⟨false, grown, ?_, hlt, ?_⟩
    · rw [← heq]
      exact hrun
    · rw [heq]
      rfl
  · refine ⟨true, (grown.withEntry table (level3Of (pageAddress page))
      (poolDescriptor platform frame)).flush (pageAddress page), ?_, hlt, ?_⟩
    · rw [← heq]
      exact hrun
    · rw [heq]
      rfl

theorem run_allocateFrame_none (h : state.nextFrame = none) :
    (PhysicalMemory.allocateFrame platform).run state = .ok (0, state) := by
  rw [PhysicalMemory.run_allocateFrame, PhysicalMemory.allocateEffect, h]

theorem run_allocateFrame_some {frame : Nat}
    (h : state.nextFrame = some frame) :
    (PhysicalMemory.allocateFrame platform).run state =
      .ok (platform.frameAddress frame, state.claim frame) := by
  rw [PhysicalMemory.run_allocateFrame, PhysicalMemory.allocateEffect, h]

theorem fillEffect_none (h : state.nextFrame = none) (page : Nat) :
    fillEffect image state page = (false, state) := by
  unfold fillEffect
  rw [h]

theorem run_allocateNext (sound : Sound image state none) (page count : Nat) :
    (allocateNext image page count).run state =
      .ok (if (fillEffect image state page).1 then .inl (count + 1)
        else .inr count, (fillEffect image state page).2) := by
  unfold allocateNext
  cases hframe : state.nextFrame with
  | none =>
      rw [run_bind_ok (run_allocateFrame_none hframe),
        fillEffect_none hframe]
      rfl
  | some frame =>
      have hloose := (sound.loose_of_free hframe).1
      obtain ⟨mapped, grown, hrun, hlt, heq⟩ :=
        run_mapPage_claimed sound hframe page
      rw [run_bind_ok (run_allocateFrame_some hframe),
        if_neg (frameAddress_ne_zero image hloose.unreserved),
        run_bind_ok hrun, heq]
      cases mapped with
      | true => rfl
      | false =>
          exact run_bind_ok (PhysicalMemory.run_freeFrame platform hlt) _

theorem run_allocatePage (sound : Sound image state none) :
    (allocatePage image).run state =
      .ok (match firstFree state with
        | none => (0, state)
        | some page =>
          (if (fillEffect image state page).1 then pageAddress page else 0,
            (fillEffect image state page).2)) := by
  unfold allocatePage
  rw [run_bind_ok (run_findFreePage state)]
  cases hpage : firstFree state with
  | none => rfl
  | some page =>
      obtain ⟨hlt, _⟩ := firstFree_spec hpage
      rw [Option.getD_some, if_neg (Nat.ne_of_lt hlt)]
      simp only
      cases hframe : state.nextFrame with
      | none =>
          rw [run_bind_ok (run_allocateFrame_none hframe),
            fillEffect_none hframe]
          rfl
      | some frame =>
          have hloose := (sound.loose_of_free hframe).1
          obtain ⟨mapped, grown, hrun, hbound, heq⟩ :=
            run_mapPage_claimed sound hframe page
          rw [run_bind_ok (run_allocateFrame_some hframe),
            if_neg (frameAddress_ne_zero image hloose.unreserved)]
          refine (run_bind_ok hrun _).trans ?_
          rw [heq]
          cases mapped with
          | true => rfl
          | false =>
              exact run_bind_ok
                (PhysicalMemory.run_freeFrame platform hbound) _

theorem used_page (sound : Sound image state none) {page : Nat}
    (hpage : page < virtualPageCount)
    (hused : state.virtualBitmap.test page = true) :
    ∃ frame table, frame < state.frameCount ∧
      platform.frameAddress frame ≠ 0 ∧
      (getPhysicalAddress image (pageAddress page)).run state =
        .ok (platform.frameAddress frame, state) ∧
      (unmapPage image (pageAddress page)).run state =
        .ok (true, (state.withEntry table (level3Of (pageAddress page))
          0).flush (pageAddress page)) ∧
      emptyEffect image state page =
        (((state.withEntry table (level3Of (pageAddress page)) 0).flush
          (pageAddress page)).release frame).leavePage page := by
  have hleaf := (sound.bits page hpage).mp hused
  obtain ⟨frame, hmapped, loose⟩ := sound.entries page hpage hleaf
  obtain ⟨table, htable⟩ := table_of_poolLeaf hleaf
  have hoffset : pageAddress page &&& 0xFFF = 0 := by
    rw [land_page_mask, pageAddress_mod]
  have htype : poolLeaf image state page &&& 0b11 = pageDescriptor := by
    rw [hmapped]
    exact poolDescriptor_type frame
  have haddress : poolLeaf image state page &&& addressMask =
      platform.frameAddress frame := by
    rw [hmapped]
    exact poolDescriptor_address sound.paging loose.bounded
  refine ⟨frame, table, loose.bounded,
    frameAddress_ne_zero image loose.unreserved, ?_, ?_, ?_⟩
  · rw [run_getPhysicalAddress]
    change Except.ok (if poolLeaf image state page &&& 0b11 = pageDescriptor
      then (poolLeaf image state page &&& addressMask) +
        (pageAddress page &&& 0xFFF) else 0, state) = _
    rw [if_pos htype, haddress, hoffset, Nat.add_zero]
  · rw [run_unmapPage (pageAddress_mod page), htable]
    simp only
    rw [if_neg (by rw [← poolLeaf_of_table htable]; exact hleaf)]
  · unfold emptyEffect
    rw [htable]
    simp only
    rw [haddress, platform.getFrameNumber_frameAddress]

theorem run_rollBack (sound : Sound image state none) {page : Nat}
    (hpage : page < virtualPageCount)
    (hused : state.virtualBitmap.test page = true) :
    (rollBack image page).run state =
      .ok ((), emptyEffect image state page) := by
  obtain ⟨frame, table, hlt, _, hget, hunmap, heq⟩ :=
    used_page sound hpage hused
  unfold rollBack
  refine (run_bind_ok hget _).trans ?_
  refine (run_bind_ok hunmap _).trans ?_
  have hfree := @PhysicalMemory.run_freeFrame platform ((state.withEntry table
    (level3Of (pageAddress page)) 0).flush (pageAddress page)) frame hlt
  refine (run_bind_ok hfree _).trans ?_
  rw [heq]
  rfl

/-- The pages from `first` to `first + count` have the bit `used`, the others
are as before. -/
structure Bits (image : KernelImage platform) (before after : MemoryState)
    (first count : Nat) (used : Bool) : Prop where
  bit : ∀ page, after.virtualBitmap.test page =
    if first ≤ page ∧ page < first + count then used
    else before.virtualBitmap.test page
  leaf : ∀ page, page < virtualPageCount →
    page < first ∨ first + count ≤ page →
    poolLeaf image after page = poolLeaf image before page
  frameCount : after.frameCount = before.frameCount

theorem Bits.zero (state : MemoryState) (first : Nat) (used : Bool) :
    Bits image state state first 0 used := by
  refine ⟨?_, fun _ _ _ => rfl, rfl⟩
  intro page
  rw [if_neg (by omega)]

theorem Bits.cons {before middle after : MemoryState} {first count : Nat}
    {used : Bool} (filled : Filled image before first used middle)
    (hrest : Bits image middle after (first + 1) count used) :
    Bits image before after first (count + 1) used := by
  refine ⟨?_, ?_, hrest.frameCount.trans filled.frameCount⟩
  · intro page
    rw [hrest.bit page, filled.bit page]
    by_cases heq : page = first
    · rw [if_pos heq, if_neg (by omega), if_pos (by omega)]
    · rw [if_neg heq]
      by_cases hin : first + 1 ≤ page ∧ page < first + 1 + count
      · rw [if_pos hin, if_pos (by omega)]
      · rw [if_neg hin, if_neg (by omega)]
  · intro page hpage hout
    rw [hrest.leaf page hpage (by omega), filled.leaf page hpage (by omega)]

theorem Bits.inside {before after : MemoryState} {first count : Nat}
    {used : Bool} (bits : Bits image before after first count used) {page : Nat}
    (hfirst : first ≤ page) (hlast : page < first + count) :
    after.virtualBitmap.test page = used := by
  rw [bits.bit page, if_pos ⟨hfirst, hlast⟩]

theorem Bits.outside {before after : MemoryState} {first count : Nat}
    {used : Bool} (bits : Bits image before after first count used) {page : Nat}
    (h : page < first ∨ first + count ≤ page) :
    after.virtualBitmap.test page = before.virtualBitmap.test page := by
  rw [bits.bit page, if_neg (by omega)]

theorem leaf_of_free (sound : Sound image state none) {page : Nat}
    (hpage : page < virtualPageCount)
    (hfree : state.virtualBitmap.test page = false) :
    poolLeaf image state page = 0 := by
  by_contra hentry
  rw [(sound.bits page hpage).mpr hentry] at hfree
  cases hfree

theorem unchanged_of_filled (sound : Sound image state none) {page : Nat}
    (hpage : page < virtualPageCount)
    (hfree : state.virtualBitmap.test page = false) {after : MemoryState}
    (filled : Filled image state page false after) (first : Nat)
    (used : Bool) : Bits image state after first 0 used := by
  refine ⟨?_, ?_, filled.frameCount⟩
  · intro other
    rw [filled.bit other]
    by_cases heq : other = page
    · rw [if_pos heq, if_neg (by omega), heq, hfree]
    · rw [if_neg heq, if_neg (by omega)]
  · intro other hlt _
    by_cases heq : other = page
    · have hnow := filled.bit page
      rw [if_pos rfl] at hnow
      rw [heq, leaf_of_free sound hpage hfree,
        leaf_of_free filled.sound hpage hnow]
    · exact filled.leaf other hlt heq

theorem Bits.undone {middle after : MemoryState} {first count : Nat}
    (sound : Sound image state none) (afterSound : Sound image after none)
    (filled : Bits image state middle first count true)
    (emptied : Bits image middle after first count false)
    (hfree : ∀ page, first ≤ page → page < first + count →
      state.virtualBitmap.test page = false) :
    Bits image state after first 0 false := by
  have hbit : ∀ page, after.virtualBitmap.test page =
      state.virtualBitmap.test page := by
    intro page
    by_cases hin : first ≤ page ∧ page < first + count
    · rw [emptied.inside hin.1 hin.2, hfree page hin.1 hin.2]
    · rw [emptied.outside (by omega), filled.outside (by omega)]
  refine ⟨?_, ?_, emptied.frameCount.trans filled.frameCount⟩
  · intro page
    rw [if_neg (by omega)]
    exact hbit page
  · intro page hpage _
    by_cases hin : first ≤ page ∧ page < first + count
    · have hbefore := hfree page hin.1 hin.2
      rw [leaf_of_free sound hpage hbefore, leaf_of_free afterSound hpage
        ((hbit page).trans hbefore)]
    · rw [emptied.leaf page hpage (by omega),
        filled.leaf page hpage (by omega)]

theorem run_allocateLoop (sound : Sound image state none)
    {first count : Nat} (hbound : first + count ≤ virtualPageCount)
    (hfree : ∀ page, first ≤ page → page < first + count →
      state.virtualBitmap.test page = false) (base : Nat) :
    ∃ filled after, filled ≤ count ∧
      (forRange (allocateNext image) first count base).run state =
        .ok (if filled = count then .inl (base + filled)
          else .inr (base + filled), after) ∧
      Sound image after none ∧ Bits image state after first filled true := by
  induction count generalizing state first base with
  | zero => exact ⟨0, state, Nat.le_refl 0, rfl, sound, Bits.zero ..⟩
  | succ count ih =>
      have hpage : first < virtualPageCount := by omega
      have hfirst := hfree first (Nat.le_refl first) (by omega)
      have done := fillEffect_filled sound hpage hfirst
      have hrun := run_allocateNext sound first base
      cases hfilled : (fillEffect image state first).1 with
      | false =>
          rw [hfilled, if_neg Bool.false_ne_true] at hrun
          refine ⟨0, _, Nat.zero_le _, ?_, done.sound, ?_⟩
          · rw [if_neg (Nat.succ_ne_zero count).symm]
            exact run_forRange_leave hrun count
          · rw [hfilled] at done
            exact unchanged_of_filled sound hpage hfirst done first true
      | true =>
          rw [hfilled, if_pos rfl] at hrun
          obtain ⟨filled, after, hle, hloop, hsound, hbits⟩ :=
            @ih (fillEffect image state first).2 done.sound (first + 1)
              (by omega)
              (by
                intro page hlow hhigh
                rw [done.bit page, if_neg (by omega)]
                exact hfree page (by omega) (by omega)) (base + 1)
          refine ⟨filled + 1, after, Nat.succ_le_succ hle, ?_, hsound, ?_⟩
          · rw [run_forRange_next hrun, hloop]
            by_cases heq : filled = count
            · rw [if_pos heq, if_pos (congrArg Nat.succ heq)]
              congr 3
              omega
            · rw [if_neg heq, if_neg (by omega)]
              congr 3
              omega
          · rw [hfilled] at done
            exact Bits.cons done hbits

theorem run_rollBackLoop (sound : Sound image state none)
    {first count : Nat} (hbound : first + count ≤ virtualPageCount)
    (hused : ∀ page, first ≤ page → page < first + count →
      state.virtualBitmap.test page = true) :
    ∃ after, (forEach (rollBack image) first count).run state =
        .ok ((), after) ∧
      Sound image after none ∧ Bits image state after first count false := by
  induction count generalizing state first with
  | zero => exact ⟨state, rfl, sound, Bits.zero ..⟩
  | succ count ih =>
      have hpage : first < virtualPageCount := by omega
      have hfirst := hused first (Nat.le_refl first) (by omega)
      have done := emptyEffect_filled sound hpage hfirst
      obtain ⟨after, hloop, hsound, hbits⟩ :=
        @ih (emptyEffect image state first) done.sound (first + 1) (by omega)
          (by
            intro page hlow hhigh
            rw [done.bit page, if_neg (by omega)]
            exact hused page (by omega) (by omega))
      refine ⟨after, ?_, hsound, Bits.cons done hbits⟩
      rw [forEach, run_bind_ok (run_rollBack sound hpage hfirst), hloop]

def FreeRun (state : MemoryState) (first count : Nat) : Prop :=
  first + count ≤ virtualPageCount ∧
    ∀ page, first ≤ page → page < first + count →
      state.virtualBitmap.test page = false

theorem run_countFreePage (pageCount page count : Nat) :
    (countFreePage pageCount page count).run state =
      .ok (if state.virtualBitmap.test page then .inl 0
        else if count + 1 = pageCount then .inr (page + 1 - pageCount)
        else .inl (count + 1), state) := by
  unfold countFreePage
  rw [run_bind_ok (run_isPageUsed page)]
  split
  · rfl
  · split <;> rfl

theorem run_countLoop {pageCount remaining current count : Nat}
    (hend : current + remaining = virtualPageCount) (hcount : count ≤ current)
    (hfree : ∀ page, current - count ≤ page → page < current →
      state.virtualBitmap.test page = false) :
    ∃ result, (forRange (countFreePage pageCount) current remaining
        count).run state = .ok (result, state) ∧
      ∀ first, result = .inr first → FreeRun state first pageCount := by
  induction remaining generalizing current count with
  | zero => exact ⟨.inl count, rfl, nofun⟩
  | succ remaining ih =>
      have hstep := @run_countFreePage state pageCount current count
      cases hused : state.virtualBitmap.test current with
      | true =>
          rw [hused, if_pos rfl] at hstep
          obtain ⟨result, hrun, hresult⟩ := @ih (current + 1) 0 (by omega)
            (Nat.zero_le _) (fun page hlow hhigh => by omega)
          exact ⟨result, (run_forRange_next hstep _).trans hrun, hresult⟩
      | false =>
          rw [hused, if_neg Bool.false_ne_true] at hstep
          have hgrown : ∀ page, current - count ≤ page →
              page < current + 1 → state.virtualBitmap.test page = false := by
            intro page hlow hhigh
            by_cases heq : page = current
            · rw [heq, hused]
            · exact hfree page hlow (by omega)
          by_cases hdone : count + 1 = pageCount
          · rw [if_pos hdone] at hstep
            refine ⟨_, run_forRange_leave hstep _, ?_⟩
            intro first heq
            obtain rfl := Sum.inr.inj heq
            exact ⟨by omega, fun page hlow hhigh =>
              hgrown page (by omega) (by omega)⟩
          · rw [if_neg hdone] at hstep
            obtain ⟨result, hrun, hresult⟩ := @ih (current + 1) (count + 1)
              (by omega) (by omega)
              (fun page hlow hhigh => hgrown page (by omega) hhigh)
            exact ⟨result, (run_forRange_next hstep _).trans hrun, hresult⟩

theorem run_findFreePages (state : MemoryState) (pageCount : Nat) :
    ∃ first, (findFreePages pageCount).run state = .ok (first, state) ∧
      (first = virtualPageCount ∨ FreeRun state first pageCount) := by
  obtain ⟨result, hrun, hresult⟩ := @run_countLoop state pageCount
    virtualPageCount 0 0 (Nat.zero_add _) (Nat.le_refl 0)
    (fun page _ h => by omega)
  unfold findFreePages
  cases result with
  | inl count => exact ⟨_, run_bind_ok hrun _, .inl rfl⟩
  | inr first => exact ⟨_, run_bind_ok hrun _, .inr (hresult first rfl)⟩

def Allocated (image : KernelImage platform) (state : MemoryState)
    (pageCount result : Nat) (after : MemoryState) : Prop :=
  Sound image after none ∧
    ((result = 0 ∧ ∃ first, Bits image state after first 0 false) ∨
      ∃ first, result = pageAddress first ∧ 0 < pageCount ∧
        FreeRun state first pageCount ∧
        Bits image state after first pageCount true)

theorem allocatePage_allocated (sound : Sound image state none) :
    ∃ result after, (allocatePage image).run state = .ok (result, after) ∧
      Allocated image state 1 result after := by
  have hrun := run_allocatePage sound
  cases hpage : firstFree state with
  | none =>
      rw [hpage] at hrun
      exact ⟨0, state, hrun, sound, .inl ⟨rfl, 0, Bits.zero ..⟩⟩
  | some page =>
      obtain ⟨hlt, hfree⟩ := firstFree_spec hpage
      have done := fillEffect_filled sound hlt hfree
      rw [hpage] at hrun
      refine ⟨_, _, hrun, done.sound, ?_⟩
      cases hfilled : (fillEffect image state page).1 with
      | false =>
          rw [hfilled] at done
          exact .inl ⟨rfl, page,
            unchanged_of_filled sound hlt hfree done page false⟩
      | true =>
          rw [hfilled] at done
          refine .inr ⟨page, rfl, Nat.one_pos, ⟨hlt, ?_⟩,
            Bits.cons done (Bits.zero ..)⟩
          intro other hlow hhigh
          obtain rfl : other = page := by omega
          exact hfree

theorem run_allocatePages (sound : Sound image state none)
    (pageCount : Nat) :
    ∃ result after, (allocatePages image pageCount).run state =
        .ok (result, after) ∧
      Allocated image state pageCount result after := by
  unfold allocatePages
  by_cases hzero : pageCount = 0
  · exact ⟨0, state, by rw [if_pos hzero]; rfl, sound,
      .inl ⟨rfl, 0, Bits.zero ..⟩⟩
  by_cases hlarge : pageCount > virtualPageCount
  · exact ⟨0, state, by rw [if_neg hzero, if_pos hlarge]; rfl, sound,
      .inl ⟨rfl, 0, Bits.zero ..⟩⟩
  rw [if_neg hzero, if_neg hlarge]
  obtain ⟨first, hsearch, hfound⟩ := run_findFreePages state pageCount
  rw [run_bind_ok hsearch]
  by_cases hnone : first = virtualPageCount
  · exact ⟨0, state, by rw [if_pos hnone]; rfl, sound,
      .inl ⟨rfl, 0, Bits.zero ..⟩⟩
  rw [if_neg hnone]
  have hrun : FreeRun state first pageCount := by
    rcases hfound with heq | h
    · exact absurd heq hnone
    · exact h
  obtain ⟨filled, middle, hle, hloop, hsound, hbits⟩ :=
    run_allocateLoop sound hrun.1 hrun.2 0
  rw [run_bind_ok hloop]
  simp only [Nat.zero_add]
  have hcounted : Sum.elim id id (if filled = pageCount then
      (.inl filled : Nat ⊕ Nat) else .inr filled) = filled := by
    split <;> rfl
  rw [hcounted]
  by_cases heq : filled = pageCount
  · subst filled
    rw [if_neg (not_not.mpr rfl)]
    exact ⟨_, middle, rfl, hsound, .inr ⟨first, rfl,
      Nat.pos_of_ne_zero hzero, hrun, hbits⟩⟩
  · rw [if_pos heq]
    obtain ⟨after, hback, hafter, hcleared⟩ := run_rollBackLoop hsound
      (Nat.le_trans (Nat.add_le_add_left hle first) hrun.1)
      (fun page => hbits.inside)
    exact ⟨0, after, run_bind_ok hback _, hafter, .inl ⟨rfl, first,
      Bits.undone sound hafter hbits hcleared fun page hlow hhigh =>
        hrun.2 page hlow (by omega)⟩⟩

theorem pageAddress_of_valid {virtualAddress : Nat}
    (hrange : ¬ (virtualAddress < virtualMemoryStart ∨
      virtualAddress ≥ virtualMemoryEnd))
    (haligned : ¬ virtualAddress &&& (pageSize - 1) ≠ 0) :
    ∃ page, page < virtualPageCount ∧ virtualAddress = pageAddress page := by
  have hmask : virtualAddress % pageSize = 0 := by
    rw [← land_page_mask]
    exact not_not.mp haligned
  rw [virtualPageCount_eq]
  unfold pageAddress virtualMemoryStart pageSize at *
  unfold virtualMemoryEnd at hrange
  refine ⟨(virtualAddress - 0x80000000) / 4096, ?_, ?_⟩ <;> omega

theorem pageAddress_page (page : Nat) :
    (pageAddress page - virtualMemoryStart) / pageSize = page := by
  unfold pageAddress pageSize
  omega

theorem pageAddress_valid {page : Nat} (h : page < virtualPageCount) :
    ¬ (pageAddress page < virtualMemoryStart ∨
      pageAddress page ≥ virtualMemoryEnd) := by
  rw [virtualPageCount_eq] at h
  unfold pageAddress virtualMemoryStart virtualMemoryEnd pageSize
  omega

theorem pageAddress_aligned (page : Nat) :
    ¬ pageAddress page &&& (pageSize - 1) ≠ 0 := by
  have hmask : pageAddress page &&& 0xFFF = 0 := by
    rw [land_page_mask, pageAddress_mod]
  exact not_not.mpr hmask

theorem pageAddress_add (page i : Nat) :
    pageAddress page + i * pageSize = pageAddress (page + i) := by
  unfold pageAddress
  rw [Nat.add_mul, Nat.add_assoc]

theorem run_freePage (sound : Sound image state none) {page : Nat}
    (hpage : page < virtualPageCount) :
    (freePage image (pageAddress page)).run state =
      .ok (if state.virtualBitmap.test page then
        (true, emptyEffect image state page) else (false, state)) := by
  unfold freePage
  rw [if_neg (pageAddress_valid hpage), if_neg (pageAddress_aligned page)]
  simp only [pageAddress_page]
  rw [run_bind_ok (run_isPageUsed page)]
  cases hused : state.virtualBitmap.test page with
  | false => rfl
  | true =>
      obtain ⟨frame, table, hlt, hzero, hget, hunmap, heq⟩ :=
        used_page sound hpage hused
      have hfree := @PhysicalMemory.run_freeFrame platform
        ((state.withEntry table (level3Of (pageAddress page)) 0).flush
          (pageAddress page)) frame hlt
      refine (run_bind_ok hget _).trans ?_
      rw [if_neg hzero]
      refine (run_bind_ok hunmap _).trans ?_
      refine (run_bind_ok hfree _).trans ?_
      rw [if_pos rfl, heq]
      rfl

theorem run_freePage_invalid {virtualAddress : Nat}
    (h : ¬ ∃ page, page < virtualPageCount ∧
      virtualAddress = pageAddress page) :
    (freePage image virtualAddress).run state = .ok (false, state) := by
  unfold freePage
  split
  · rfl
  split
  · rfl
  · rename_i hrange haligned
    exact absurd (pageAddress_of_valid hrange haligned) h

theorem run_checkPage (sound : Sound image state none) {page i : Nat}
    (hpage : page + i < virtualPageCount) :
    (checkPage image (pageAddress page) i).run state =
      .ok (if state.virtualBitmap.test (page + i) then .inl ()
        else .inr false, state) := by
  unfold checkPage
  simp only [pageAddress_add, pageAddress_page]
  rw [run_bind_ok (run_isPageUsed (page + i))]
  cases hused : state.virtualBitmap.test (page + i) with
  | false => rfl
  | true =>
      obtain ⟨frame, table, _, hzero, hget, _, _⟩ :=
        used_page sound hpage hused
      refine (run_bind_ok hget _).trans ?_
      rw [if_neg hzero]
      rfl

theorem run_checkLoop (sound : Sound image state none)
    {page start count : Nat}
    (hbound : page + (start + count) ≤ virtualPageCount) :
    ∃ result, (forRange (fun i _ => checkPage image (pageAddress page) i)
        start count ()).run state = .ok (result, state) ∧
      ((result = .inl () ∧ ∀ i, start ≤ i → i < start + count →
          state.virtualBitmap.test (page + i) = true) ∨
        result = .inr false ∧ ∃ i, start ≤ i ∧ i < start + count ∧
          state.virtualBitmap.test (page + i) = false) := by
  induction count generalizing start with
  | zero => exact ⟨.inl (), rfl, .inl ⟨rfl, fun i hlow hhigh => by omega⟩⟩
  | succ count ih =>
      have hstep := @run_checkPage _ image state sound page start (by omega)
      cases hused : state.virtualBitmap.test (page + start) with
      | false =>
          rw [hused, if_neg Bool.false_ne_true] at hstep
          exact ⟨_, run_forRange_leave hstep _, .inr ⟨rfl, start,
            Nat.le_refl start, by omega, hused⟩⟩
      | true =>
          rw [hused, if_pos rfl] at hstep
          obtain ⟨result, hrun, hresult⟩ := @ih (start + 1) (by omega)
          refine ⟨result, (run_forRange_next hstep _).trans hrun, ?_⟩
          rcases hresult with ⟨heq, hall⟩ | ⟨heq, i, hlow, hhigh, hfree⟩
          · refine .inl ⟨heq, ?_⟩
            intro i hlow hhigh
            by_cases hstart : i = start
            · rw [hstart, hused]
            · exact hall i (by omega) (by omega)
          · exact .inr ⟨heq, i, by omega, by omega, hfree⟩

theorem run_freeLoop (sound : Sound image state none)
    {page start count : Nat}
    (hbound : page + (start + count) ≤ virtualPageCount)
    (hused : ∀ i, start ≤ i → i < start + count →
      state.virtualBitmap.test (page + i) = true) :
    ∃ after, (forRange (fun i _ => do
        if !(← freePage image (pageAddress page + i * pageSize)) then
          pure (.inr false)
        else
          pure (.inl ())) start count ()).run state = .ok (.inl (), after) ∧
      Sound image after none ∧
      Bits image state after (page + start) count false := by
  induction count generalizing state start with
  | zero => exact ⟨state, rfl, sound, Bits.zero ..⟩
  | succ count ih =>
      have hpage : page + start < virtualPageCount := by omega
      have hfirst := hused start (Nat.le_refl start) (by omega)
      have done := emptyEffect_filled sound hpage hfirst
      have hfree := run_freePage sound hpage
      rw [hfirst, if_pos rfl, ← pageAddress_add] at hfree
      obtain ⟨after, hloop, hsound, hbits⟩ :=
        @ih (emptyEffect image state (page + start)) done.sound (start + 1)
          (by omega)
          (by
            intro i hlow hhigh
            rw [done.bit, if_neg (by omega)]
            exact hused i (by omega) (by omega))
      refine ⟨after, ?_, hsound, Bits.cons done hbits⟩
      exact (run_forRange_next (run_bind_ok hfree _) _).trans hloop

theorem lastPage_iff {page pageCount : Nat} (hpositive : 0 < pageCount) :
    pageAddress page + (pageCount - 1) * pageSize ≥ virtualMemoryEnd ↔
      ¬ page + pageCount ≤ virtualPageCount := by
  rw [pageAddress_add, virtualPageCount_eq]
  unfold pageAddress virtualMemoryStart virtualMemoryEnd pageSize
  omega

def Freeable (state : MemoryState) (virtualAddress pageCount page : Nat) :
    Prop :=
  virtualAddress = pageAddress page ∧ 0 < pageCount ∧
    page + pageCount ≤ virtualPageCount ∧
    ∀ i, i < pageCount → state.virtualBitmap.test (page + i) = true

theorem run_freePages (sound : Sound image state none)
    (virtualAddress pageCount : Nat) :
    ((∀ page, ¬ Freeable state virtualAddress pageCount page) ∧
      (freePages image virtualAddress pageCount).run state =
        .ok (false, state)) ∨
    ∃ page after, Freeable state virtualAddress pageCount page ∧
      (freePages image virtualAddress pageCount).run state =
        .ok (true, after) ∧
      Sound image after none ∧ Bits image state after page pageCount false := by
  unfold freePages
  by_cases hcount : pageCount = 0 ∨ pageCount > virtualPageCount
  · rw [if_pos hcount]
    refine .inl ⟨?_, rfl⟩
    rintro page ⟨_, hpositive, hbound, _⟩
    omega
  rw [if_neg hcount]
  by_cases hrange : virtualAddress < virtualMemoryStart ∨
      virtualAddress ≥ virtualMemoryEnd
  · rw [if_pos hrange]
    refine .inl ⟨?_, rfl⟩
    rintro page ⟨rfl, hpositive, hbound, _⟩
    exact pageAddress_valid (by omega) hrange
  rw [if_neg hrange]
  by_cases haligned : virtualAddress &&& (pageSize - 1) ≠ 0
  · rw [if_pos haligned]
    refine .inl ⟨?_, rfl⟩
    rintro page ⟨rfl, _⟩
    exact pageAddress_aligned page haligned
  rw [if_neg haligned]
  obtain ⟨page, hpage, rfl⟩ := pageAddress_of_valid hrange haligned
  have hpositive : 0 < pageCount := by omega
  have hsame : ∀ other, pageAddress page = pageAddress other →
      other = page := by
    intro other heq
    have hpages := congrArg (fun address =>
      (address - virtualMemoryStart) / pageSize) heq
    simp only [pageAddress_page] at hpages
    exact hpages.symm
  simp only [lastPage_iff hpositive]
  by_cases hlast : page + pageCount ≤ virtualPageCount
  · rw [if_neg (not_not.mpr hlast)]
    obtain ⟨result, hcheck, hresult⟩ := @run_checkLoop _ image state sound
      page 0 pageCount (by omega)
    rw [run_bind_ok hcheck]
    rcases hresult with ⟨rfl, hall⟩ | ⟨rfl, i, _, hlt, hfree⟩
    · have hused : ∀ i, i < pageCount →
          state.virtualBitmap.test (page + i) = true :=
        fun i h => hall i (Nat.zero_le i) (by omega)
      obtain ⟨after, hloop, hsound, hbits⟩ := @run_freeLoop _ image state
        sound page 0 pageCount (by omega) hall
      exact .inr ⟨page, after, ⟨rfl, hpositive, hlast, hused⟩,
        run_bind_ok hloop _, hsound, hbits⟩
    · refine .inl ⟨?_, rfl⟩
      rintro other ⟨heq, _, _, hused⟩
      obtain rfl := hsame other heq
      rw [hused i (by omega)] at hfree
      cases hfree
  · rw [if_pos hlast]
    refine .inl ⟨?_, rfl⟩
    rintro other ⟨heq, _, hbound, _⟩
    rw [hsame other heq] at hbound
    exact hlast hbound

end

end Planetoid.Memory.VirtualMemory
