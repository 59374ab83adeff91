import Planetoid.Memory.Hardening
import Planetoid.Memory.PoolDemand

namespace Planetoid.Memory

open Planetoid Program Mmu TableTree VirtualMemory

/-! Where `allocate_pages` places a run of pages, and when it succeeds. -/

def LowestRun (state : MemoryState) (first count : Nat) : Prop :=
  FreeRun state first count ∧
    ∀ other, FreeRun state other count → first ≤ other

section

variable {platform : Platform} (image : KernelImage platform)

/-- The level 3 entry of a page is on this path. -/
def OnPath (page : Nat) (i j k : Fin 512) : Prop :=
  i = level1Of (pageAddress page) ∧ j = level2Of (pageAddress page) ∧
    k = level3Of (pageAddress page)

/-- The level 3 entries of all other pages, of the pool or not, are the same,
and no table is lost. -/
structure OnlyPages (before after : MemoryState) (first count : Nat) :
    Prop where
  leaf : ∀ i j k, (∀ page, first ≤ page → page < first + count →
      ¬ OnPath page i j k) →
    leafAt image after i j k = leafAt image before i j k
  table : ∀ place table, tableAt image before place = some table →
    tableAt image after place = some table

structure Placed (before after : MemoryState) (first count : Nat) :
    Prop where
  bits : ∀ page, after.virtualBitmap.test page =
    if first ≤ page ∧ page < first + count then true
    else before.virtualBitmap.test page
  /-- Every page of the run has a frame that was free. -/
  mapped : ∀ page, first ≤ page → page < first + count →
    ∃ frame, frame < before.frameCount ∧ before.used frame = false ∧
      after.used frame = true ∧
      ∀ offset, offset < pageSize →
        translate image after (pageAddress page + offset) =
          platform.frameAddress frame + offset
  distinct : ∀ page other, first ≤ page → page < first + count →
    first ≤ other → other < first + count →
    translate image after (pageAddress page) =
      translate image after (pageAddress other) → page = other
  elsewhere : ∀ address, address < 2 ^ 39 →
    address < pageAddress first ∨ pageAddress (first + count) ≤ address →
    translate image after address = translate image before address

end

section

variable {platform : Platform} {image : KernelImage platform}
  {state before middle after : MemoryState}

theorem run_countLoop_lowest {pageCount remaining current count : Nat}
    (hend : current + remaining = virtualPageCount) (hcount : count ≤ current)
    (hshort : count < pageCount)
    (hfree : ∀ page, current - count ≤ page → page < current →
      state.virtualBitmap.test page = false)
    (hlow : ∀ other, FreeRun state other pageCount →
      current - count ≤ other) :
    ∃ result, (forRange (countFreePage pageCount) current remaining
        count).run state = .ok (result, state) ∧
      (∀ first, result = .inr first → LowestRun state first pageCount) ∧
      ∀ value, result = .inl value →
        ∀ other, ¬ FreeRun state other pageCount := by
  induction remaining generalizing current count with
  | zero =>
      refine ⟨.inl count, rfl, nofun, ?_⟩
      intro value _ other hrun
      have hstart := hlow other hrun
      have hfits := hrun.1
      omega
  | succ remaining ih =>
      have hstep := @run_countFreePage state pageCount current count
      cases hused : state.virtualBitmap.test current with
      | true =>
          -- a run that starts at one of the free pages has this page in it
          rw [hused, if_pos rfl] at hstep
          have hnext : ∀ other, FreeRun state other pageCount →
              current + 1 - 0 ≤ other := by
            intro other hrun
            have hstart := hlow other hrun
            by_contra hbefore
            have htest := hrun.2 current (by omega) (by omega)
            rw [hused] at htest
            cases htest
          obtain ⟨result, hrun, hresult⟩ := @ih (current + 1) 0 (by omega)
            (Nat.zero_le _) (by omega) (fun page hlow hhigh => by omega) hnext
          exact ⟨result, (run_forRange_next hstep _).trans hrun, hresult⟩
      | false =>
          rw [hused, if_neg Bool.false_ne_true] at hstep
          have hgrown : ∀ page, current - count ≤ page →
              page < current + 1 → state.virtualBitmap.test page = false := by
            intro page hlow hhigh
            by_cases heq : page = current
            · rw [heq, hused]
            · exact hfree page hlow (by omega)
          by_cases hdone : count + 1 = pageCount
          · rw [if_pos hdone] at hstep
            refine ⟨_, run_forRange_leave hstep _, ?_, nofun⟩
            intro first heq
            obtain rfl := Sum.inr.inj heq
            have hstart : current + 1 - pageCount = current - count := by
              omega
            rw [hstart]
            exact ⟨⟨by omega, fun page hlow hhigh =>
              hgrown page hlow (by omega)⟩, hlow⟩
          · rw [if_neg hdone] at hstep
            have hstart : current + 1 - (count + 1) = current - count := by
              omega
            obtain ⟨result, hrun, hresult⟩ := @ih (current + 1) (count + 1)
              (by omega) (by omega) (by omega)
              (by rw [hstart]; exact hgrown) (by rw [hstart]; exact hlow)
            exact ⟨result, (run_forRange_next hstep _).trans hrun, hresult⟩

theorem findFreePages_lowest (state : MemoryState) {pageCount : Nat}
    (hpositive : 0 < pageCount) :
    ∃ first, (findFreePages pageCount).run state = .ok (first, state) ∧
      (LowestRun state first pageCount ∨
        first = virtualPageCount ∧
          ∀ other, ¬ FreeRun state other pageCount) := by
  obtain ⟨result, hrun, hfound, hnone⟩ := @run_countLoop_lowest state
    pageCount virtualPageCount 0 0 (Nat.zero_add _) (Nat.le_refl 0) hpositive
    (fun page _ h => by omega) (fun _ _ => Nat.zero_le _)
  unfold findFreePages
  cases result with
  | inl count =>
      exact ⟨_, run_bind_ok hrun _, .inr ⟨rfl, hnone count rfl⟩⟩
  | inr first => exact ⟨_, run_bind_ok hrun _, .inl (hfound first rfl)⟩

theorem OnlyPages.refl (state : MemoryState) (first count : Nat) :
    OnlyPages image state state first count :=
  ⟨fun _ _ _ _ => rfl, fun _ _ h => h⟩

theorem OnlyPages.trans {first count : Nat}
    (left : OnlyPages image before middle first count)
    (right : OnlyPages image middle after first count) :
    OnlyPages image before after first count where
  leaf := fun i j k hpath =>
    (right.leaf i j k hpath).trans (left.leaf i j k hpath)
  table := fun place table h => right.table place table (left.table place table h)

theorem OnlyPages.widen {first count low more : Nat} (hlow : low ≤ first)
    (hhigh : first + count ≤ low + more)
    (only : OnlyPages image before after first count) :
    OnlyPages image before after low more where
  leaf := fun i j k hpath => only.leaf i j k fun page hfirst hlast =>
    hpath page (by omega) (by omega)
  table := only.table

theorem OnlyPages.cons {first count : Nat}
    (page : OnlyPages image before middle first 1)
    (rest : OnlyPages image middle after (first + 1) count) :
    OnlyPages image before after first (count + 1) :=
  (page.widen (Nat.le_refl first) (by omega)).trans
    (rest.widen (Nat.le_succ first) (by omega))

theorem Extends.onlyPages (extended : Extends image before after)
    (first count : Nat) : OnlyPages image before after first count where
  leaf := by
    intro i j k _
    rw [extended.leafAt_eq]
  table := by
    intro place table h
    induction extended with
    | refl => exact h
    | step _ grows ih =>
        rw [grows.tableAt, if_neg]
        · exact ih
        · rintro rfl
          rw [grows.absent] at ih
          cases ih

theorem onlyPages_of_setEntry (paging : Paging image before)
    {page table : Nat}
    (htable : tableAt image before (.third (level1Of (pageAddress page))
      (level2Of (pageAddress page))) = some table) (value : Nat)
    (hentries : after.entries = TableTree.setEntry before.entries table
      (level3Of (pageAddress page)) value) :
    OnlyPages image before after page 1 where
  leaf := by
    have sets := setsLeaf_of_withEntry paging htable value hentries
    intro i j k hpath
    exact sets.others i j k
      (hpath page (Nat.le_refl page) (Nat.lt_succ_self page))
  table := by
    intro place found h
    have hplace := paging.tree.tableOf_setLeaf htable
      (level3Of (pageAddress page)) value place
    rw [← hentries] at hplace
    exact hplace.trans h

theorem fillEffect_onlyPages (sound : Sound image state none) (page : Nat) :
    OnlyPages image state (fillEffect image state page).2 page 1 := by
  unfold fillEffect
  cases hnext : state.nextFrame with
  | none => exact OnlyPages.refl ..
  | some frame =>
      have claimed := sound.claim hnext
      obtain ⟨grown, extended, hmap⟩ := mapEffect_cases claimed.paging
        (pageAddress page) (poolDescriptor platform frame)
      have grew : OnlyPages image state grown page 1 :=
        ⟨(extended.onlyPages page 1).leaf, (extended.onlyPages page 1).table⟩
      simp only
      rcases hmap with heq | ⟨table, htable, _, heq⟩
      · rw [heq]
        exact ⟨grew.leaf, grew.table⟩
      · rw [heq]
        exact grew.trans (onlyPages_of_setEntry
          (extended.paging claimed.paging) htable
          (poolDescriptor platform frame) (MemoryState.entries_withEntry ..))

theorem emptyEffect_onlyPages (sound : Sound image state none)
    (page : Nat) :
    OnlyPages image state (emptyEffect image state page) page 1 := by
  unfold emptyEffect
  split
  · exact OnlyPages.refl ..
  · rename_i table htable
    exact onlyPages_of_setEntry sound.paging htable 0
      (MemoryState.entries_withEntry ..)

/-- The loop of `allocate_pages` comes to its end exactly when there are frames
for the pages and for the tables that they need. -/
theorem allocateLoop_builds (sound : Sound image state none)
    {first count : Nat} (hbound : first + count ≤ virtualPageCount)
    (hfree : ∀ page, first ≤ page → page < first + count →
      state.virtualBitmap.test page = false) {base : Nat}
    {result : Nat ⊕ Nat}
    (hrun : (forRange (allocateNext image) first count base).run state =
      .ok (result, after)) :
    OnlyPages image state after first count ∧
      ((result = .inl (base + count) ∧
        Builds image state after (runPlaces first count) count) ∨
      ((∃ filled, result = .inr (base + filled) ∧ filled < count) ∧
        state.freeCount <
          (missingTables image state (runPlaces first count)).card +
            count)) := by
  induction count generalizing state first base with
  | zero =>
      injection hrun with hpair
      injection hpair with hresult hafter
      subst hresult hafter
      rw [runPlaces_zero]
      exact ⟨OnlyPages.refl .., .inl ⟨rfl, Builds.refl state⟩⟩
  | succ count ih =>
      have hpage : first < virtualPageCount := by omega
      have hfirst := hfree first (Nat.le_refl first) (by omega)
      have done := fillEffect_filled sound hpage hfirst
      have hstep := run_allocateNext sound first base
      have kept := fillEffect_onlyPages sound first
      rw [runPlaces_succ]
      rcases fillEffect_builds sound hpage hfirst with
        ⟨hfilled, builds⟩ | ⟨hfilled, hfew⟩
      · rw [hfilled, if_pos rfl] at hstep
        rw [run_forRange_next hstep] at hrun
        obtain ⟨hrest, hcases⟩ := @ih _ done.sound (first + 1) (by omega)
          (by
            intro page hlow hhigh
            rw [done.bit page, if_neg (by omega)]
            exact hfree page (by omega) (by omega)) (base + 1) hrun
        refine ⟨kept.cons hrest, ?_⟩
        rcases hcases with ⟨hresult, hbuilt⟩ | ⟨⟨filled, hresult, hlt⟩, hfew⟩
        · left
          refine ⟨hresult.trans (congrArg Sum.inl (by omega)), ?_⟩
          rw [Nat.add_comm count 1]
          exact builds.trans hbuilt
        · right
          refine ⟨⟨filled + 1, hresult.trans (congrArg Sum.inr (by omega)),
            Nat.succ_lt_succ hlt⟩, ?_⟩
          have hframes := builds.frames
          rw [missingTables_union builds.absent]
          omega
      · rw [hfilled, if_neg Bool.false_ne_true] at hstep
        rw [run_forRange_leave hstep] at hrun
        injection hrun with hpair
        injection hpair with hresult hafter
        subst hresult hafter
        refine ⟨kept.cons (OnlyPages.refl ..), .inr
          ⟨⟨0, rfl, Nat.succ_pos count⟩, ?_⟩⟩
        have hsubset : (missingTables image state (pagePlaces first)).card ≤
            (missingTables image state (pagePlaces first ∪
              runPlaces (first + 1) count)).card :=
          Finset.card_le_card (Finset.filter_subset_filter _
            Finset.subset_union_left)
        omega

theorem rollBackLoop_onlyPages (sound : Sound image state none)
    {first count : Nat} (hbound : first + count ≤ virtualPageCount)
    (hused : ∀ page, first ≤ page → page < first + count →
      state.virtualBitmap.test page = true)
    (hrun : (forEach (rollBack image) first count).run state =
      .ok ((), after)) :
    OnlyPages image state after first count := by
  induction count generalizing state first with
  | zero =>
      injection hrun with hpair
      injection hpair with _ hafter
      subst hafter
      exact OnlyPages.refl ..
  | succ count ih =>
      have hpage : first < virtualPageCount := by omega
      have hfirst := hused first (Nat.le_refl first) (by omega)
      have done := emptyEffect_filled sound hpage hfirst
      rw [forEach, run_bind_ok (run_rollBack sound hpage hfirst)] at hrun
      have hrest := @ih _ done.sound (first + 1) (by omega) (by
        intro page hlow hhigh
        rw [done.bit page, if_neg (by omega)]
        exact hused page (by omega) (by omega)) hrun
      exact (emptyEffect_onlyPages sound first).cons hrest

/-- There are frames for the pages of a run and for the tables that it needs. -/
def Affordable (image : KernelImage platform) (state : MemoryState)
    (first count : Nat) : Prop :=
  count + (missingTables image state (runPlaces first count)).card ≤
    state.freeCount

/-- No bit, no entry of a page and no table is lost or changed. -/
structure Untouched (image : KernelImage platform)
    (before after : MemoryState) : Prop where
  bit : ∀ page, after.virtualBitmap.test page = before.virtualBitmap.test page
  leaf : leafAt image after = leafAt image before
  table : ∀ place table, tableAt image before place = some table →
    tableAt image after place = some table
  frameCount : after.frameCount = before.frameCount

theorem Untouched.refl (state : MemoryState) : Untouched image state state :=
  ⟨fun _ => rfl, rfl, fun _ _ h => h, rfl⟩

/-- Nothing is left of pages that were filled and emptied again. -/
theorem OnlyPages.untouched {first count other : Nat}
    (hbound : first + count ≤ virtualPageCount)
    (only : OnlyPages image before after first count)
    (bits : Bits image before after other 0 false) :
    Untouched image before after where
  bit := by
    intro page
    exact bits.outside (by omega)
  leaf := by
    funext i j k
    by_cases hpath : ∃ page, (first ≤ page ∧ page < first + count) ∧
        OnPath page i j k
    · obtain ⟨page, ⟨_, hlast⟩, hfirst, hsecond, hthird⟩ := hpath
      have hleaf := bits.leaf page (by omega) (by omega)
      unfold poolLeaf at hleaf
      rw [hfirst, hsecond, hthird, hleaf]
    · exact only.leaf i j k fun page hlow hhigh hon =>
        hpath ⟨page, ⟨hlow, hhigh⟩, hon⟩
  table := only.table
  frameCount := bits.frameCount

theorem fillEffect_untouched (sound : Sound image state none) {page : Nat}
    (hpage : page < virtualPageCount)
    (hfree : state.virtualBitmap.test page = false)
    (hfilled : (fillEffect image state page).1 = false) :
    Untouched image state (fillEffect image state page).2 := by
  have done := fillEffect_filled sound hpage hfree
  rw [hfilled] at done
  exact (fillEffect_onlyPages sound page).untouched hpage
    (unchanged_of_filled sound hpage hfree done page false)

/-- `allocate_pages` fills the lowest run when there are frames for it, and
leaves all pages as they were otherwise. -/
theorem allocatePages_outcome (sound : Sound image state none)
    (pageCount : Nat) :
    ∃ result after, (allocatePages image pageCount).run state =
        .ok (result, after) ∧ Sound image after none ∧
      ((∃ first, (0 < pageCount ∧ pageCount ≤ virtualPageCount) ∧
          LowestRun state first pageCount ∧
          Affordable image state first pageCount ∧
          result = pageAddress first ∧
          Bits image state after first pageCount true ∧
          OnlyPages image state after first pageCount) ∨
        (result = 0 ∧ Untouched image state after ∧
          ∀ first, 0 < pageCount → LowestRun state first pageCount →
            ¬ Affordable image state first pageCount)) := by
  unfold allocatePages
  by_cases hzero : pageCount = 0
  · exact ⟨0, state, by rw [if_pos hzero]; rfl, sound,
      .inr ⟨rfl, Untouched.refl state, fun _ hpositive => by omega⟩⟩
  by_cases hlarge : pageCount > virtualPageCount
  · refine ⟨0, state, by rw [if_neg hzero, if_pos hlarge]; rfl, sound,
      .inr ⟨rfl, Untouched.refl state, ?_⟩⟩
    intro first _ lowest
    have hfits := lowest.1.1
    omega
  rw [if_neg hzero, if_neg hlarge]
  have hpositive := Nat.pos_of_ne_zero hzero
  obtain ⟨first, hsearch, hfound⟩ := findFreePages_lowest state hpositive
  rw [run_bind_ok hsearch]
  rcases hfound with lowest | ⟨rfl, hnone⟩
  · have hfits := lowest.1.1
    rw [if_neg (by omega)]
    obtain ⟨filled, middle, hle, hloop, hsound, hbits⟩ :=
      run_allocateLoop sound lowest.1.1 lowest.1.2 0
    have hcases := allocateLoop_builds sound lowest.1.1 lowest.1.2 hloop
    obtain ⟨honly, hbuilds⟩ := hcases
    rw [run_bind_ok hloop]
    simp only [Nat.zero_add] at hbuilds ⊢
    have hcounted : Sum.elim id id (if filled = pageCount then
        (.inl filled : Nat ⊕ Nat) else .inr filled) = filled := by
      split <;> rfl
    rw [hcounted]
    by_cases heq : filled = pageCount
    · subst filled
      rw [if_neg (not_not.mpr rfl)]
      refine ⟨_, middle, rfl, hsound, .inl ⟨first,
        ⟨hpositive, by omega⟩, lowest, ?_, rfl, hbits, honly⟩⟩
      rw [if_pos rfl] at hbuilds
      rcases hbuilds with ⟨_, builds⟩ | ⟨⟨_, hresult, _⟩, _⟩
      · have hframes := builds.frames
        unfold Affordable
        omega
      · cases hresult
    · rw [if_pos heq]
      have hfilled : ∀ page, first ≤ page → page < first + filled →
          middle.virtualBitmap.test page = true := fun page => hbits.inside
      have hroom : first + filled ≤ virtualPageCount := by omega
      obtain ⟨after, hback, hafter, hcleared⟩ :=
        run_rollBackLoop hsound hroom hfilled
      have hundone := rollBackLoop_onlyPages hsound hroom hfilled hback
      refine ⟨0, after, run_bind_ok hback _, hafter, .inr ⟨rfl, ?_, ?_⟩⟩
      · exact (honly.trans (hundone.widen (Nat.le_refl first)
          (by omega))).untouched hfits
            (Bits.undone sound hafter hbits hcleared fun page hlow hhigh =>
              lowest.1.2 page hlow (by omega))
      · intro other _ lowest'
        rw [Nat.le_antisymm (lowest'.2 first lowest.1)
          (lowest.2 other lowest'.1)]
        rw [if_neg heq] at hbuilds
        rcases hbuilds with ⟨hresult, _⟩ | ⟨_, hfew⟩
        · cases hresult
        · unfold Affordable
          omega
  · rw [if_pos rfl]
    exact ⟨0, state, rfl, sound, .inr ⟨rfl, Untouched.refl state,
      fun other _ lowest => absurd lowest.1 (hnone other)⟩⟩

theorem pageAddress_virtual {page : Nat} (h : page < virtualPageCount) :
    VirtualPage (pageAddress page) := by
  rw [virtualPageCount_eq] at h
  refine ⟨pageAddress_mod page, ?_⟩
  unfold pageAddress virtualMemoryStart pageSize
  omega

theorem Mapped.translate (paging : Paging image state) {page frame : Nat}
    (hpage : page < virtualPageCount) (hframe : frame < state.frameCount)
    (hmapped : Mapped image state page frame) {offset : Nat}
    (hoffset : offset < pageSize) :
    translate image state (pageAddress page + offset) =
      platform.frameAddress frame + offset := by
  have sets : SetsLeaf image state state (pageAddress page)
      (poolDescriptor platform frame) := ⟨hmapped, fun _ _ _ _ => rfl⟩
  rw [sets.translate (pageAddress_virtual hpage) hoffset, pageTarget,
    if_pos (poolDescriptor_type frame), poolDescriptor_address paging hframe]

theorem OnlyPages.translate {first count : Nat}
    (hbound : first + count ≤ virtualPageCount)
    (only : OnlyPages image before after first count) {address : Nat}
    (haddress : address < 2 ^ 39)
    (hout : address < pageAddress first ∨
      pageAddress (first + count) ≤ address) :
    translate image after address = translate image before address := by
  rw [translate_eq, translate_eq, only.leaf]
  intro page hlow hhigh hpath
  have hpage := (pageAddress_virtual (by omega : page < virtualPageCount)).2
  have heq := page_eq_of_path haddress hpage hpath
  unfold pageAddress pageSize virtualMemoryStart at *
  omega

theorem Sound.frame_of_filled (sound : Sound image state none)
    (afterSound : Sound image after none) {first count page frame : Nat}
    (bits : Bits image state after first count true)
    (only : OnlyPages image state after first count)
    (hfree : FreeRun state first count)
    (hlow : first ≤ page) (hhigh : page < first + count)
    (hmapped : Mapped image after page frame)
    (loose : Loose image after frame) : state.used frame = false := by
  have hlt : frame < state.frameCount := by
    rw [← bits.frameCount]
    exact loose.bounded
  have hbound := hfree.1
  rw [← Bool.not_eq_true, sound.used_iff frame hlt]
  intro howned
  cases howned with
  | reserved h => exact loose.unreserved h
  | @mapped other hother h =>
      have hout : other < first ∨ first + count ≤ other := by
        by_contra hin
        have hleaf := leaf_of_free sound hother
          (hfree.2 other (by omega) (by omega))
        unfold Mapped at h
        rw [hleaf] at h
        exact poolDescriptor_ne_zero frame h.symm
      have hkept : Mapped image after other frame := by
        unfold Mapped at h ⊢
        rw [bits.leaf other hother hout, h]
      have heq := afterSound.unique page other frame (by omega) hother hmapped
        hkept
      omega
  | table h => exact loose.noTable _ (only.table _ _ h)
  | held h => cases h

theorem Sound.placed (sound : Sound image state none)
    (afterSound : Sound image after none) {first count : Nat}
    (bits : Bits image state after first count true)
    (only : OnlyPages image state after first count)
    (hfree : FreeRun state first count) :
    Placed image state after first count := by
  have hbound := hfree.1
  have hentry : ∀ page, first ≤ page → page < first + count →
      ∃ frame, Mapped image after page frame ∧ Loose image after frame := by
    intro page hlow hhigh
    have hpage : page < virtualPageCount := by omega
    exact afterSound.entries page hpage
      ((afterSound.bits page hpage).mp (bits.inside hlow hhigh))
  refine ⟨bits.bit, ?_, ?_, fun address => only.translate hbound⟩
  · intro page hlow hhigh
    have hpage : page < virtualPageCount := by omega
    obtain ⟨frame, hmapped, loose⟩ := hentry page hlow hhigh
    refine ⟨frame, ?_, sound.frame_of_filled afterSound bits only hfree hlow
      hhigh hmapped loose, afterSound.mapped_used hpage loose.bounded hmapped,
      fun offset => hmapped.translate afterSound.paging hpage loose.bounded⟩
    rw [← bits.frameCount]
    exact loose.bounded
  · intro page other hlow hhigh hlow' hhigh' heq
    have hpage : page < virtualPageCount := by omega
    have hother : other < virtualPageCount := by omega
    obtain ⟨frame, hmapped, loose⟩ := hentry page hlow hhigh
    obtain ⟨frame', hmapped', loose'⟩ := hentry other hlow' hhigh'
    have hfirst := hmapped.translate afterSound.paging hpage loose.bounded
      (by decide : 0 < pageSize)
    have hsecond := hmapped'.translate afterSound.paging hother loose'.bounded
      (by decide : 0 < pageSize)
    rw [Nat.add_zero, Nat.add_zero] at hfirst hsecond
    have hsame := platform.frameAddress_injective
      (hfirst.symm.trans (heq.trans hsecond))
    subst hsame
    exact afterSound.unique page other frame hpage hother hmapped hmapped'

end

/-- In every state that the operations of `VirtualMemory` reach,
`allocate_pages` succeeds exactly when there is a run of free pages and there
are frames for the lowest one, and then it fills this run only. -/
theorem allocatePages_exact_of_reachable {platform : Platform}
    {image : KernelImage platform} {boot start state : MemoryState}
    (hstart : (initMemory image).run boot = .ok ((), start))
    (reachable : (poolRuns image start).Reachable System.unguarded state)
    (pageCount : Nat) :
    ∃ result after, (allocatePages image pageCount).run state =
        .ok (result, after) ∧
      (result ≠ 0 ↔ (1 ≤ pageCount ∧ pageCount ≤ 4096) ∧
        ∃ first, LowestRun state first pageCount ∧
          Affordable image state first pageCount) ∧
      ∀ first, LowestRun state first pageCount → result ≠ 0 →
        result = pageAddress first ∧
          Placed image state after first pageCount := by
  have sound := (fixed_of_reachable hstart reachable).1
  obtain ⟨result, after, hrun, afterSound, hcases⟩ :=
    allocatePages_outcome sound pageCount
  refine ⟨result, after, hrun, ?_⟩
  rcases hcases with ⟨first, hcount, lowest, haffordable, rfl, bits, only⟩ |
    ⟨rfl, _, hnone⟩
  · have hresult : pageAddress first ≠ 0 := by
      unfold pageAddress virtualMemoryStart
      omega
    refine ⟨⟨fun _ => ⟨hcount, first, lowest, haffordable⟩,
      fun _ => hresult⟩, ?_⟩
    intro other lowest' _
    obtain rfl := Nat.le_antisymm (lowest.2 other lowest'.1)
      (lowest'.2 first lowest.1)
    exact ⟨rfl, sound.placed afterSound bits only lowest.1⟩
  · refine ⟨⟨fun h => absurd rfl h, ?_⟩, fun _ _ h => absurd rfl h⟩
    rintro ⟨⟨hpositive, _⟩, first, lowest, haffordable⟩
    exact absurd haffordable (hnone first hpositive lowest)

/-- Two pages after the initialisation. -/
theorem allocatePages_exact_smallImage :
    ∃ start after, (initMemory smallImage).run bootMemory = .ok ((), start) ∧
      (allocatePages smallImage 2).run start =
        .ok (virtualMemoryStart, after) ∧
      Placed smallImage start after 0 2 := by
  obtain ⟨start, hstart, _, hcount, hreserved, _, _, hfree⟩ :=
    run_initMemory smallImage bootMemory
  obtain ⟨result, after, hrun, hsuccess, hplaced⟩ :=
    allocatePages_exact_of_reachable hstart (.initial rfl) 2
  have lowest : LowestRun start 0 2 :=
    ⟨⟨by decide, fun page _ h => hfree page (by rw [virtualPageCount_eq]; omega)⟩,
      fun _ _ => Nat.zero_le _⟩
  have haffordable : Affordable smallImage start 0 2 := by
    have hmissing : (missingTables smallImage start (runPlaces 0 2)).card ≤
        (runPlaces 0 2).card := Finset.card_le_card (Finset.filter_subset ..)
    have hplaces : (runPlaces 0 2).card = 2 := by decide
    have hfrees := freeCount_initial hcount hreserved
    have htotal : frameTotal .virt = 0x100000 := by decide
    unfold Affordable
    omega
  obtain ⟨rfl, placed⟩ := hplaced 0 lowest
    (hsuccess.mpr ⟨by decide, 0, lowest, haffordable⟩)
  exact ⟨start, after, hstart, hrun, placed⟩

end Planetoid.Memory
