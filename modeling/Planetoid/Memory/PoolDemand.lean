import Planetoid.Memory.FreeFrames
import Planetoid.Memory.Translation

namespace Planetoid.Memory

open Planetoid Program Mmu TableTree VirtualMemory

/-! How many frames a run of pool pages takes, for the pages and for the tables
that are missing. -/

def pagePlaces (page : Nat) : Finset (Node (Fin 512)) :=
  {.second (level1Of (pageAddress page)),
    .third (level1Of (pageAddress page)) (level2Of (pageAddress page))}

def runPlaces (first count : Nat) : Finset (Node (Fin 512)) :=
  (Finset.Ico first (first + count)).biUnion pagePlaces

theorem runPlaces_zero (first : Nat) : runPlaces first 0 = ∅ := by
  unfold runPlaces
  rw [Nat.add_zero, Finset.Ico_self, Finset.biUnion_empty]

theorem runPlaces_succ (first count : Nat) :
    runPlaces first (count + 1) =
      pagePlaces first ∪ runPlaces (first + 1) count := by
  have hpages : Finset.Ico first (first + (count + 1)) =
      insert first (Finset.Ico (first + 1) (first + 1 + count)) := by
    ext page
    rw [Finset.mem_insert, Finset.mem_Ico, Finset.mem_Ico]
    omega
  unfold runPlaces
  rw [hpages, Finset.biUnion_insert]

section

variable {platform : Platform} (image : KernelImage platform)

def missingTables (state : MemoryState) (places : Finset (Node (Fin 512))) :
    Finset (Node (Fin 512)) :=
  places.filter fun place => tableAt image state place = none

/-- `after` has tables at all the places, and as many frames less as there
were tables missing and pages filled. -/
structure Builds (before after : MemoryState)
    (places : Finset (Node (Fin 512))) (pages : Nat) : Prop where
  absent : ∀ place, tableAt image after place = none ↔
    tableAt image before place = none ∧ place ∉ places
  frames : after.freeCount + (missingTables image before places).card + pages =
    before.freeCount

end

section

variable {platform : Platform} {image : KernelImage platform}
  {state before middle after : MemoryState}

@[simp] theorem missingTables_empty (state : MemoryState) :
    missingTables image state ∅ = ∅ := rfl

theorem missingTables_congr
    (h : ∀ place, tableAt image after place = tableAt image before place)
    (places : Finset (Node (Fin 512))) :
    missingTables image after places = missingTables image before places := by
  unfold missingTables
  simp only [h]

theorem missingTables_singleton {place : Node (Fin 512)}
    (h : tableAt image state place = none) :
    missingTables image state {place} = {place} := by
  unfold missingTables
  rw [Finset.filter_singleton, if_pos h]

/-- The tables that are missing for more places are those missing for some, and
those that are then still missing for the others. -/
theorem missingTables_union {places others : Finset (Node (Fin 512))}
    (h : ∀ place, tableAt image middle place = none ↔
      tableAt image before place = none ∧ place ∉ places) :
    (missingTables image before (places ∪ others)).card =
      (missingTables image before places).card +
        (missingTables image middle others).card := by
  have hdisjoint : Disjoint (missingTables image before places)
      (missingTables image middle others) := by
    rw [Finset.disjoint_left]
    intro place hfirst hsecond
    unfold missingTables at hfirst hsecond
    rw [Finset.mem_filter] at hfirst hsecond
    exact ((h place).mp hsecond.2).2 hfirst.1
  rw [← Finset.card_union_of_disjoint hdisjoint]
  apply congrArg Finset.card
  ext place
  unfold missingTables
  rw [Finset.mem_union, Finset.mem_filter, Finset.mem_filter,
    Finset.mem_filter, Finset.mem_union, h place]
  by_cases hplace : place ∈ places
  · simp [hplace]
  · simp only [hplace, false_or, not_false_eq_true, and_true, false_and]

theorem Builds.refl (state : MemoryState) : Builds image state state ∅ 0 where
  absent := by
    intro place
    simp
  frames := by
    rw [missingTables_empty, Finset.card_empty]
    rfl

theorem Builds.trans {places others : Finset (Node (Fin 512))}
    {pages more : Nat} (first : Builds image before middle places pages)
    (second : Builds image middle after others more) :
    Builds image before after (places ∪ others) (pages + more) where
  absent := by
    intro place
    rw [second.absent, first.absent, Finset.mem_union, not_or, and_assoc]
  frames := by
    have hfirst := first.frames
    have hsecond := second.frames
    rw [missingTables_union first.absent]
    omega

theorem Builds.congr {places : Finset (Node (Fin 512))} {pages : Nat}
    (builds : Builds image before middle places pages)
    (htables : ∀ place, tableAt image after place =
      tableAt image middle place)
    (hfree : after.freeCount = middle.freeCount) :
    Builds image before after places pages where
  absent := by
    intro place
    rw [htables]
    exact builds.absent place
  frames := by
    rw [hfree]
    exact builds.frames

theorem builds_table {place : Node (Fin 512)} {table : Nat}
    (htable : tableAt image after place = some table)
    (h : after = before ∨ ∃ frame, Grows image before after place frame) :
    Builds image before after {place} 0 := by
  rcases h with rfl | ⟨frame, grows⟩
  · constructor
    · intro other
      rw [Finset.mem_singleton]
      constructor
      · intro hnone
        refine ⟨hnone, ?_⟩
        rintro rfl
        rw [htable] at hnone
        cases hnone
      · exact fun h => h.1
    · have hnone : missingTables image after {place} = ∅ := by
        unfold missingTables
        rw [Finset.filter_singleton, if_neg (by simp [htable])]
      rw [hnone]
      rfl
  · constructor
    · intro other
      rw [grows.tableAt, Finset.mem_singleton]
      by_cases heq : other = place
      · simp [heq]
      · simp [heq]
    · rw [missingTables_singleton grows.absent, Finset.card_singleton]
      exact grows.freeCount

theorem freeCount_eq_zero (h : state.nextFrame = none) :
    state.freeCount = 0 := by
  rcases Nat.eq_zero_or_pos state.freeCount with hzero | hpositive
  · exact hzero
  · obtain ⟨frame, hframe⟩ := MemoryState.exists_nextFrame hpositive
    rw [h] at hframe
    cases hframe

/-- The tables for a pool page are found or created when there are frames for
those that are missing. -/
theorem tablesEffect_builds (paging : Paging image state) {page : Nat}
    (hpage : page < virtualPageCount) :
    (∃ table grown,
      tablesEffect image state (pageAddress page) = (some table, grown) ∧
      Builds image state grown (pagePlaces page) 0) ∨
    ∃ grown, tablesEffect image state (pageAddress page) = (none, grown) ∧
      state.freeCount < (missingTables image state (pagePlaces page)).card := by
  have hpool : level1Of (pageAddress page) = poolIndex :=
    Fin.ext (level1Of_pageAddress hpage)
  have hunion : pagePlaces page =
      {.second (level1Of (pageAddress page))} ∪
        {.third (level1Of (pageAddress page)) (level2Of (pageAddress page))} :=
    rfl
  unfold tablesEffect
  rcases level2Effect_cases paging (level1Of (pageAddress page)) with
    ⟨heq, hnone, habsent⟩ | ⟨second, middle, heq, hsecond, hmiddle⟩
  · -- no level 2 table and no frame for it
    right
    rw [heq]
    refine ⟨state, rfl, ?_⟩
    rw [freeCount_eq_zero hnone, Finset.card_pos]
    refine ⟨.second (level1Of (pageAddress page)), ?_⟩
    unfold missingTables
    rw [Finset.mem_filter, hunion]
    exact ⟨by simp, habsent⟩
  have middlePaging := (Extends.of_grows hmiddle).paging paging
  have first := builds_table hsecond hmiddle
  rw [heq]
  rcases @level3Effect_cases _ _ _ middlePaging (level1Of (pageAddress page))
    (level2Of (pageAddress page)) second hsecond with
    ⟨hlast, hnone, habsent⟩ | ⟨table, grown, hlast, hthird, hgrown⟩
  · right
    refine ⟨middle, hlast, ?_⟩
    have hzero : middle.entries second (level2Of (pageAddress page)) = 0 := by
      by_contra hne
      rw [hpool] at hsecond habsent
      obtain ⟨below, hbelow⟩ := middlePaging.level2 second hsecond _ hne
      rw [habsent] at hbelow
      cases hbelow
    have hframes := first.frames
    have hempty := freeCount_eq_zero (hnone hzero)
    rw [hunion, missingTables_union first.absent,
      missingTables_singleton habsent, Finset.card_singleton]
    omega
  · left
    refine ⟨table, grown, hlast, ?_⟩
    rw [hunion]
    exact first.trans (builds_table hthird hgrown)

/-- A free page is filled when there are frames for it and for the tables that
are missing. -/
theorem fillEffect_builds (sound : Sound image state none) {page : Nat}
    (hpage : page < virtualPageCount)
    (hfree : state.virtualBitmap.test page = false) :
    ((fillEffect image state page).1 = true ∧
      Builds image state (fillEffect image state page).2
        (pagePlaces page) 1) ∨
    ((fillEffect image state page).1 = false ∧
      state.freeCount <
        (missingTables image state (pagePlaces page)).card + 1) := by
  cases hnext : state.nextFrame with
  | none =>
      right
      rw [fillEffect_none hnext, freeCount_eq_zero hnext]
      exact ⟨rfl, Nat.succ_pos _⟩
  | some frame =>
      have claimed := sound.claim hnext
      have hclaimed := MemoryState.freeCount_claim hnext
      have htables : ∀ place, tableAt image (state.claim frame) place =
          tableAt image state place := fun _ => rfl
      have hmissing := missingTables_congr htables (pagePlaces page)
      unfold fillEffect mapEffect
      rw [hnext]
      simp only
      rcases tablesEffect_builds claimed.paging hpage with
        ⟨table, grown, heq, builds⟩ | ⟨grown, heq, hfew⟩
      · left
        obtain ⟨result, other, hother, extended, htable⟩ :=
          tablesEffect_extends claimed.paging (pageAddress page)
        rw [heq] at hother
        injection hother with hresult hother
        subst hresult hother
        have hthird := htable table rfl
        have hentry : grown.entries table (level3Of (pageAddress page)) =
            0 := by
          rw [← poolLeaf_of_table hthird, extended.poolLeaf_eq]
          exact leaf_of_free sound hpage hfree
        have same := sameTables_of_setEntry (extended.paging claimed.paging)
          hthird (MemoryState.entries_withEntry grown table
            (level3Of (pageAddress page)) (poolDescriptor platform frame))
          (fun _ => rfl) rfl
        rw [heq]
        simp only [hentry, ne_eq, not_true_eq_false, if_false]
        refine ⟨trivial, ?_⟩
        have filled : Builds image (state.claim frame)
            (((grown.withEntry table (level3Of (pageAddress page))
              (poolDescriptor platform frame)).flush
                (pageAddress page)).usePage page) (pagePlaces page) 0 :=
          builds.congr same.tableAt rfl
        refine ⟨filled.absent, ?_⟩
        have hframes := filled.frames
        rw [hmissing] at hframes
        omega
      · right
        rw [heq, ← hmissing]
        exact ⟨rfl, by omega⟩

end

end Planetoid.Memory
