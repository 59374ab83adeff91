import Planetoid.Memory.PoolPlacement

namespace Planetoid.Memory

open Planetoid Program Mmu TableTree VirtualMemory Arch

/-! What a call that fails leaves behind. -/

section

variable {platform : Platform} (image : KernelImage platform)

/-- After an allocation that failed there are at most more page tables, which
the tree links. -/
structure OnlyTables (before after : MemoryState) : Prop where
  virtualBitmap : after.virtualBitmap = before.virtualBitmap
  translate : ∀ address,
    translate image after address = translate image before address
  walk : ∀ address,
    hardwareWalk image after address = hardwareWalk image before address
  kept : ∀ place table, tableAt image before place = some table →
    tableAt image after place = some table
  frameCount : after.frameCount = before.frameCount
  used : ∀ frame, frame < after.frameCount → (after.used frame = true ↔
    before.used frame = true ∨ TableFrame image after frame)

/-- Every call in a state does all that it is asked for or fails without a
trace. -/
structure FailsAtomically (state : MemoryState) : Prop where
  allocatePage : ∀ after, (allocatePage image).run state = .ok (0, after) →
    OnlyTables image state after
  allocatePages : ∀ pageCount after,
    (allocatePages image pageCount).run state = .ok (0, after) →
    OnlyTables image state after
  freePage : ∀ virtualAddress after,
    (freePage image virtualAddress).run state = .ok (false, after) →
    after = state
  freePages : ∀ virtualAddress pageCount after,
    (freePages image virtualAddress pageCount).run state =
      .ok (false, after) →
    after = state
  freesWhole : ∀ virtualAddress pageCount after,
    (VirtualMemory.freePages image virtualAddress pageCount).run state =
      .ok (true, after) →
    ∃ first, Freeable state virtualAddress pageCount first ∧
      ∀ page, after.virtualBitmap.test page =
        if first ≤ page ∧ page < first + pageCount then false
        else state.virtualBitmap.test page

end

section

variable {platform : Platform} {image : KernelImage platform}
  {start state before after : MemoryState}

theorem Fixed.walk_eq (paging : Paging image before)
    (afterPaging : Paging image after) (fixed : Fixed image start before)
    (afterFixed : Fixed image start after)
    (hleaf : leafAt image after = leafAt image before) (address : Nat) :
    hardwareWalk image after address = hardwareWalk image before address := by
  by_cases hlt : address < 2 ^ 39
  · rw [hardwareWalk_eq paging hlt, hardwareWalk_eq afterPaging hlt, hleaf]
    by_cases hpool : level1Of address = poolIndex
    · rw [hpool, if_neg (paging.poolBlock _), if_neg (afterPaging.poolBlock _)]
    · rw [afterFixed.block _ _ hpool, fixed.block _ _ hpool]
  · unfold hardwareWalk tableWalk
    rw [if_neg hlt, if_neg hlt]

theorem Untouched.onlyTables (untouched : Untouched image before after)
    (sound : Sound image before none) (afterSound : Sound image after none)
    (fixed : Fixed image start before) (afterFixed : Fixed image start after) :
    OnlyTables image before after where
  virtualBitmap := Bitmap.eq_of_test untouched.bit
  translate := translate_congr untouched.leaf
  walk := Fixed.walk_eq sound.paging afterSound.paging fixed afterFixed
    untouched.leaf
  kept := untouched.table
  frameCount := untouched.frameCount
  used := by
    intro frame hlt
    have hmapped : ∀ page, Mapped image after page frame ↔
        Mapped image before page frame := by
      intro page
      unfold Mapped poolLeaf
      rw [untouched.leaf]
    rw [afterSound.used_iff frame hlt,
      sound.used_iff frame (untouched.frameCount ▸ hlt)]
    constructor
    · intro howned
      cases howned with
      | reserved h => exact .inl (.reserved h)
      | mapped hpage h => exact .inl (.mapped hpage ((hmapped _).mp h))
      | table h => exact .inr ⟨_, h⟩
      | held h => cases h
    · intro h
      rcases h with howned | ⟨node, htable⟩
      · cases howned with
        | reserved h => exact .reserved h
        | mapped hpage h => exact .mapped hpage ((hmapped _).mpr h)
        | table h => exact .table (untouched.table _ _ h)
        | held h => cases h
      · exact .table htable

theorem run_unique {α : Type} {program : Vm α} {value other : α}
    {last : MemoryState} (h : program.run state = .ok (value, after))
    (h' : program.run state = .ok (other, last)) :
    value = other ∧ after = last := by
  rw [h] at h'
  injection h' with heq
  injection heq with hvalue hafter
  exact ⟨hvalue, hafter⟩

theorem allocatePage_untouched (sound : Sound image state none)
    (hrun : (allocatePage image).run state = .ok (0, after)) :
    Untouched image state after := by
  have hall := run_allocatePage sound
  cases hpage : firstFree state with
  | none =>
      rw [hpage] at hall
      obtain ⟨_, rfl⟩ := run_unique hrun hall
      exact Untouched.refl _
  | some page =>
      obtain ⟨hlt, hfree⟩ := firstFree_spec hpage
      rw [hpage] at hall
      obtain ⟨hresult, rfl⟩ := run_unique hrun hall
      cases hfilled : (fillEffect image state page).1 with
      | false => exact fillEffect_untouched sound hlt hfree hfilled
      | true =>
          rw [hfilled, if_pos rfl] at hresult
          unfold pageAddress virtualMemoryStart at hresult
          omega

theorem allocatePages_untouched (sound : Sound image state none)
    {pageCount : Nat}
    (hrun : (allocatePages image pageCount).run state = .ok (0, after)) :
    Untouched image state after := by
  obtain ⟨result, last, hall, _, hcases⟩ :=
    allocatePages_outcome sound pageCount
  obtain ⟨rfl, rfl⟩ := run_unique hrun hall
  rcases hcases with ⟨first, _, _, _, hresult, _⟩ | ⟨_, untouched, _⟩
  · unfold pageAddress virtualMemoryStart at hresult
    omega
  · exact untouched

theorem freePage_unchanged (sound : Sound image state none)
    {virtualAddress : Nat}
    (hrun : (freePage image virtualAddress).run state =
      .ok (false, after)) : after = state := by
  by_cases hvalid : ∃ page, page < virtualPageCount ∧
      virtualAddress = pageAddress page
  · obtain ⟨page, hpage, rfl⟩ := hvalid
    have hall := run_freePage sound hpage
    cases hused : state.virtualBitmap.test page with
    | false =>
        rw [hused, if_neg Bool.false_ne_true] at hall
        exact (run_unique hrun hall).2
    | true =>
        rw [hused, if_pos rfl] at hall
        exact nomatch (run_unique hrun hall).1
  · exact (run_unique hrun (run_freePage_invalid hvalid)).2

theorem freePages_unchanged (sound : Sound image state none)
    {virtualAddress pageCount : Nat}
    (hrun : (freePages image virtualAddress pageCount).run state =
      .ok (false, after)) : after = state := by
  rcases run_freePages sound virtualAddress pageCount with
    ⟨_, hall⟩ | ⟨page, last, _, hall, _⟩
  · exact (run_unique hrun hall).2
  · exact nomatch (run_unique hrun hall).1

theorem freePages_whole (sound : Sound image state none)
    {virtualAddress pageCount : Nat}
    (hrun : (freePages image virtualAddress pageCount).run state =
      .ok (true, after)) :
    ∃ first, Freeable state virtualAddress pageCount first ∧
      Bits image state after first pageCount false := by
  rcases run_freePages sound virtualAddress pageCount with
    ⟨_, hall⟩ | ⟨first, last, freeable, hall, _, bits⟩
  · exact nomatch (run_unique hrun hall).1
  · obtain ⟨_, rfl⟩ := run_unique hrun hall
    exact ⟨first, freeable, bits⟩

end

/-- In every state that the operations of `VirtualMemory` reach, an allocation
that fails leaves at most page tables behind, and a call of `free_page` or
`free_pages` that fails leaves nothing. -/
theorem failsAtomically_of_reachable {platform : Platform}
    {image : KernelImage platform} {boot start state : MemoryState}
    (hstart : (initMemory image).run boot = .ok ((), start))
    (reachable : (poolRuns image start).Reachable System.unguarded state) :
    FailsAtomically image state := by
  obtain ⟨sound, fixed⟩ := fixed_of_reachable hstart reachable
  have honlyTables : ∀ (operation : PoolOperation) after,
      (operation.program image).run state = .ok ((), after) →
      Untouched image state after → OnlyTables image state after := by
    intro operation after hrun untouched
    obtain ⟨afterSound, afterFixed⟩ := fixed_of_reachable hstart
      (reachable.step trivial hrun)
    exact untouched.onlyTables sound afterSound fixed afterFixed
  refine ⟨?_, ?_, ?_, ?_, ?_⟩
  · intro after hrun
    exact honlyTables .allocatePage after (run_bind_ok hrun _)
      (allocatePage_untouched sound hrun)
  · intro pageCount after hrun
    exact honlyTables (.allocatePages pageCount) after (run_bind_ok hrun _)
      (allocatePages_untouched sound hrun)
  · intro virtualAddress after hrun
    exact freePage_unchanged sound hrun
  · intro virtualAddress pageCount after hrun
    exact freePages_unchanged sound hrun
  · intro virtualAddress pageCount after hrun
    obtain ⟨first, freeable, bits⟩ := freePages_whole sound hrun
    exact ⟨first, freeable, bits.bit⟩

/-- With one page in use. -/
theorem failsAtomically_smallImage :
    ∃ start first second third,
      (initMemory smallImage).run bootMemory = .ok ((), start) ∧
      (allocatePage smallImage).run start = .ok (pageAddress 0, first) ∧
      (allocatePage smallImage).run first = .ok (pageAddress 1, second) ∧
      (freePage smallImage (pageAddress 0)).run second = .ok (true, third) ∧
      (poolRuns smallImage start).Reachable System.unguarded third ∧
      FailsAtomically smallImage third := by
  obtain ⟨start, first, second, third, hstart, hfirst, hsecond, hfree,
    reached⟩ := poolRuns_twoPages smallImage bootMemory
  exact ⟨start, first, second, third, hstart, hfirst, hsecond, hfree, reached,
    failsAtomically_of_reachable hstart reached⟩

end Planetoid.Memory
