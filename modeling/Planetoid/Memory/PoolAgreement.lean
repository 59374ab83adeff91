import Planetoid.Memory.PoolInvariant

namespace Planetoid.Memory

open Planetoid Program Mmu TableTree VirtualMemory

/-! One page is allocated and freed alike by the functions for one page and by
those for several. -/

namespace VirtualMemory

section

variable {platform : Platform} {image : KernelImage platform}
  {state : MemoryState}

theorem run_countLoop_one (state : MemoryState) (current remaining : Nat) :
    (forRange (countFreePage 1) current remaining 0).run state =
      .ok (match (List.range' current remaining).find? fun page =>
          !state.virtualBitmap.test page with
        | none => .inl 0
        | some page => .inr page, state) := by
  induction remaining generalizing current with
  | zero => rfl
  | succ remaining ih =>
      have hstep := @run_countFreePage state 1 current 0
      rw [List.range'_succ]
      cases hused : state.virtualBitmap.test current with
      | true =>
          rw [hused, if_pos rfl] at hstep
          rw [run_forRange_next hstep, List.find?_cons_of_neg (by simp [hused])]
          exact ih (current + 1)
      | false =>
          rw [hused, if_neg Bool.false_ne_true, if_pos rfl] at hstep
          rw [run_forRange_leave hstep, List.find?_cons_of_pos (by simp [hused])]
          rfl

theorem run_findFreePages_one (state : MemoryState) :
    (findFreePages 1).run state = findFreePage.run state := by
  rw [run_findFreePage]
  have hloop := run_countLoop_one state 0 virtualPageCount
  unfold findFreePages firstFree
  cases hfind : (List.range' 0 virtualPageCount).find? fun page =>
      !state.virtualBitmap.test page with
  | none =>
      rw [hfind] at hloop
      exact run_bind_ok hloop _
  | some page =>
      rw [hfind] at hloop
      exact run_bind_ok hloop _

/-- A page that cannot be filled leaves nothing to roll back. -/
theorem run_allocatePages_one (sound : Sound image state none) :
    (allocatePages image 1).run state = (allocatePage image).run state := by
  rw [run_allocatePage sound]
  unfold allocatePages
  have hfind := (run_findFreePages_one state).trans (run_findFreePage state)
  rw [if_neg (by decide), if_neg (by decide), run_bind_ok hfind]
  cases hpage : firstFree state with
  | none => rfl
  | some page =>
      obtain ⟨hlt, _⟩ := firstFree_spec hpage
      have hnext := run_allocateNext sound page 0
      rw [Option.getD_some, if_neg (Nat.ne_of_lt hlt)]
      simp only
      cases hfilled : (fillEffect image state page).1 with
      | true =>
          rw [hfilled, if_pos rfl] at hnext
          exact run_bind_ok (run_forRange_next hnext 0) _
      | false =>
          rw [hfilled, if_neg Bool.false_ne_true] at hnext
          exact run_bind_ok (run_forRange_leave hnext 0) _

theorem run_freeLoop_one (virtualAddress : Nat) :
    (do
      match ← forRange (fun i _ => do
          if !(← freePage image (virtualAddress + i * pageSize)) then
            pure (.inr false)
          else
            pure (.inl ())) 0 1 () with
      | .inr result => pure result
      | .inl _ => pure true : Vm Bool).run state =
        (freePage image virtualAddress).run state := by
  have hfirst : virtualAddress + 0 * pageSize = virtualAddress := by
    rw [Nat.zero_mul, Nat.add_zero]
  simp only [forRange, hfirst, run_bind]
  cases (freePage image virtualAddress).run state with
  | error fault => rfl
  | ok result =>
      obtain ⟨freed, after⟩ := result
      cases freed <;> rfl

/-- What the loop of `free_pages` that checks finds out, `free_page` finds out
again. -/
theorem run_checkPage_one {virtualAddress : Nat}
    (hrange : ¬ (virtualAddress < virtualMemoryStart ∨
      virtualAddress ≥ virtualMemoryEnd))
    (haligned : ¬ virtualAddress &&& (pageSize - 1) ≠ 0) :
    (checkPage image virtualAddress 0).run state = .ok (.inl (), state) ∨
      (checkPage image virtualAddress 0).run state =
          .ok (.inr false, state) ∧
        (freePage image virtualAddress).run state = .ok (false, state) := by
  have hfirst : virtualAddress + 0 * pageSize = virtualAddress := by
    rw [Nat.zero_mul, Nat.add_zero]
  have hused := @run_isPageUsed state
    ((virtualAddress - virtualMemoryStart) / pageSize)
  obtain ⟨physicalAddress, hget⟩ : ∃ physicalAddress,
      (getPhysicalAddress image virtualAddress).run state =
        .ok (physicalAddress, state) :=
    ⟨_, run_getPhysicalAddress virtualAddress⟩
  unfold checkPage freePage
  rw [hfirst, if_neg hrange, if_neg haligned]
  simp only
  rw [run_bind_ok hused, run_bind_ok hused]
  cases state.virtualBitmap.test
      ((virtualAddress - virtualMemoryStart) / pageSize) with
  | false => exact .inr ⟨rfl, rfl⟩
  | true =>
      by_cases hzero : physicalAddress = 0
      · refine .inr ⟨(run_bind_ok hget _).trans ?_,
          (run_bind_ok hget _).trans ?_⟩
        · rw [if_pos hzero]
          rfl
        · rw [if_pos hzero]
          rfl
      · refine .inl ((run_bind_ok hget _).trans ?_)
        rw [if_neg hzero]
        rfl

theorem run_freePages_one (virtualAddress : Nat) :
    (freePages image virtualAddress 1).run state =
      (freePage image virtualAddress).run state := by
  unfold freePages
  rw [if_neg (by decide)]
  by_cases hrange : virtualAddress < virtualMemoryStart ∨
      virtualAddress ≥ virtualMemoryEnd
  · unfold freePage
    rw [if_pos hrange, if_pos hrange]
  rw [if_neg hrange]
  by_cases haligned : virtualAddress &&& (pageSize - 1) ≠ 0
  · unfold freePage
    rw [if_neg hrange, if_pos haligned, if_pos haligned]
  rw [if_neg haligned]
  have hlast : ¬ virtualAddress + (1 - 1) * pageSize ≥ virtualMemoryEnd := by
    rw [Nat.sub_self, Nat.zero_mul, Nat.add_zero]
    exact fun h => hrange (.inr h)
  simp only
  rw [if_neg hlast]
  rcases @run_checkPage_one _ image state virtualAddress hrange haligned with
    hpassed | ⟨hfailed, hrefused⟩
  · rw [run_bind_ok (run_forRange_next hpassed 0)]
    exact run_freeLoop_one virtualAddress
  · rw [run_bind_ok (run_forRange_leave hfailed 0), hrefused]
    rfl

end

end VirtualMemory

section

variable {platform : Platform} (image : KernelImage platform)

/-- Both ways to allocate and to free one page return the same result and leave
the same memory. -/
structure SinglePageAgrees (state : MemoryState) : Prop where
  allocates : ∃ address after,
    (allocatePage image).run state = .ok (address, after) ∧
      (allocatePages image 1).run state = .ok (address, after)
  frees : ∀ virtualAddress : UInt64, ∃ freed after,
    (freePage image virtualAddress.toNat).run state = .ok (freed, after) ∧
      (freePages image virtualAddress.toNat 1).run state = .ok (freed, after)

end

section

variable {platform : Platform} {image : KernelImage platform}
  {state : MemoryState}

theorem freePage_returns (sound : Sound image state none)
    (virtualAddress : Nat) :
    ∃ freed after, (freePage image virtualAddress).run state =
      .ok (freed, after) := by
  by_cases hvalid : ∃ page, page < virtualPageCount ∧
      virtualAddress = pageAddress page
  · obtain ⟨page, hpage, rfl⟩ := hvalid
    exact ⟨_, _, run_freePage sound hpage⟩
  · exact ⟨false, state, run_freePage_invalid hvalid⟩

theorem Sound.singlePageAgrees (sound : Sound image state none) :
    SinglePageAgrees image state where
  allocates := by
    obtain ⟨address, after, hrun, _⟩ := allocatePage_allocated sound
    exact ⟨address, after, hrun, (run_allocatePages_one sound).trans hrun⟩
  frees := by
    intro virtualAddress
    obtain ⟨freed, after, hrun⟩ :=
      freePage_returns sound virtualAddress.toNat
    exact ⟨freed, after, hrun,
      (run_freePages_one virtualAddress.toNat).trans hrun⟩

end

/-- In every state that the operations of `VirtualMemory` reach, a single page
is allocated and freed alike by both paths. -/
theorem singlePageAgrees_of_reachable {platform : Platform}
    (image : KernelImage platform) {boot start state : MemoryState}
    (hstart : (initMemory image).run boot = .ok ((), start))
    (reachable : (poolRuns image start).Reachable System.unguarded state) :
    SinglePageAgrees image state := by
  obtain ⟨other, hother, startSound, _⟩ := run_initMemory image boot
  cases hstart.symm.trans hother
  exact (reachable_sound startSound reachable).1.singlePageAgrees

/-- With one page in use. -/
theorem singlePageAgrees_smallImage :
    ∃ start first second third,
      (initMemory smallImage).run bootMemory = .ok ((), start) ∧
      (allocatePage smallImage).run start = .ok (pageAddress 0, first) ∧
      (allocatePage smallImage).run first = .ok (pageAddress 1, second) ∧
      (freePage smallImage (pageAddress 0)).run second = .ok (true, third) ∧
      (poolRuns smallImage start).Reachable System.unguarded third ∧
      SinglePageAgrees smallImage third := by
  obtain ⟨start, first, second, third, hstart, hfirst, hsecond, hfree,
    reached⟩ := poolRuns_twoPages smallImage bootMemory
  exact ⟨start, first, second, third, hstart, hfirst, hsecond, hfree, reached,
    singlePageAgrees_of_reachable smallImage hstart reached⟩

end Planetoid.Memory
