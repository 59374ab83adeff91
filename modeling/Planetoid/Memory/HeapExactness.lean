import Planetoid.Memory.HeapSizes
import Planetoid.Memory.PoolAgreement
import Planetoid.Memory.PoolAtomicity

namespace Planetoid.Memory

open Planetoid Program VirtualMemory KernelHeapAllocator

/-! When `kmalloc` serves a request, and what it leaves behind otherwise. -/

section

variable {platform : Platform} (image : KernelImage platform)

/-- The pool has a run of pages and there are frames for it. -/
def PoolServes (memory : MemoryState) (count : Nat) : Prop :=
  (0 < count ∧ count ≤ virtualPageCount) ∧
    ∃ first, LowestRun memory first count ∧
      Affordable image memory first count

def ListServes (state : HeapState) (size : Nat) : Prop :=
  ∃ block room, Listed image state block ∧
    (loadFree image block).run state = .ok (true, state) ∧
    (loadSize image block).run state = .ok (room, state) ∧ size ≤ room

/-- The request of `size` bytes, rounded by `align_size`, can be served from
the list or the pool. -/
def Servable (state : HeapState) (size : Nat) : Prop :=
  size ≠ 0 ∧ alignSize size ≤ 2 ^ 64 - 1 - sizeofBlock ∧
    if alignSize size ≤ pageSize - sizeofBlock then
      ListServes image state (alignSize size) ∨
        PoolServes image state.memory 1
    else PoolServes image state.memory (pageCount (alignSize size))

/-- A request that was not served left no trace but page tables. -/
structure Unserved (before after : HeapState) : Prop where
  ram : after.ram = before.ram
  firstBlock : after.firstBlock = before.firstBlock
  created : after.created = before.created
  memory : Untouched image before.memory after.memory

end

section

variable {platform : Platform} {image : KernelImage platform}
  {memory : MemoryState} {state : HeapState} {layout : Layout} {size : Nat}

theorem Unserved.refl (state : HeapState) : Unserved image state state :=
  ⟨rfl, rfl, rfl, .refl _⟩

theorem allocatePages_exact (sound : Sound image memory none) (count : Nat) :
    ∃ result after, (allocatePages image count).run memory =
        .ok (result, after) ∧
      (result ≠ 0 ↔ PoolServes image memory count) ∧
      (result = 0 → Untouched image memory after) := by
  obtain ⟨result, after, hrun, _, hcases⟩ :=
    allocatePages_outcome sound count
  refine ⟨result, after, hrun, ?_⟩
  rcases hcases with ⟨first, hcount, lowest, haffordable, rfl, _⟩ |
    ⟨rfl, untouched, hnone⟩
  · have hne := pageAddress_ne_zero first
    exact ⟨⟨fun _ => ⟨hcount, first, lowest, haffordable⟩, fun _ => hne⟩,
      fun h => absurd h hne⟩
  · refine ⟨⟨fun h => absurd rfl h, ?_⟩, fun _ => untouched⟩
    rintro ⟨⟨hpositive, _⟩, first, lowest, haffordable⟩
    exact absurd haffordable (hnone first hpositive lowest)

theorem createBlock_exact (sound : Sound image state.memory none) :
    ∃ result after, (createBlock image).run state = .ok (result, after) ∧
      (result ≠ 0 ↔ PoolServes image state.memory 1) ∧
      (result = 0 → Unserved image state after) := by
  obtain ⟨address, memory, hpages, hexact, huntouched⟩ :=
    allocatePages_exact sound 1
  rw [run_allocatePages_one sound] at hpages
  obtain ⟨other, last, hpage, hsound, hresult⟩ :=
    allocatePage_allocated sound
  obtain ⟨rfl, rfl⟩ := run_unique hpages hpage
  rcases hresult with ⟨rfl, _⟩ | ⟨page, rfl, _, unused, bits⟩
  · refine ⟨0, { state with memory := memory }, ?_, hexact,
      fun _ => ⟨rfl, rfl, rfl, huntouched rfl⟩⟩
    unfold createBlock
    exact run_bind_ok (run_callVm hpages) _
  · obtain ⟨after, hcreate, _⟩ :=
      run_createBlock_page hpages hsound unused bits
    exact ⟨_, after, hcreate, hexact,
      fun h => absurd h (pageAddress_ne_zero page)⟩

theorem allocateLarge_exact (sound : Sound image state.memory none)
    (hsize : size + sizeofBlock < 2 ^ 64) :
    ∃ result after, (allocateLarge image size).run state =
        .ok (result, after) ∧
      (result ≠ 0 ↔ PoolServes image state.memory (pageCount size)) ∧
      (result = 0 → Unserved image state after) := by
  obtain ⟨address, memory, hpages, hexact, huntouched⟩ :=
    allocatePages_exact sound (pageCount size)
  obtain ⟨other, last, hrun, hsound, hresult⟩ :=
    run_allocatePages sound (pageCount size)
  obtain ⟨rfl, rfl⟩ := run_unique hpages hrun
  unfold allocateLarge
  rw [run_bind_ok (run_callVm hrun)]
  rcases hresult with ⟨rfl, _⟩ | ⟨first, rfl, hcount, unused, bits⟩
  · exact ⟨0, _, rfl, hexact, fun _ => ⟨rfl, rfl, rfl, huntouched rfl⟩⟩
  · have hne := pageAddress_ne_zero first
    have hlt : size < 2 ^ 64 := Nat.lt_of_le_of_lt (Nat.le_add_right ..) hsize
    obtain ⟨after, hheader, _⟩ :=
      run_newRun hsound hcount unused bits state.created hlt false true
    have hresult : pageAddress first + sizeofBlock ≠ 0 := by
      unfold sizeofBlock
      omega
    rw [if_neg hne]
    exact ⟨_, after, hheader _, ⟨fun _ => hexact.mp hne, fun _ => hresult⟩,
      fun h => absurd h hresult⟩

theorem extendHeap_served (arranged : Arranged image state layout)
    (hsize : size ≤ pageSize - sizeofBlock) (haligned : size % 8 = 0)
    {address : Nat} {middle : HeapState}
    (hcreate : (createBlock image).run state = .ok (address, middle))
    (hne : address ≠ 0) :
    ∃ after, (extendHeap image (lastPointer 0 layout.blocks) size).run state =
      .ok (address + sizeofBlock, after) := by
  obtain ⟨other, last, hother, hsound, hfirst, hresult⟩ :=
    run_createBlock arranged.sound
  cases hother.symm.trans hcreate
  rcases hresult with ⟨hzero, _⟩ | ⟨page, rfl, hcreated, new⟩
  · exact absurd hzero hne
  have unlinked := arranged.unlinked hsound hfirst hcreated new
  have hfits : Fits size (newChunk page) := ⟨rfl, hsize⟩
  unfold extendHeap
  rw [run_bind_ok hcreate, if_neg hne]
  rcases layout.blocks.eq_nil_or_concat' with hempty | ⟨before, last, hblocks⟩
  · have hlast : lastPointer 0 layout.blocks = 0 := by
      rw [hempty]
      rfl
    rw [if_pos hlast, run_write_bind]
    obtain ⟨after, hrun, _⟩ :=
      (unlinked.linkFirst hempty).allocate rfl hfits haligned
    exact ⟨after, hrun⟩
  · have headers := arranged.headers
    rw [hblocks] at headers
    have hheader := (headers_append.mp headers).2.1
    obtain ⟨linked, hlink, linkedArranged, _⟩ :=
      unlinked.linkLast arranged hblocks
    rw [show lastPointer 0 layout.blocks = last.address by
      rw [hblocks, lastPointer_concat], if_neg hheader.address_ne_zero,
      run_bind_ok hlink]
    obtain ⟨after, hrun, _⟩ := linkedArranged.allocate rfl hfits haligned
    exact ⟨after, hrun⟩

theorem extendHeap_exact (arranged : Arranged image state layout)
    (hsize : size ≤ pageSize - sizeofBlock) (haligned : size % 8 = 0) :
    ∃ result after, (extendHeap image (lastPointer 0 layout.blocks)
        size).run state = .ok (result, after) ∧
      (result ≠ 0 ↔ PoolServes image state.memory 1) ∧
      (result = 0 → Unserved image state after) := by
  obtain ⟨address, middle, hcreate, hexact, hunserved⟩ :=
    createBlock_exact arranged.sound
  by_cases hzero : address = 0
  · subst hzero
    refine ⟨0, middle, ?_, hexact, hunserved⟩
    unfold extendHeap
    rw [run_bind_ok hcreate]
    rfl
  · obtain ⟨after, hrun⟩ :=
      extendHeap_served arranged hsize haligned hcreate hzero
    have hresult : address + sizeofBlock ≠ 0 := by omega
    exact ⟨_, after, hrun, ⟨fun _ => hexact.mp hzero, fun _ => hresult⟩,
      fun h => absurd h hresult⟩

theorem Arranged.listServes (arranged : Arranged image state layout) :
    ListServes image state size ↔ ∃ chunk ∈ layout.blocks, Fits size chunk := by
  have hheader : ∀ chunk ∈ layout.blocks, ∃ next,
      Header (state.view image) chunk next := by
    intro chunk hmem
    obtain ⟨front, behind, hblocks⟩ := List.append_of_mem hmem
    have headers := arranged.headers
    rw [hblocks] at headers
    exact ⟨_, headers.header⟩
  constructor
  · rintro ⟨block, room, hlisted, hfree, hroom, hle⟩
    obtain ⟨chunk, hmem, rfl⟩ :=
      (arranged.headers.listed arranged.first).mp hlisted
    obtain ⟨next, header⟩ := hheader chunk hmem
    have hfound := Except.ok.inj (header.run_loadFree.symm.trans hfree)
    have hsize := Except.ok.inj (header.run_loadSize.symm.trans hroom)
    exact ⟨chunk, hmem, congrArg Prod.fst hfound,
      hle.trans_eq (congrArg Prod.fst hsize).symm⟩
  · rintro ⟨chunk, hmem, hfree, hle⟩
    obtain ⟨next, header⟩ := hheader chunk hmem
    refine ⟨chunk.address, chunk.size,
      (arranged.headers.listed arranged.first).mpr ⟨chunk, hmem, rfl⟩, ?_,
      header.run_loadSize, hle⟩
    rw [← hfree]
    exact header.run_loadFree

theorem allocateSmall_exact (arranged : Arranged image state layout)
    (hsize : size ≤ pageSize - sizeofBlock) (haligned : size % 8 = 0) :
    ∃ result after, Returns .budgetExhausted
        (fun budget => allocateSmall image budget size) state
        layout.blocks.length (result, after) ∧
      (result ≠ 0 ↔ ListServes image state size ∨
        PoolServes image state.memory 1) ∧
      (result = 0 → Unserved image state after) := by
  rcases firstFit_cases size 0 layout.blocks with
    ⟨_, hnone⟩ | ⟨before, chunk, rest, hblocks, _, hfits, hbefore⟩
  · obtain ⟨result, after, hrun, hexact, hunserved⟩ :=
      extendHeap_exact arranged hsize haligned
    have hlist : ¬ ListServes image state size := by
      rw [arranged.listServes]
      rintro ⟨chunk, hmem, hfits⟩
      exact hnone chunk hmem hfits
    refine ⟨result, after, arranged.serveNew hnone hrun, ?_, hunserved⟩
    rw [hexact]
    exact ⟨.inr, fun h => h.resolve_left hlist⟩
  · obtain ⟨after, hreturns, _⟩ :=
      arranged.serve hblocks hbefore hfits haligned
    have hne := chunk.payload_ne_zero
    have hlist := arranged.listServes.mpr ⟨chunk, by simp [hblocks], hfits⟩
    exact ⟨chunk.payload, after, hreturns,
      ⟨fun _ => .inl hlist, fun _ => hne⟩, fun h => absurd h hne⟩

theorem kmalloc_exact (arranged : Arranged image state layout)
    (size : Nat) :
    ∃ result after, Returns .budgetExhausted
        (fun budget => kmalloc image budget size) state layout.blocks.length
        (result, after) ∧
      (result ≠ 0 ↔ Servable image state size) ∧
      (result = 0 → Unserved image state after) := by
  have hrejected : ∀ {count}, ¬ Servable image state size →
      Returns .budgetExhausted (fun budget => kmalloc image budget size) state
        count (0, state) → ∃ result after, Returns .budgetExhausted
          (fun budget => kmalloc image budget size) state count
          (result, after) ∧
        (result ≠ 0 ↔ Servable image state size) ∧
        (result = 0 → Unserved image state after) := by
    intro count hnot hreturns
    exact ⟨0, state, hreturns, ⟨fun h => absurd rfl h, fun h => absurd h hnot⟩,
      fun _ => .refl state⟩
  by_cases hzero : size = 0
  · refine hrejected (fun servable => servable.1 hzero) ?_
    unfold kmalloc
    simp only [if_pos hzero]
    exact returns_of_run rfl _
  by_cases hsmall : alignSize size ≤ pageSize - sizeofBlock
  · obtain ⟨result, after, hreturns, hexact, hunserved⟩ :=
      allocateSmall_exact arranged hsmall (alignSize_aligned size)
    have hguard : alignSize size ≤ 2 ^ 64 - 1 - sizeofBlock := by
      unfold pageSize sizeofBlock at *
      omega
    refine ⟨result, after, hreturns.of_run_eq ?_, ?_, hunserved⟩
    · intro budget
      rw [kmalloc_eq_allocateSmall hzero hsmall]
    · rw [hexact]
      unfold Servable
      rw [if_pos hsmall]
      exact ⟨fun h => ⟨hzero, hguard, h⟩, fun h => h.2.2⟩
  by_cases hhuge : alignSize size > 2 ^ 64 - 1 - sizeofBlock
  · refine hrejected (fun servable => ?_) ?_
    · exact absurd servable.2.1 (Nat.not_le_of_lt hhuge)
    · unfold kmalloc
      simp only [if_neg hzero, if_pos hhuge]
      exact returns_of_run rfl _
  · have hsize : alignSize size + sizeofBlock < 2 ^ 64 := by
      unfold sizeofBlock at *
      omega
    obtain ⟨result, after, hrun, hexact, hunserved⟩ :=
      allocateLarge_exact arranged.sound hsize
    refine ⟨result, after, ?_, ?_, hunserved⟩
    · unfold kmalloc
      simp only [if_neg hzero, if_neg hhuge,
        if_pos (Nat.lt_of_not_le hsmall)]
      exact returns_of_run hrun _
    · rw [hexact]
      unfold Servable
      rw [if_neg hsmall]
      exact ⟨fun h => ⟨hzero, Nat.le_of_not_gt hhuge, h⟩, fun h => h.2.2⟩

end

/-- In every state of every run of the heap, `kmalloc` serves exactly the
requests for which the list or the pool has room, and a request that it does
not serve changes no byte, no block and no mapping. -/
theorem kmalloc_exact_of_reachable {platform : Platform}
    {image : KernelImage platform} {memory : MemoryState}
    {ram : Nat → BitVec 64} {start : HeapState} {run : HeapRun}
    (hstart : (initHeap image).run (bootHeap memory ram) = .ok ((), start))
    (reachable : (heapRuns image start).Reachable (FreesSafely image) run)
    (size : Nat) :
    ∃ least result after, (∀ budget, least < budget →
        (kmalloc image budget size).run run.heap = .ok (result, after)) ∧
      (result ≠ 0 ↔ Servable image run.heap size) ∧
      (result = 0 → after.ram = run.heap.ram ∧
        after.firstBlock = run.heap.firstBlock ∧
        after.created = run.heap.created ∧
        OnlyTables image run.heap.memory after.memory) := by
  obtain ⟨layout, keeps⟩ := keeps_of_reachable hstart reachable
  obtain ⟨result, after, hreturns, hexact, hunserved⟩ :=
    kmalloc_exact keeps.arranged size
  refine ⟨layout.blocks.length, result, after,
    fun budget hbudget => hreturns.run_eq hbudget, hexact, ?_⟩
  intro hzero
  obtain ⟨hram, hfirst, hcreated, untouched⟩ := hunserved hzero
  obtain ⟨booted, hstatic, hheap⟩ := hasMemory_start hstart
  have hbefore := hasMemory_of_reachable hstatic hheap
    (reachable.weaken fun _ _ _ => trivial)
  have hafter : HasMemory image booted after :=
    (ends_kmalloc hstatic _ _ hbefore).of_run
      (hreturns.run_eq (Nat.lt_succ_self _))
  exact ⟨hram, hfirst, hcreated, untouched.onlyTables hbefore.sound
    hafter.sound hbefore.fixed hafter.fixed⟩

/-- The list has room for 3000 bytes, and nothing has room for almost the whole
address space. -/
theorem kmalloc_exact_twoLive :
    ∃ start run, (initHeap smallImage).run (bootHeap bootMemory fun _ => 0) =
        .ok ((), start) ∧
      (heapRuns smallImage start).Reachable (FreesSafely smallImage) run ∧
      run.live = [pageAddress 0 + 200, pageAddress 0 + 112] ∧
      Servable smallImage run.heap 3000 ∧
      (∃ budget result after, result ≠ 0 ∧
        (kmalloc smallImage budget 3000).run run.heap = .ok (result, after)) ∧
      ¬ Servable smallImage run.heap (2 ^ 64 - 8) ∧
      ∃ budget after,
        (kmalloc smallImage budget (2 ^ 64 - 8)).run run.heap =
          .ok (0, after) ∧ after.ram = run.heap.ram := by
  obtain ⟨start, _, run, hstart, reachable, staged⟩ :=
    reached_twoLive smallImage bootMemory fun _ => 0
  have safely := reachable.weaken fun _ _ h => FreesListed.safely h
  have header := (headers_append.mp (show Headers (run.heap.view smallImage)
    ([_, _, _] ++ [_]) 0 from staged.arranged.headers)).2.1
  have hserved : Servable smallImage run.heap 3000 := by
    refine ⟨by decide, by decide, ?_⟩
    rw [if_pos (by decide)]
    exact .inl ⟨pageAddress 0 + 264, 3808,
      (staged.arranged.headers.listed staged.arranged.first).mpr
        ⟨⟨pageAddress 0 + 264, 3808, true⟩, by simp, rfl⟩,
      header.run_loadFree, header.run_loadSize, by decide⟩
  have hrefused : ¬ Servable smallImage run.heap (2 ^ 64 - 8) :=
    fun h => absurd h.2.1 (by decide)
  obtain ⟨least, result, after, hrun, hserves, _⟩ :=
    kmalloc_exact_of_reachable hstart safely 3000
  obtain ⟨most, refused, same, hother, hnone, hframe⟩ :=
    kmalloc_exact_of_reachable hstart safely (2 ^ 64 - 8)
  obtain rfl : refused = 0 := not_not.mp fun h => hrefused (hnone.mp h)
  exact ⟨start, run, hstart, safely, staged.live, hserved,
    ⟨_, result, after, hserves.mpr hserved, hrun _ (Nat.lt_succ_self _)⟩,
    hrefused, _, same, hother _ (Nat.lt_succ_self _), (hframe rfl).1⟩

end Planetoid.Memory
