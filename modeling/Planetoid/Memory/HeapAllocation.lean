import Planetoid.Memory.HeapCoalescing
import Planetoid.Memory.HeapGrowth

namespace Planetoid.Memory

open Planetoid Program VirtualMemory KernelHeapAllocator

/-! `kmalloc` and `init` between two arranged heaps. -/

section

variable {platform : Platform} {image : KernelImage platform}
  {state middle : HeapState} {layout : Layout} {page size : Nat}

structure Unlinked (image : KernelImage platform) (state middle : HeapState)
    (layout : Layout) (page : Nat) : Prop where
  paged : Paged image middle
    { layout with blocks := layout.blocks ++ [newChunk page] }
  first : middle.firstBlock = state.firstBlock
  headers : Headers (middle.view image) layout.blocks 0
  header : Header (middle.view image) (newChunk page) 0

theorem Arranged.unlinked (arranged : Arranged image state layout)
    (hsound : Sound image middle.memory none)
    (hfirst : middle.firstBlock = state.firstBlock)
    (hcreated : middle.created = pageAddress page :: state.created)
    (new : NewRun image state middle page 1 (pageSize - sizeofBlock) true
      false) : Unlinked image state middle layout page := by
  refine ⟨arranged.toPaged.extend hsound hcreated new, hfirst, ?_, new.header⟩
  apply arranged.headers.congr
  intro chunk hmem address hword
  obtain ⟨other, hother, hpage, hlow, hhigh⟩ := arranged.toPaged.page_of_covers
    hmem (Chunk.covers_of_headerWord hword)
  apply new.words
  exact new.outside ((arranged.used other hother).mpr (.inl hpage)) hlow hhigh

theorem Unlinked.linkFirst (unlinked : Unlinked image state middle layout page)
    (hblocks : layout.blocks = []) :
    Arranged image { middle with firstBlock := pageAddress page }
      { layout with blocks := layout.blocks ++ [newChunk page] } := by
  obtain ⟨sound, tiling, created, large, apart, separate, used⟩ :=
    unlinked.paged
  refine ⟨⟨sound, tiling, created, large, apart, separate, used⟩, ?_, ?_⟩
  · rw [hblocks]
    rfl
  · rw [hblocks]
    exact ⟨unlinked.header, trivial⟩

theorem Unlinked.linkLast (unlinked : Unlinked image state middle layout page)
    (arranged : Arranged image state layout) {before : List Chunk}
    {last : Chunk} (hblocks : layout.blocks = before ++ [last]) :
    ∃ after, (storeNext image last.address (pageAddress page)).run middle =
        .ok ((), after) ∧
      Arranged image after
        { layout with blocks := layout.blocks ++ [newChunk page] } ∧
      Stores image middle after ((middle.view image).setWord
        (last.address + 16) (pageAddress page)) := by
  have paged := unlinked.paged
  have headers := unlinked.headers
  have tiling := paged.tiling
  simp only [hblocks] at headers tiling
  rw [List.append_assoc] at tiling
  obtain ⟨hbefore, hlast, _⟩ := headers_append.mp headers
  obtain ⟨next₀, hnext₀, _⟩ := hlast.next
  obtain ⟨after, hrun, stores⟩ := run_storeNext paged.sound
    (Stores.refl middle) hnext₀ (pageAddress page)
  have hmem : last ∈ layout.blocks ++ [newChunk page] := by
    rw [hblocks]
    simp
  have hword : HeaderWord last (last.address + 16) := .inr (.inr rfl)
  have hkept : ∀ other, other.Apart last → ∀ address,
      HeaderWord other address →
      (middle.view image).setWord (last.address + 16) (pageAddress page)
        address = middle.view image address := by
    intro other hapart address hother
    apply View.setWord_of_ne
    rintro rfl
    exact hapart _ (Chunk.covers_of_headerWord hother)
      (Chunk.covers_of_headerWord hword)
  refine ⟨after, hrun, ⟨paged.stores stores paged.tiling ?_, ?_, ?_⟩, stores⟩
  · intro large hlarge address hother
    apply View.setWord_of_ne
    rintro rfl
    exact paged.not_spans hmem (Chunk.covers_of_headerWord hword) hlarge
      (Chunk.spans_of_covers (Chunk.covers_of_headerWord hother))
  · rw [stores.firstBlock, unlinked.first, arranged.first]
    simp only [hblocks]
    cases before <;> rfl
  · rw [stores.view]
    simp only [hblocks]
    rw [List.append_assoc, headers_append]
    refine ⟨hbefore.congr ?_, ⟨?_, ?_, ?_⟩, ?_, trivial⟩
    · intro other hother
      apply hkept
      exact (tiling.apart_of_split (.inl hother)).symm
    · rw [View.setWord_of_ne _ (by omega)]
      exact hlast.size
    · rw [View.setWord_of_ne _ (by omega)]
      exact hlast.free
    · refine ⟨_, View.setWord_self .., ?_⟩
      exact toNat_pointer unlinked.header.poolWord
    · apply unlinked.header.congr
      apply hkept
      exact (tiling.apart_of_split
        (.inr (List.mem_singleton_self _))).symm

theorem alignSize_aligned (size : Nat) : alignSize size % 8 = 0 := by
  unfold alignSize
  simp only
  omega

structure Served (image : KernelImage platform) (layout : Layout)
    (size result : Nat) (after : HeapState) (next : Layout) : Prop where
  arranged : Arranged image after next
  coalesced : Coalesced layout.blocks → Coalesced next.blocks
  result : result = 0 ∧ next = layout ∨
    result ≠ 0 ∧ Takes layout next result size

structure Located (layout : Layout) (size result : Nat) (next : Layout) :
    Prop where
  found : size ≤ pageSize - sizeofBlock →
    (∃ chunk ∈ layout.blocks, Fits size chunk) →
    ∃ before chunk rest, layout.blocks = before ++ chunk :: rest ∧
      Fits size chunk ∧ (∀ other ∈ before, ¬ Fits size other) ∧
      result = chunk.payload ∧
      next = { layout with blocks := before ++ place chunk size ++ rest }
  paged : (size ≤ pageSize - sizeofBlock →
      ∀ chunk ∈ layout.blocks, ¬ Fits size chunk) → result ≠ 0 →
    ∃ page, result = (newChunk page).payload ∧
      (size ≤ pageSize - sizeofBlock → next =
        ⟨layout.blocks ++ place (newChunk page) size, layout.larges⟩)

theorem Served.failed {after : HeapState} (arranged : Arranged image after
    layout) (size : Nat) : Served image layout size 0 after layout :=
  ⟨arranged, fun h => h, .inl ⟨rfl, rfl⟩⟩

theorem Chunk.payload_ne_zero (chunk : Chunk) : chunk.payload ≠ 0 := by
  unfold Chunk.payload sizeofBlock
  omega

theorem Arranged.allocateNew (arranged : Arranged image state
      { layout with blocks := layout.blocks ++ [newChunk page] })
    (hsize : size ≤ pageSize - sizeofBlock) (haligned : size % 8 = 0)
    (unused : ∀ other, layout.Holds other → other.payload ≠
      (newChunk page).payload) :
    ∃ after, (allocateFromBlock image (pageAddress page) size).run state =
        .ok ((newChunk page).payload, after) ∧
      Served image layout size (newChunk page).payload after { layout with
        blocks := layout.blocks ++ place (newChunk page) size } := by
  have hfits : Fits size (newChunk page) := ⟨rfl, hsize⟩
  obtain ⟨after, hrun, hafter, _⟩ := arranged.allocate rfl hfits haligned
  simp only [List.append_nil] at hafter
  refine ⟨after, hrun, hafter, ?_, .inr ⟨Chunk.payload_ne_zero _, ?_⟩⟩
  · intro coalesced
    have hplaced := coalesced_place coalesced
      (List.isChain_singleton (newChunk page)) rfl size
    rw [List.append_nil] at hplaced
    exact hplaced
  · obtain ⟨⟨chunk, hpayload, hchunk, hholds⟩, _⟩ :=
      takes_place arranged.toPaged rfl hfits
    simp only [List.append_nil] at hholds
    refine ⟨⟨chunk, hpayload, hchunk, ?_⟩, unused⟩
    intro other
    rw [hholds other]
    have hnew : (newChunk page).free ≠ false := nofun
    unfold Layout.Holds
    simp only [List.mem_append, List.mem_singleton]
    constructor
    · rintro ((⟨h | rfl, hfree⟩ | h) | h)
      · exact .inl (.inl ⟨h, hfree⟩)
      · exact absurd hfree hnew
      · exact .inl (.inr h)
      · exact .inr h
    · rintro ((⟨h, hfree⟩ | h) | h)
      · exact .inl (.inl ⟨.inl h, hfree⟩)
      · exact .inl (.inr h)
      · exact .inr h

theorem run_extendHeap (arranged : Arranged image state layout)
    (hsize : size ≤ pageSize - sizeofBlock) (haligned : size % 8 = 0) :
    ∃ result after next, (extendHeap image (lastPointer 0 layout.blocks)
        size).run state = .ok (result, after) ∧
      Served image layout size result after next ∧
      (result ≠ 0 → ∃ page, result = (newChunk page).payload ∧
        next = { layout with
          blocks := layout.blocks ++ place (newChunk page) size }) := by
  obtain ⟨result, middle, hcreate, hsound, hfirst, hresult⟩ :=
    run_createBlock arranged.sound
  unfold extendHeap
  rw [run_bind_ok hcreate]
  rcases hresult with ⟨rfl, same⟩ | ⟨page, rfl, hcreated, new⟩
  · exact ⟨0, middle, layout, rfl, Served.failed
      (arranged.samePages hsound hfirst same) size, fun h => absurd rfl h⟩
  have unlinked := arranged.unlinked hsound hfirst hcreated new
  have unused : ∀ other, layout.Holds other → other.payload ≠
      (newChunk page).payload := by
    intro other hholds heq
    have hcovers := other.covers_address
    rw [Chunk.payload_inj heq] at hcovers
    have hin : InRun page 1 (newChunk page).address := by
      unfold InRun newChunk pageSize
      simp only
      omega
    obtain ⟨_, hspans, _⟩ := arranged.toPaged.kept new
    rcases hholds.mem with hblock | hlarge
    · obtain ⟨used, hused, hpage, hlow, hhigh⟩ :=
        arranged.toPaged.page_of_covers hblock hcovers
      exact new.outside ((arranged.used used hused).mpr (.inl hpage)) hlow
        hhigh hin
    · exact hspans other hlarge _ hin (Chunk.spans_of_covers hcovers)
  rw [if_neg (pageAddress_ne_zero page)]
  rcases layout.blocks.eq_nil_or_concat' with hempty | ⟨before, last, hblocks⟩
  · have hlast : lastPointer 0 layout.blocks = 0 := by
      rw [hempty]
      rfl
    rw [if_pos hlast, run_write_bind]
    obtain ⟨after, hrun, served⟩ :=
      (unlinked.linkFirst hempty).allocateNew hsize haligned unused
    exact ⟨_, after, _, hrun, served, fun _ => ⟨page, rfl, rfl⟩⟩
  · have hheader : Header (state.view image) last 0 := by
      have headers := arranged.headers
      rw [hblocks] at headers
      exact (headers_append.mp headers).2.1
    have hlast : lastPointer 0 layout.blocks = last.address := by
      rw [hblocks, lastPointer_concat]
    rw [hlast, if_neg hheader.address_ne_zero]
    obtain ⟨linked, hlink, linkedArranged, _⟩ :=
      unlinked.linkLast arranged hblocks
    rw [run_bind_ok hlink]
    obtain ⟨after, hrun, served⟩ :=
      linkedArranged.allocateNew hsize haligned unused
    exact ⟨_, after, _, hrun, served, fun _ => ⟨page, rfl, rfl⟩⟩

theorem allocateSmall_searched {blocks : List Chunk}
    (headers : Headers (state.view image) blocks 0)
    (hfirst : state.firstBlock = headPointer blocks 0)
    {previous block result : Nat} {after : HeapState}
    (hfound : firstFit size 0 blocks = (previous, block))
    (hrun : (if block = 0 then extendHeap image previous size
      else allocateFromBlock image block size).run state =
        .ok (result, after)) :
    Returns .budgetExhausted (fun budget => allocateSmall image budget size)
      state blocks.length (result, after) := by
  have hsearch := search_returns size blocks headers 0
  rw [← hfirst, hfound] at hsearch
  unfold allocateSmall
  refine Returns.bind (returns_of_run (run_read _ state) _) ?_
  refine Returns.bind hsearch ?_
  exact returns_of_run hrun _

theorem allocateSmall_found {before rest : List Chunk} {chunk : Chunk}
    (headers : Headers (state.view image) (before ++ chunk :: rest) 0)
    (hfirst : state.firstBlock = headPointer (before ++ chunk :: rest) 0)
    (hbefore : ∀ other ∈ before, ¬ Fits size other) (hfits : Fits size chunk)
    {result : Nat} {after : HeapState}
    (hrun : (allocateFromBlock image chunk.address size).run state =
      .ok (result, after)) :
    Returns .budgetExhausted (fun budget => allocateSmall image budget size)
      state (before ++ chunk :: rest).length (result, after) := by
  apply allocateSmall_searched headers hfirst (firstFit_append 0 hbefore hfits)
  rw [if_neg headers.header.address_ne_zero]
  exact hrun

theorem Arranged.serve (arranged : Arranged image state layout)
    {before rest : List Chunk} {chunk : Chunk}
    (hblocks : layout.blocks = before ++ chunk :: rest)
    (hbefore : ∀ other ∈ before, ¬ Fits size other) (hfits : Fits size chunk)
    (haligned : size % 8 = 0) :
    ∃ after, Returns .budgetExhausted
        (fun budget => allocateSmall image budget size) state
        layout.blocks.length (chunk.payload, after) ∧
      Arranged image after
        { layout with blocks := before ++ place chunk size ++ rest } ∧
      Stores image state after (allocateWords (state.view image) chunk size
        (headPointer rest 0)) := by
  obtain ⟨after, hrun, hafter, stores⟩ := arranged.allocate hblocks hfits
    haligned
  have headers := arranged.headers
  have hfirst := arranged.first
  rw [hblocks] at headers hfirst ⊢
  exact ⟨after, allocateSmall_found headers hfirst hbefore hfits hrun, hafter,
    stores⟩

theorem Arranged.serveNew (arranged : Arranged image state layout)
    (hnone : ∀ chunk ∈ layout.blocks, ¬ Fits size chunk)
    {result : Nat} {after : HeapState}
    (hrun : (extendHeap image (lastPointer 0 layout.blocks) size).run state =
      .ok (result, after)) :
    Returns .budgetExhausted (fun budget => allocateSmall image budget size)
      state layout.blocks.length (result, after) := by
  have hfound : firstFit size 0 layout.blocks =
      (lastPointer 0 layout.blocks, 0) := by
    rcases firstFit_cases size 0 layout.blocks with
      ⟨hfound, _⟩ | ⟨before, chunk, rest, hblocks, _, hfits, _⟩
    · exact hfound
    · exact absurd hfits (hnone chunk (by simp [hblocks]))
  exact allocateSmall_searched arranged.headers arranged.first hfound hrun

theorem allocateSmall_returns (arranged : Arranged image state layout)
    (hsize : size ≤ pageSize - sizeofBlock) (haligned : size % 8 = 0) :
    ∃ result after next, Returns .budgetExhausted
        (fun budget => allocateSmall image budget size) state
        layout.blocks.length (result, after) ∧
      Served image layout size result after next ∧
      Located layout size result next := by
  rcases firstFit_cases size 0 layout.blocks with
    ⟨_, hnone⟩ | ⟨before, chunk, rest, hblocks, hfound, hfits, hbefore⟩
  · obtain ⟨result, after, next, hrun, served, hnew⟩ :=
      run_extendHeap arranged hsize haligned
    refine ⟨result, after, next, arranged.serveNew hnone hrun, served, ?_, ?_⟩
    · rintro _ ⟨chunk, hmem, hfits⟩
      exact absurd hfits (hnone chunk hmem)
    · intro _ hne
      obtain ⟨page, hresult, hnext⟩ := hnew hne
      exact ⟨page, hresult, fun _ => hnext⟩
  · obtain ⟨after, hreturns, hafter, _⟩ :=
      arranged.serve hblocks hbefore hfits haligned
    refine ⟨chunk.payload, after, _, hreturns, ⟨hafter, ?_, .inr
      ⟨Chunk.payload_ne_zero _, takes_place arranged.toPaged hblocks hfits⟩⟩,
      ?_, ?_⟩
    · intro coalesced
      rw [hblocks] at coalesced
      unfold Coalesced at coalesced
      rw [List.isChain_append] at coalesced
      exact coalesced_place coalesced.1 coalesced.2.1 hfits.1 size
    · intro _ _
      exact ⟨before, chunk, rest, hblocks, hfits, hbefore, rfl, rfl⟩
    · intro hnone
      exact absurd hfits (hnone hsize chunk (by simp [hblocks]))

theorem run_serveLarge (arranged : Arranged image state layout)
    (hsize : size + sizeofBlock < 2 ^ 64) (haligned : size % 8 = 0) :
    ∃ result after next, (allocateLarge image size).run state =
        .ok (result, after) ∧
      Served image layout size result after next ∧
      (result ≠ 0 → ∃ page, result = (newChunk page).payload) := by
  obtain ⟨result, after, hrun, hsound, hfirst, hresult⟩ :=
    run_allocateLarge arranged.sound hsize
  rcases hresult with ⟨rfl, same⟩ | ⟨first, rfl, hcreated, new⟩
  · exact ⟨0, after, layout, hrun, Served.failed
      (arranged.samePages hsound hfirst same) size, fun h => absurd rfl h⟩
  obtain ⟨_, hspans, _⟩ := arranged.toPaged.kept new
  have houtside : ∀ block ∈ layout.blocks, ∀ place, block.Covers place →
      ¬ InRun first (pagesFor size) place := by
    intro block hmem place hcovers
    obtain ⟨used, hused, hpage, hlow, hhigh⟩ :=
      arranged.toPaged.page_of_covers hmem hcovers
    exact new.outside ((arranged.used used hused).mpr (.inl hpage)) hlow hhigh
  have hheaders : Headers (after.view image) layout.blocks 0 := by
    apply arranged.headers.congr
    intro block hmem address hword
    apply new.words
    exact houtside block hmem address (Chunk.covers_of_headerWord hword)
  have hin : InRun first (pagesFor size) (pageAddress first) := by
    have hpages := (pagesFor_spec size).1
    unfold sizeofBlock at hpages
    unfold InRun
    omega
  refine ⟨_, after, { layout with
    larges := ⟨pageAddress first, size, false⟩ :: layout.larges }, hrun,
    ⟨⟨arranged.toPaged.enlarge hsound hcreated haligned new,
      hfirst.trans arranged.first, hheaders⟩, fun h => h, .inr ⟨?_, ?_, ?_⟩⟩,
    fun _ => ⟨first, rfl⟩⟩
  · unfold sizeofBlock
    omega
  · refine ⟨⟨pageAddress first, size, false⟩, rfl, Nat.le_refl size, ?_⟩
    intro other
    unfold Layout.Holds
    simp only [List.mem_cons]
    exact (or_congr_right or_comm).trans or_assoc.symm
  · intro other hholds heq
    have hcovers := other.covers_address
    rw [show other.address = pageAddress first from
      Nat.add_right_cancel heq] at hcovers
    rcases hholds.mem with hblock | hlarge
    · exact houtside other hblock _ hcovers hin
    · exact hspans other hlarge _ hin (Chunk.spans_of_covers hcovers)

theorem kmalloc_eq_allocateSmall (hne : size ≠ 0)
    (hsize : alignSize size ≤ pageSize - sizeofBlock) (budget : Nat) :
    kmalloc image budget size =
      allocateSmall image budget (alignSize size) := by
  have hguard : ¬ alignSize size > 2 ^ 64 - 1 - sizeofBlock := by
    unfold pageSize sizeofBlock at *
    omega
  unfold kmalloc
  rw [if_neg hne, if_neg hguard, if_neg (Nat.not_lt.mpr hsize)]

theorem kmalloc_located (arranged : Arranged image state layout)
    (hne : size ≠ 0) :
    ∃ result after next, Returns .budgetExhausted
        (fun budget => kmalloc image budget size) state layout.blocks.length
        (result, after) ∧
      Served image layout (alignSize size) result after next ∧
      Located layout (alignSize size) result next := by
  have haligned := alignSize_aligned size
  by_cases hsmall : alignSize size ≤ pageSize - sizeofBlock
  · obtain ⟨result, after, next, hreturns, served, located⟩ :=
      allocateSmall_returns arranged hsmall haligned
    refine ⟨result, after, next, ?_, served, located⟩
    apply hreturns.of_run_eq
    intro budget
    rw [kmalloc_eq_allocateSmall hne hsmall]
  unfold kmalloc
  by_cases hhuge : alignSize size > 2 ^ 64 - 1 - sizeofBlock
  · simp only [if_neg hne, if_pos hhuge]
    exact ⟨0, state, layout, returns_of_run rfl _, Served.failed arranged _,
      ⟨fun h => absurd h hsmall, fun _ h => absurd rfl h⟩⟩
  · simp only [if_neg hne, if_neg hhuge, if_pos (Nat.lt_of_not_le hsmall)]
    have hsize : alignSize size + sizeofBlock < 2 ^ 64 := by
      unfold sizeofBlock at *
      omega
    obtain ⟨result, after, next, hrun, served, hpages⟩ :=
      run_serveLarge arranged hsize haligned
    refine ⟨result, after, next, returns_of_run hrun _, served,
      ⟨fun h => absurd h hsmall, ?_⟩⟩
    intro _ h
    obtain ⟨page, hpage⟩ := hpages h
    exact ⟨page, hpage, fun h => absurd h hsmall⟩

theorem kmalloc_returns (arranged : Arranged image state layout)
    (size : Nat) :
    ∃ result after next, Returns .budgetExhausted
        (fun budget => kmalloc image budget size) state layout.blocks.length
        (result, after) ∧
      Served image layout (alignSize size) result after next := by
  by_cases hne : size = 0
  · unfold kmalloc
    simp only [if_pos hne]
    exact ⟨0, state, layout, returns_of_run rfl _, Served.failed arranged _⟩
  · obtain ⟨result, after, next, hreturns, served, _⟩ :=
      kmalloc_located arranged hne
    exact ⟨result, after, next, hreturns, served⟩

end

end Planetoid.Memory
