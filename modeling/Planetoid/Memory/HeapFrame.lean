import Planetoid.Memory.HeapInvariant

namespace Planetoid.Memory

open Planetoid Program VirtualMemory KernelHeapAllocator

/-! What the calls of the allocator leave in the payloads of the live
allocations. -/

section

variable {platform : Platform} (image : KernelImage platform)

def KeepsPayload (chunk : Chunk) (before after : HeapState) : Prop :=
  ∀ address, chunk.payload ≤ address → address < chunk.finish →
    after.view image address = before.view image address

def KeepsPayloads (layout : Layout) (before after : HeapState) : Prop :=
  ∀ chunk, layout.Holds chunk → KeepsPayload image chunk before after

end

section

variable {platform : Platform} {image : KernelImage platform}
  {state middle after : HeapState} {layout : Layout} {chunk : Chunk}
  {first count size : Nat} {free large : Bool}

theorem keepsPayload_of_eq (h : after.view image = state.view image) :
    KeepsPayload image chunk state after := by
  intro address _ _
  rw [h]

theorem KeepsPayload.trans (left : KeepsPayload image chunk state middle)
    (right : KeepsPayload image chunk middle after) :
    KeepsPayload image chunk state after := by
  intro address hlow hhigh
  rw [right address hlow hhigh, left address hlow hhigh]

theorem Chunk.covers_of_payload {address : Nat}
    (hlow : chunk.payload ≤ address) (hhigh : address < chunk.finish) :
    chunk.Covers address := by
  unfold Chunk.payload at hlow
  exact ⟨by omega, hhigh⟩

theorem NewRun.keepsPayloads (arranged : Arranged image state layout)
    (new : NewRun image state after first count size free large) :
    KeepsPayloads image layout state after := by
  intro chunk hholds address hlow hhigh
  apply new.words
  have hcovers := Chunk.covers_of_payload hlow hhigh
  rcases hholds.mem with hblock | hlarge
  · obtain ⟨page, hpage, hcreated, hstart, hend⟩ :=
      arranged.toPaged.page_of_covers hblock hcovers
    exact new.outside ((arranged.used page hpage).mpr (.inl hcreated)) hstart
      hend
  · obtain ⟨_, hspans, _⟩ := arranged.toPaged.kept new
    intro hin
    exact hspans chunk hlarge address hin (Chunk.spans_of_covers hcovers)

theorem Stores.keepsPayloads (arranged : Arranged image state layout)
    {block : Chunk} (hblock : block ∈ layout.blocks)
    (hfits : Fits size block) {next : Nat}
    (stores : Stores image state after
      (allocateWords (state.view image) block size next)) :
    KeepsPayloads image layout state after := by
  intro chunk hholds address hlow hhigh
  rw [stores.view]
  apply allocateWords_of_not_covers hfits.2
  intro hcovers
  have hne : chunk.address ≠ block.address := by
    intro heq
    rcases hholds with ⟨hchunk, htaken⟩ | hlarge
    · rw [arranged.tiling.eq_of_address hchunk hblock heq, hfits.1] at htaken
      cases htaken
    · apply arranged.toPaged.not_spans hblock block.covers_address hlarge
      rw [← heq]
      exact Chunk.spans_of_covers chunk.covers_address
  exact arranged.toPaged.apart_of_ne hholds.mem (.inl hblock) hne address
    (Chunk.covers_of_payload hlow hhigh) hcovers

theorem Layout.Holds.append {blocks : List Chunk}
    (hholds : layout.Holds chunk) :
    ({ layout with blocks := layout.blocks ++ blocks } : Layout).Holds
      chunk := by
  rcases hholds with ⟨hblock, hfree⟩ | hlarge
  · exact .inl ⟨List.mem_append_left _ hblock, hfree⟩
  · exact .inr hlarge

theorem Arranged.keepsPayloads_new {page result : Nat}
    (arranged : Arranged image state
      { layout with blocks := layout.blocks ++ [newChunk page] })
    (hsize : size ≤ pageSize - sizeofBlock) (haligned : size % 8 = 0)
    (hrun : (allocateFromBlock image (pageAddress page) size).run state =
      .ok (result, after)) :
    KeepsPayloads image layout state after := by
  have hfits : Fits size (newChunk page) := ⟨rfl, hsize⟩
  obtain ⟨other, hother, _, stores⟩ := arranged.allocate rfl hfits haligned
  rw [show (newChunk page).address = pageAddress page from rfl, hrun]
    at hother
  injection hother with heq
  injection heq with _ heq
  subst heq
  intro chunk hholds
  exact stores.keepsPayloads arranged (List.mem_append_right _
    (List.mem_singleton_self _)) hfits chunk hholds.append

theorem extendHeap_keepsPayloads (arranged : Arranged image state layout)
    (hsize : size ≤ pageSize - sizeofBlock) (haligned : size % 8 = 0)
    {result : Nat} (hrun : (extendHeap image (lastPointer 0 layout.blocks)
      size).run state = .ok (result, after)) :
    KeepsPayloads image layout state after := by
  obtain ⟨block, middle, hcreate, hsound, hfirst, hresult⟩ :=
    run_createBlock arranged.sound
  unfold extendHeap at hrun
  rw [run_bind_ok hcreate] at hrun
  rcases hresult with ⟨rfl, same⟩ | ⟨page, rfl, hcreated, new⟩
  · rw [if_pos rfl] at hrun
    cases hrun
    exact fun chunk _ => keepsPayload_of_eq same.words
  have unlinked := arranged.unlinked hsound hfirst hcreated new
  have created := new.keepsPayloads arranged
  rw [if_neg (pageAddress_ne_zero page)] at hrun
  rcases layout.blocks.eq_nil_or_concat' with hempty | ⟨before, last, hblocks⟩
  · have hlast : lastPointer 0 layout.blocks = 0 := by
      rw [hempty]
      rfl
    rw [if_pos hlast, run_write_bind] at hrun
    have linked := unlinked.linkFirst hempty
    intro chunk hholds
    exact (created chunk hholds).trans
      (linked.keepsPayloads_new hsize haligned hrun chunk hholds)
  · have hheader : Header (state.view image) last 0 := by
      have headers := arranged.headers
      rw [hblocks] at headers
      exact (headers_append.mp headers).2.1
    have hlast : lastPointer 0 layout.blocks = last.address := by
      rw [hblocks, lastPointer_concat]
    obtain ⟨linked, hlink, linkedArranged, stores⟩ :=
      unlinked.linkLast arranged hblocks
    rw [hlast, if_neg hheader.address_ne_zero, run_bind_ok hlink] at hrun
    intro chunk hholds
    have linking : KeepsPayload image chunk middle linked := by
      intro address hlow hhigh
      rw [stores.view]
      apply View.setWord_of_ne
      rintro rfl
      exact arranged.toPaged.not_headerWord hholds hlow hhigh
        (.inl (by simp [hblocks])) (.inr (.inr rfl))
    exact ((created chunk hholds).trans linking).trans
      (linkedArranged.keepsPayloads_new hsize haligned hrun chunk hholds)

theorem allocateSmall_keepsPayloads (arranged : Arranged image state layout)
    (hsize : size ≤ pageSize - sizeofBlock) (haligned : size % 8 = 0)
    {budget result : Nat}
    (hrun : (allocateSmall image budget size).run state =
      .ok (result, after)) :
    KeepsPayloads image layout state after := by
  rcases firstFit_cases size 0 layout.blocks with
    ⟨_, hnone⟩ | ⟨before, block, rest, hblocks, _, hfits, hbefore⟩
  · obtain ⟨other, heap, _, hextend, _⟩ :=
      run_extendHeap arranged hsize haligned
    have heq := (arranged.serveNew hnone hextend).unique hrun
    injection heq with _ heq
    subst heq
    exact extendHeap_keepsPayloads arranged hsize haligned hextend
  · obtain ⟨heap, hreturns, _, stores⟩ :=
      arranged.serve hblocks hbefore hfits haligned
    have heq := hreturns.unique hrun
    injection heq with _ heq
    subst heq
    exact stores.keepsPayloads arranged (by simp [hblocks]) hfits

/-- `kmalloc` stores to headers only, and to those of free blocks. -/
theorem kmalloc_keepsPayloads (arranged : Arranged image state layout)
    {budget result : Nat}
    (hrun : (kmalloc image budget size).run state = .ok (result, after)) :
    KeepsPayloads image layout state after := by
  have haligned := alignSize_aligned size
  by_cases hsmall : size ≠ 0 ∧ alignSize size ≤ pageSize - sizeofBlock
  · rw [kmalloc_eq_allocateSmall hsmall.1 hsmall.2] at hrun
    exact allocateSmall_keepsPayloads arranged hsmall.2 haligned hrun
  unfold kmalloc at hrun
  split at hrun
  · cases hrun
    exact fun chunk _ => keepsPayload_of_eq rfl
  rename_i hne
  split at hrun
  · cases hrun
    exact fun chunk _ => keepsPayload_of_eq rfl
  rename_i hguard
  rw [if_pos (Nat.lt_of_not_le fun hle => hsmall ⟨hne, hle⟩)] at hrun
  have hbound : alignSize size + sizeofBlock < 2 ^ 64 := by
    unfold sizeofBlock at *
    omega
  obtain ⟨other, heap, hlarge, _, _, hresult⟩ :=
    run_allocateLarge arranged.sound hbound
  rw [hlarge] at hrun
  cases hrun
  rcases hresult with ⟨_, same⟩ | ⟨first, _, _, new⟩
  · exact fun chunk _ => keepsPayload_of_eq same.words
  · exact new.keepsPayloads arranged

/-! `kfree`. -/

variable {block : Chunk}

theorem freeSmall_keepsPayload (arranged : Arranged image state layout)
    (hblock : block ∈ layout.blocks) (hholds : layout.Holds chunk)
    {budget : Nat}
    (hrun : (freeSmall image budget block.address).run state =
      .ok ((), after)) :
    KeepsPayload image chunk state after := by
  obtain ⟨before, behind, hblocks⟩ := List.append_of_mem hblock
  obtain ⟨heap, hreturns, _, _, hframe⟩ := arranged.freeSmall hblocks
  have heq := hreturns.unique hrun
  injection heq with _ heq
  subst heq
  intro address hlow hhigh
  have hout : ∀ other ∈ before ++ [block], ¬ HeaderWord other address := by
    intro other hother
    apply arranged.toPaged.not_headerWord hholds hlow hhigh
    rw [List.mem_append, List.mem_singleton] at hother
    rw [hblocks, List.mem_append, List.mem_cons]
    exact .inl (hother.imp_right .inl)
  rw [hframe address fun other hother h =>
    hout other hother (h.imp_right .inr)]
  apply View.setFlag_of_ne
  exact fun h => hout block (by simp) (.inr (.inl h))

theorem freeLarge_keepsPayload (arranged : Arranged image state layout)
    (hlarge : block ∈ layout.larges) (hholds : layout.Holds chunk)
    (hne : chunk.address ≠ block.address)
    (hrun : (freeLarge image block.address).run state = .ok ((), after)) :
    KeepsPayload image chunk state after := by
  have paged := arranged.toPaged
  have large := paged.large block hlarge
  rcases run_freeLarge arranged.sound large.header large.finish_lt with
    ⟨_, hfree⟩ | ⟨page, memory, freeable, hfree, _, bits⟩
  · rw [hfree] at hrun
    cases hrun
    exact keepsPayload_of_eq rfl
  · rw [hfree] at hrun
    cases hrun
    intro address hlow hhigh
    apply view_of_bits bits
    intro hin
    have hcovers := Chunk.covers_of_payload hlow hhigh
    have hspans : block.Spans address := by
      unfold Chunk.Spans
      rw [freeable.1]
      exact hin
    rcases hholds.mem with hblock | hother
    · exact paged.not_spans hblock hcovers hlarge hspans
    · refine paged.apart.forall hother hlarge ?_ address
        (Chunk.spans_of_covers hcovers) hspans
      rintro rfl
      exact hne rfl

theorem kfree_keepsPayloads {run : HeapRun} (keeps : run.Keeps image layout)
    {pointer : Nat} (hlive : pointer ∈ run.live)
    (safely : FreesSafely image run (.kfree pointer)) {budget : Nat}
    (hrun : (kfree image budget pointer).run run.heap = .ok ((), after)) :
    ∀ chunk, layout.Holds chunk → chunk.payload ≠ pointer →
      KeepsPayload image chunk run.heap after := by
  obtain ⟨block, hblock, rfl⟩ := keeps.held pointer hlive
  intro chunk hholds hne
  have haddress : chunk.address ≠ block.address := by
    unfold Chunk.payload at hne
    omega
  unfold kfree at hrun
  rw [if_neg block.payload_ne_zero] at hrun
  simp only [Chunk.payload_sub] at hrun
  rcases hblock with ⟨hmem, _⟩ | hlarge
  · obtain ⟨large, hload, hfinds⟩ :=
      run_loadLarge_block keeps.arranged hmem
    rw [run_bind_ok hload] at hrun
    cases large with
    | false =>
        rw [if_neg Bool.false_ne_true] at hrun
        exact freeSmall_keepsPayload keeps.arranged hmem hholds hrun
    | true =>
        -- a block inside a page is not freed at all
        have hset := hfinds.mpr rfl
        have hpage := safely block.payload rfl (by
          rw [Chunk.payload_sub]
          exact keeps.listed.mpr ⟨block, hmem, rfl⟩) hset
        rw [Chunk.payload_sub] at hpage
        obtain ⟨heap, hfree, hsame⟩ := kfree_set keeps.arranged hmem hset
        have hcall := hfree budget
        unfold kfree at hcall
        rw [if_neg block.payload_ne_zero] at hcall
        simp only [Chunk.payload_sub] at hcall
        rw [run_bind_ok hload, hrun, hsame hpage] at hcall
        cases hcall
        exact keepsPayload_of_eq rfl
  · obtain ⟨flags, hflags, hset⟩ := (keeps.arranged.large block hlarge).flag
    have hload := run_loadLarge hflags
    rw [hset] at hload
    rw [run_bind_ok hload, if_pos rfl] at hrun
    exact freeLarge_keepsPayload keeps.arranged hlarge hholds haddress hrun

/-- A step of the heap leaves the words of the allocations that stay, but for
the one that a client stores to. -/
theorem HeapStep.keepsWord {before next : HeapRun} {event : HeapEvent}
    (keeps : before.Keeps image layout)
    (step : HeapStep image before event next)
    (safely : FreesSafely image before event) {pointer place : Nat}
    (hbefore : pointer ∈ before.live) (hnext : pointer ∈ next.live)
    (hinside : InPayload image before.heap pointer place)
    (apart : ∀ address byte, event = .store address byte →
      address - address % 8 ≠ place) :
    next.heap.view image place = before.heap.view image place := by
  obtain ⟨chunk, hholds, rfl⟩ := keeps.held pointer hbefore
  have hhigh := hinside.2
  rw [(keeps.recordedSize hholds).2] at hhigh
  cases step with
  | kmalloc h =>
      exact kmalloc_keepsPayloads keeps.arranged h chunk hholds place
        hinside.1 hhigh
  | kfree hlive h =>
      refine kfree_keepsPayloads keeps hlive safely h chunk hholds ?_ place
        hinside.1 hhigh
      rintro rfl
      exact keeps.nodup.not_mem_erase hnext
  | store hlive hplace h =>
      rename_i other address byte
      obtain ⟨stored, hstored, rfl⟩ := keeps.held other hlive
      have hend := hplace.2
      rw [(keeps.recordedSize hstored).2] at hend
      obtain ⟨_, _, hrun, _, _, stores⟩ :=
        keeps.arranged.storePayload hstored hplace.1 hend byte
      cases hrun.symm.trans h
      rw [stores.view]
      exact Function.update_of_ne (apart address byte rfl).symm ..

end

end Planetoid.Memory
