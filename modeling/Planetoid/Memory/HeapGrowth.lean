import Planetoid.Memory.HeapLayout

namespace Planetoid.Memory

open Planetoid Program VirtualMemory KernelHeapAllocator

/-! What `kmalloc` does to the layout. -/

section

variable {platform : Platform} {image : KernelImage platform}
  {state after : HeapState} {layout : Layout} {chunk : Chunk}
  {before rest : List Chunk} {size : Nat}

def allocated (chunk : Chunk) (size : Nat) : Chunk :=
  if chunk.size ≥ size + sizeofBlock + 8 then ⟨chunk.address, size, false⟩
  else { chunk with free := false }

theorem allocated_payload (chunk : Chunk) (size : Nat) :
    (allocated chunk size).payload = chunk.payload := by
  unfold allocated
  split <;> rfl

theorem size_allocated (h : size ≤ chunk.size) :
    size ≤ (allocated chunk size).size := by
  unfold allocated
  split
  · exact Nat.le_refl size
  · exact h

theorem taken_place {other : Chunk} :
    other ∈ place chunk size ∧ other.free = false ↔
      other = allocated chunk size := by
  unfold place allocated
  split
  · simp only [List.mem_cons, List.not_mem_nil, or_false]
    constructor
    · rintro ⟨rfl | rfl, hfree⟩
      · rfl
      · cases hfree
    · rintro rfl
      exact ⟨.inl rfl, rfl⟩
  · rw [List.mem_singleton]
    constructor
    · exact fun h => h.1
    · rintro rfl
      exact ⟨rfl, rfl⟩

theorem takes_place (paged : Paged image state layout)
    (hblocks : layout.blocks = before ++ chunk :: rest)
    (hfits : Fits size chunk) :
    Takes layout { layout with blocks := before ++ place chunk size ++ rest }
      chunk.payload size := by
  have hmem : chunk ∈ layout.blocks := by
    rw [hblocks]
    simp
  refine ⟨⟨allocated chunk size, allocated_payload chunk size,
    size_allocated hfits.2, ?_⟩, ?_⟩
  · intro other
    unfold Layout.Holds
    rw [← @taken_place chunk size other]
    simp only [hblocks, List.mem_append, List.mem_cons]
    have hchunk : other = chunk → other.free = true := by
      rintro rfl
      exact hfits.1
    cases hfree : other.free with
    | false =>
        have hne : other ≠ chunk := by
          intro h
          rw [hchunk h] at hfree
          cases hfree
        simp only [hne, and_true, false_or]
        tauto
    | true => simp
  · intro other hholds heq
    have haddress := Chunk.payload_inj heq
    rcases hholds with ⟨hother, hfree⟩ | hlarge
    · rw [paged.tiling.eq_of_address hother hmem haddress, hfits.1] at hfree
      cases hfree
    · apply paged.not_spans hmem chunk.covers_address hlarge
      rw [← haddress]
      exact Chunk.spans_of_covers other.covers_address

theorem headPointer_place (chunk : Chunk) (size : Nat)
    (before rest : List Chunk) (last : Nat) :
    headPointer (before ++ place chunk size ++ rest) last =
      headPointer (before ++ chunk :: rest) last := by
  have hplace : headPointer (place chunk size) (headPointer rest last) =
      chunk.address := by
    unfold place
    split <;> rfl
  rw [List.append_assoc, headPointer_append, headPointer_append, hplace,
    headPointer_append]
  rfl

theorem Arranged.allocate (arranged : Arranged image state layout)
    (hblocks : layout.blocks = before ++ chunk :: rest)
    (hfits : Fits size chunk) (haligned : size % 8 = 0) :
    ∃ after, (allocateFromBlock image chunk.address size).run state =
        .ok (chunk.payload, after) ∧
      Arranged image after
        { layout with blocks := before ++ place chunk size ++ rest } ∧
      Stores image state after (allocateWords (state.view image) chunk size
        (headPointer rest 0)) := by
  have hmem : chunk ∈ layout.blocks := by
    rw [hblocks]
    simp
  have headers := arranged.headers
  have tiling := arranged.tiling
  rw [hblocks] at headers tiling
  have backed := arranged.toPaged.backed hmem
  obtain ⟨after, hrun, stores⟩ := run_allocateFromBlock arranged.sound
    headers.header backed hfits haligned
  have hheaders := headers_allocate tiling arranged.toPaged.inPool headers
    backed hfits.2 haligned
  refine ⟨after, hrun, ⟨arranged.toPaged.stores stores (tiling.place haligned)
    ?_, ?_, ?_⟩, stores⟩
  · intro large hlarge address hword
    apply allocateWords_of_not_covers hfits.2
    intro hcovers
    exact arranged.toPaged.not_spans hmem hcovers hlarge
      (Chunk.spans_of_covers (Chunk.covers_of_headerWord hword))
  · rw [stores.firstBlock, arranged.first, hblocks, headPointer_place]
  · rw [stores.view]
    exact hheaders

end

/-! New pages. -/

section

variable {platform : Platform} {image : KernelImage platform}
  {state after : HeapState} {layout : Layout} {chunk : Chunk}
  {first count size : Nat} {free large : Bool}

theorem NewRun.outside (new : NewRun image state after first count size free
      large) {page place : Nat}
    (hused : state.memory.virtualBitmap.test page = true)
    (hlow : pageAddress page ≤ place)
    (hhigh : place < pageAddress page + pageSize) :
    ¬ InRun first count place := by
  intro hin
  have hpages : first ≤ page ∧ page < first + count := by
    unfold InRun pageAddress pageSize at *
    omega
  have hfree := new.unused.2 page hpages.1 hpages.2
  rw [hused] at hfree
  cases hfree

theorem NewRun.test (new : NewRun image state after first count size free
      large) (page : Nat) :
    after.memory.virtualBitmap.test page = true ↔
      state.memory.virtualBitmap.test page = true ∨
        InRun first count (pageAddress page) := by
  have hin : InRun first count (pageAddress page) ↔
      first ≤ page ∧ page < first + count := by
    unfold InRun pageAddress pageSize
    omega
  rw [new.bits.bit page, hin]
  split
  · simp [*]
  · simp [*]

theorem Paged.kept (paged : Paged image state layout)
    (new : NewRun image state after first count size free large) :
    (∀ other ∈ layout.larges, Large (after.view image) other) ∧
      (∀ other ∈ layout.larges, ∀ place, InRun first count place →
        ¬ other.Spans place) ∧
      ∀ page ∈ state.created, ¬ InRun first count page := by
  have hspans : ∀ other ∈ layout.larges, ∀ place, InRun first count place →
      ¬ other.Spans place := by
    intro other hmem place hin hspans
    obtain ⟨page, hpage, hother, hlow, hhigh⟩ :=
      paged.page_of_spans hmem hspans
    exact new.outside ((paged.used page hpage).mpr (.inr ⟨other, hmem,
      hother⟩)) hlow hhigh hin
  refine ⟨?_, hspans, ?_⟩
  · intro other hmem
    apply (paged.large other hmem).congr
    intro address hword
    apply new.words
    exact fun hin => hspans other hmem address hin
      (Chunk.spans_of_covers (Chunk.covers_of_headerWord hword))
  · intro address hmem
    obtain ⟨page, hpage, rfl⟩ := paged.created address hmem
    apply new.outside ((paged.used page hpage).mpr (.inl hmem))
      (Nat.le_refl _)
    unfold pageSize
    omega

def newChunk (page : Nat) : Chunk :=
  ⟨pageAddress page, pageSize - sizeofBlock, true⟩

theorem Paged.extend (paged : Paged image state layout) {page : Nat}
    (hsound : Sound image after.memory none)
    (hcreated : after.created = pageAddress page :: state.created)
    (new : NewRun image state after page 1 (pageSize - sizeofBlock) true
      false) :
    Paged image after
      { layout with blocks := layout.blocks ++ [newChunk page] } := by
  obtain ⟨hlarge, hspans, hpages⟩ := paged.kept new
  have hself : InRun page 1 (pageAddress page) := by
    unfold InRun pageSize
    omega
  have hbound : page < virtualPageCount := new.unused.1
  refine ⟨hsound, ?_, ?_, hlarge, paged.apart, ?_, ?_⟩
  · rw [hcreated]
    apply paged.tiling.extend
    · have haligned := pageAddress_mod page
      unfold pageSize at haligned
      omega
    · intro address hmem
      have hout := hpages address hmem
      obtain ⟨other, _, rfl⟩ := paged.created address hmem
      unfold InRun pageAddress pageSize at hout
      unfold pageAddress pageSize
      omega
  · intro address hmem
    rw [hcreated] at hmem
    rcases List.mem_cons.mp hmem with rfl | hold
    · exact ⟨page, hbound, rfl⟩
    · exact paged.created address hold
  · intro other hmem address haddress
    rw [hcreated] at haddress
    rcases List.mem_cons.mp haddress with rfl | hold
    · exact hspans other hmem _ hself
    · exact paged.separate other hmem address hold
  · intro other hother
    have hin : InRun page 1 (pageAddress other) ↔
        pageAddress other = pageAddress page := by
      unfold InRun pageAddress pageSize
      omega
    rw [new.test, paged.used other hother, hcreated, hin, List.mem_cons]
    exact or_comm.trans or_assoc.symm

theorem Paged.enlarge (paged : Paged image state layout)
    (hsound : Sound image after.memory none)
    (hcreated : after.created = state.created) (haligned : size % 8 = 0)
    (new : NewRun image state after first (pagesFor size) size false true) :
    Paged image after { layout with
      larges := ⟨pageAddress first, size, false⟩ :: layout.larges } := by
  obtain ⟨hlarge, hspans, hpages⟩ := paged.kept new
  have hsame : ∀ place,
      (⟨pageAddress first, size, false⟩ : Chunk).Spans place ↔
        InRun first (pagesFor size) place := fun _ => Iff.rfl
  refine ⟨hsound, ?_, ?_, ?_, ?_, ?_, ?_⟩
  · rw [hcreated]
    exact paged.tiling
  · rw [hcreated]
    exact paged.created
  · intro other hmem
    rcases List.mem_cons.mp hmem with rfl | hold
    · exact ⟨new.header, rfl, new.flag, haligned, first, rfl, new.unused.1⟩
    · exact hlarge other hold
  · refine List.pairwise_cons.mpr ⟨?_, paged.apart⟩
    intro other hmem place hin
    exact hspans other hmem place ((hsame place).mp hin)
  · intro other hmem address haddress
    rw [hcreated] at haddress
    rcases List.mem_cons.mp hmem with rfl | hold
    · rw [hsame]
      exact hpages address haddress
    · exact paged.separate other hold address haddress
  · intro page hpage
    rw [new.test, paged.used page hpage, hcreated]
    simp only [List.mem_cons, exists_eq_or_imp, hsame]
    exact or_assoc.trans (or_congr_right or_comm)

theorem Arranged.samePages (arranged : Arranged image state layout)
    (hsound : Sound image after.memory none)
    (hfirst : after.firstBlock = state.firstBlock)
    (same : SamePages image state after) : Arranged image after layout := by
  obtain ⟨⟨start, bits⟩, hcreated, hwords⟩ := same
  refine ⟨⟨hsound, ?_, ?_, ?_, arranged.apart, ?_, ?_⟩, ?_, ?_⟩
  · rw [hcreated]
    exact arranged.tiling
  · rw [hcreated]
    exact arranged.created
  · rw [hwords]
    exact arranged.large
  · rw [hcreated]
    exact arranged.separate
  · intro page hpage
    rw [bits.outside (by omega), hcreated]
    exact arranged.used page hpage
  · rw [hfirst]
    exact arranged.first
  · rw [hwords]
    exact arranged.headers

end

end Planetoid.Memory
