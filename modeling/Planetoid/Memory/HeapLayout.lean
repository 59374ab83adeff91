import Mathlib.Data.List.Pairwise
import Planetoid.Memory.HeapPages

namespace Planetoid.Memory

open Planetoid Program VirtualMemory KernelHeapAllocator

/-! The blocks of the list and the large allocations together. -/

structure Layout where
  blocks : List Chunk
  larges : List Chunk

def Chunk.Spans (chunk : Chunk) (place : Nat) : Prop :=
  chunk.address ≤ place ∧
    place < chunk.address + pagesFor chunk.size * pageSize

def Chunk.PagesApart (first second : Chunk) : Prop :=
  ∀ place, first.Spans place → ¬ second.Spans place

instance : Std.Symm Chunk.Apart := ⟨fun _ _ h => h.symm⟩

instance : Std.Symm Chunk.PagesApart :=
  ⟨fun _ _ h place hsecond hfirst => h place hfirst hsecond⟩

theorem Chunk.spans_of_covers {chunk : Chunk} {place : Nat}
    (h : chunk.Covers place) : chunk.Spans place := by
  have hpages := (pagesFor_spec chunk.size).1
  unfold Chunk.Covers Chunk.finish at h
  unfold Chunk.Spans
  omega

structure Large (words : View) (chunk : Chunk) : Prop where
  header : Header words chunk 0
  taken : chunk.free = false
  flag : ∃ flags, words (chunk.address + 8) = some flags ∧
    (byteOf flags 1 != 0) = true
  aligned : chunk.size % 8 = 0
  pages : ∃ first, chunk.address = pageAddress first ∧
    first + pagesFor chunk.size ≤ virtualPageCount

section

variable {words words' : View} {chunk : Chunk} {place : Nat}

theorem Large.congr (large : Large words chunk)
    (h : ∀ address, HeaderWord chunk address →
      words' address = words address) : Large words' chunk where
  header := large.header.congr h
  taken := large.taken
  flag := by
    rw [h _ (.inr (.inl rfl))]
    exact large.flag
  aligned := large.aligned
  pages := large.pages

theorem Large.page_aligned (large : Large words chunk) :
    chunk.address % pageSize = 0 := by
  obtain ⟨first, hfirst, _⟩ := large.pages
  rw [hfirst]
  exact pageAddress_mod first

theorem Large.finish_lt (large : Large words chunk) :
    chunk.finish < 2 ^ 64 := by
  obtain ⟨first, hfirst, hbound⟩ := large.pages
  have hpages := (pagesFor_spec chunk.size).1
  rw [virtualPageCount_eq] at hbound
  unfold pageAddress virtualMemoryStart pageSize at *
  unfold Chunk.finish
  omega

theorem Large.spans_page (large : Large words chunk) {page : Nat}
    (haligned : page % pageSize = 0) (h : chunk.Spans place)
    (hlow : page ≤ place) (hhigh : place < page + pageSize) :
    chunk.Spans page := by
  have haddress := large.page_aligned
  unfold Chunk.Spans pageSize at *
  omega

end

theorem pageOf_eq {page address : Nat} (hlow : pageAddress page ≤ address)
    (hhigh : address < pageAddress page + pageSize) :
    pageOf address = page := by
  unfold pageAddress virtualMemoryStart at hlow hhigh
  unfold pageOf virtualMemoryStart pageSize at *
  omega

theorem pageAddress_injective {page other : Nat}
    (h : pageAddress page = pageAddress other) : page = other := by
  unfold pageAddress pageSize at h
  omega

section

variable {platform : Platform} (image : KernelImage platform)

structure Paged (state : HeapState) (layout : Layout) : Prop where
  sound : Sound image state.memory none
  tiling : Tiling state.created layout.blocks
  created : ∀ address ∈ state.created,
    ∃ page, page < virtualPageCount ∧ address = pageAddress page
  large : ∀ chunk ∈ layout.larges, Large (state.view image) chunk
  apart : layout.larges.Pairwise Chunk.PagesApart
  separate : ∀ chunk ∈ layout.larges, ∀ page ∈ state.created,
    ¬ chunk.Spans page
  used : ∀ page, page < virtualPageCount →
    (state.memory.virtualBitmap.test page = true ↔
      pageAddress page ∈ state.created ∨
        ∃ chunk ∈ layout.larges, chunk.Spans (pageAddress page))

/-- The heap between two calls. -/
structure Arranged (state : HeapState) (layout : Layout) : Prop
    extends Paged image state layout where
  first : state.firstBlock = headPointer layout.blocks 0
  headers : Headers (state.view image) layout.blocks 0

end

section

variable {platform : Platform} {image : KernelImage platform}
  {state after : HeapState} {layout : Layout} {chunk : Chunk} {place : Nat}

theorem Paged.inPool (paged : Paged image state layout) :
    InPool state.created := by
  intro address hmem
  obtain ⟨page, hpage, rfl⟩ := paged.created address hmem
  rw [virtualPageCount_eq] at hpage
  unfold pageAddress virtualMemoryStart virtualMemoryEnd pageSize
  omega

theorem Paged.page_of_covers (paged : Paged image state layout)
    (hmem : chunk ∈ layout.blocks) (h : chunk.Covers place) :
    ∃ page, page < virtualPageCount ∧ pageAddress page ∈ state.created ∧
      pageAddress page ≤ place ∧ place < pageAddress page + pageSize := by
  obtain ⟨address, haddress, hlow, hhigh⟩ :=
    paged.tiling.inside chunk hmem place h
  obtain ⟨page, hpage, rfl⟩ := paged.created address haddress
  exact ⟨page, hpage, haddress, hlow, hhigh⟩

theorem Paged.not_spans (paged : Paged image state layout) {block : Chunk}
    (hblock : block ∈ layout.blocks) (hcovers : block.Covers place)
    (hlarge : chunk ∈ layout.larges) : ¬ chunk.Spans place := by
  intro hspans
  obtain ⟨page, _, hcreated, hlow, hhigh⟩ :=
    paged.page_of_covers hblock hcovers
  exact paged.separate chunk hlarge _ hcreated ((paged.large chunk
    hlarge).spans_page (pageAddress_mod page) hspans hlow hhigh)

theorem Paged.page_of_spans (paged : Paged image state layout)
    (hmem : chunk ∈ layout.larges) (h : chunk.Spans place) :
    ∃ page, page < virtualPageCount ∧ chunk.Spans (pageAddress page) ∧
      pageAddress page ≤ place ∧ place < pageAddress page + pageSize := by
  obtain ⟨first, hfirst, hbound⟩ := (paged.large chunk hmem).pages
  unfold Chunk.Spans at h ⊢
  rw [hfirst] at h ⊢
  refine ⟨first + (place - pageAddress first) / pageSize, ?_, ?_, ?_, ?_⟩
  · unfold pageSize at *
    omega
  · rw [← pageAddress_add]
    unfold pageSize at *
    omega
  · rw [← pageAddress_add]
    unfold pageSize at *
    omega
  · rw [← pageAddress_add]
    unfold pageSize at *
    omega

theorem Paged.word_of_used (paged : Paged image state layout) {page : Nat}
    (hpage : page < virtualPageCount)
    (hused : state.memory.virtualBitmap.test page = true)
    (hlow : pageAddress page ≤ place) (hhigh : place < pageAddress page +
      pageSize) (haligned : place % 8 = 0) :
    ∃ word, state.view image place = some word := by
  apply @view_of_used _ _ _ paged.sound page 1 hpage
  · intro other hfirst hlast
    obtain rfl : other = page := by omega
    exact hused
  · unfold InRun
    omega
  · exact haligned

theorem Paged.backed (paged : Paged image state layout)
    (hmem : chunk ∈ layout.blocks) : Backed (state.view image) chunk := by
  intro address hcovers haligned
  obtain ⟨page, hpage, hcreated, hlow, hhigh⟩ :=
    paged.page_of_covers hmem hcovers
  exact paged.word_of_used hpage ((paged.used page hpage).mpr (.inl hcreated))
    hlow hhigh haligned

theorem Paged.backed_large (paged : Paged image state layout)
    (hmem : chunk ∈ layout.larges) : Backed (state.view image) chunk := by
  intro address hcovers haligned
  obtain ⟨page, hpage, hspans, hlow, hhigh⟩ :=
    paged.page_of_spans hmem (Chunk.spans_of_covers hcovers)
  exact paged.word_of_used hpage
    ((paged.used page hpage).mpr (.inr ⟨chunk, hmem, hspans⟩)) hlow hhigh
    haligned

theorem Paged.stores (paged : Paged image state layout) {words : View}
    (stores : Stores image state after words) {blocks : List Chunk}
    (tiling : Tiling state.created blocks)
    (frame : ∀ chunk ∈ layout.larges, ∀ address, HeaderWord chunk address →
      words address = state.view image address) :
    Paged image after { layout with blocks := blocks } where
  sound := stores.sound paged.sound
  tiling := by
    rw [stores.created]
    exact tiling
  created := by
    rw [stores.created]
    exact paged.created
  large := by
    intro chunk hmem
    rw [stores.view]
    exact (paged.large chunk hmem).congr (frame chunk hmem)
  apart := paged.apart
  separate := by
    rw [stores.created]
    exact paged.separate
  used := by
    rw [stores.created, stores.memory]
    exact paged.used

end

/-! The allocations of a layout. -/

/-- A block of the list that is taken, or a large allocation. -/
def Layout.Holds (layout : Layout) (chunk : Chunk) : Prop :=
  chunk ∈ layout.blocks ∧ chunk.free = false ∨ chunk ∈ layout.larges

structure Takes (before after : Layout) (pointer size : Nat) : Prop where
  added : ∃ chunk : Chunk, chunk.payload = pointer ∧ size ≤ chunk.size ∧
    ∀ other, after.Holds other ↔ before.Holds other ∨ other = chunk
  fresh : ∀ other, before.Holds other → other.payload ≠ pointer

def GivesBack (before after : Layout) (pointer : Nat) : Prop :=
  ∀ other, after.Holds other ↔ before.Holds other ∧ other.payload ≠ pointer

theorem Chunk.payload_inj {first second : Chunk}
    (h : first.payload = second.payload) : first.address = second.address :=
  Nat.add_right_cancel h

section

variable {platform : Platform} {image : KernelImage platform}
  {state after : HeapState} {layout : Layout} {chunk other : Chunk}

theorem Tiling.apart_of_mem {pages : List Nat} {blocks : List Chunk}
    (tiling : Tiling pages blocks) (hchunk : chunk ∈ blocks)
    (hother : other ∈ blocks) (hne : chunk.address ≠ other.address) :
    chunk.Apart other := by
  apply tiling.apart.forall hchunk hother
  rintro rfl
  exact hne rfl

theorem Tiling.eq_of_address {pages : List Nat} {blocks : List Chunk}
    (tiling : Tiling pages blocks) (hchunk : chunk ∈ blocks)
    (hother : other ∈ blocks) (h : chunk.address = other.address) :
    chunk = other := by
  by_contra hne
  exact (tiling.apart.forall hchunk hother hne).address_ne h

theorem Paged.apart_of_ne (paged : Paged image state layout)
    (hchunk : chunk ∈ layout.blocks ∨ chunk ∈ layout.larges)
    (hother : other ∈ layout.blocks ∨ other ∈ layout.larges)
    (hne : chunk.address ≠ other.address) : chunk.Apart other := by
  intro place hfirst hsecond
  rcases hchunk with hchunk | hchunk <;> rcases hother with hother | hother
  · exact paged.tiling.apart_of_mem hchunk hother hne place hfirst hsecond
  · exact paged.not_spans hchunk hfirst hother (Chunk.spans_of_covers hsecond)
  · exact paged.not_spans hother hsecond hchunk (Chunk.spans_of_covers hfirst)
  · refine paged.apart.forall hchunk hother ?_ place
      (Chunk.spans_of_covers hfirst) (Chunk.spans_of_covers hsecond)
    rintro rfl
    exact hne rfl

theorem Layout.Holds.mem (h : layout.Holds chunk) :
    chunk ∈ layout.blocks ∨ chunk ∈ layout.larges :=
  h.imp_left And.left

end

end Planetoid.Memory
