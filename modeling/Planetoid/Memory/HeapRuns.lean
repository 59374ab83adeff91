import Mathlib.Algebra.Order.BigOperators.Group.Finset
import Mathlib.Order.Interval.Finset.Nat
import Planetoid.Base.Runs
import Planetoid.Memory.HeapFreeing
import Planetoid.Memory.InitialPool

namespace Planetoid.Memory

open Planetoid Program VirtualMemory KernelHeapAllocator

/-! The runs of the heap and the list of blocks in their states. -/

section

variable {platform : Platform} (image : KernelImage platform)

def initHeap : HeapProgram Unit := do
  callVm (initMemory image)
  KernelHeapAllocator.init image

def bootHeap (memory : MemoryState) (ram : Nat → BitVec 64) : HeapState where
  memory := memory
  ram := ram
  firstBlock := 0
  created := []

inductive HeapEvent where
  | kmalloc (size : Nat)
  | kfree (pointer : Nat)
  | store (address : Nat) (byte : BitVec 8)

structure HeapRun where
  heap : HeapState
  live : List Nat

/-- `block->size` in the header before `pointer`. -/
def recordedSize (state : HeapState) (pointer : Nat) : Nat :=
  match (loadSize image (pointer - sizeofBlock)).run state with
  | .ok (size, _) => size
  | .error _ => 0

def InPayload (state : HeapState) (pointer place : Nat) : Prop :=
  pointer ≤ place ∧ place < pointer + recordedSize image state pointer

/-- A call of the allocator, or a store of a client into a live allocation. -/
inductive HeapStep : HeapRun → HeapEvent → HeapRun → Prop
  | kmalloc {before : HeapRun} {heap : HeapState} {budget size result : Nat}
      (h : (kmalloc image budget size).run before.heap = .ok (result, heap)) :
      HeapStep before (.kmalloc size)
        ⟨heap, if result = 0 then before.live else result :: before.live⟩
  | kfree {before : HeapRun} {heap : HeapState} {budget pointer : Nat}
      (hlive : pointer ∈ before.live)
      (h : (kfree image budget pointer).run before.heap = .ok ((), heap)) :
      HeapStep before (.kfree pointer) ⟨heap, before.live.erase pointer⟩
  | store {before : HeapRun} {heap : HeapState} {pointer address : Nat}
      {byte : BitVec 8} (hlive : pointer ∈ before.live)
      (hplace : InPayload image before.heap pointer address)
      (h : (storeByte image address byte).run before.heap = .ok ((), heap)) :
      HeapStep before (.store address byte) ⟨heap, before.live⟩

def heapRuns (start : HeapState) : System HeapRun HeapEvent where
  initial := fun run => run = ⟨start, []⟩
  step := HeapStep image

inductive BlockList (state : HeapState) : Nat → List Chunk → Prop
  | nil : BlockList state 0 []
  | cons {block next size : Nat} {free : Bool} {rest : List Chunk}
      (hblock : block ≠ 0)
      (hsize : (loadSize image block).run state = .ok (size, state))
      (hfree : (loadFree image block).run state = .ok (free, state))
      (hnext : (loadNext image block).run state = .ok (next, state))
      (tail : BlockList state next rest) :
      BlockList state block (⟨block, size, free⟩ :: rest)

inductive Listed (state : HeapState) : Nat → Prop
  | first (h : state.firstBlock ≠ 0) : Listed state state.firstBlock
  | next {block next : Nat} (listed : Listed state block)
      (h : (loadNext image block).run state = .ok (next, state))
      (hnext : next ≠ 0) : Listed state next

/-- The blocks of the list fill the pages that `create_block` obtained. -/
structure TilesPages (state : HeapState) (blocks : List Chunk) : Prop where
  listed : BlockList image state state.firstBlock blocks
  acyclic : (blocks.map Chunk.address).Nodup
  apart : blocks.Pairwise Chunk.Apart
  covered : ∀ place, (∃ chunk ∈ blocks, chunk.Covers place) ↔
    ∃ page ∈ state.created, page ≤ place ∧ place < page + pageSize
  aligned : ∀ chunk ∈ blocks, chunk.size % 8 = 0
  coalesced : Coalesced blocks

def FreesListed (run : HeapRun) (event : HeapEvent) : Prop :=
  ∀ pointer, event = .kfree pointer →
    Listed image run.heap (pointer - sizeofBlock) →
    ¬ FindsLarge image run.heap pointer

/-- No block of the list that begins at a page is freed with `large` set. -/
def FreesSafely (run : HeapRun) (event : HeapEvent) : Prop :=
  ∀ pointer, event = .kfree pointer →
    Listed image run.heap (pointer - sizeofBlock) →
    FindsLarge image run.heap pointer →
    (pointer - sizeofBlock) % pageSize ≠ 0

def CallsReturn (run : HeapRun) : Prop :=
  (∀ size, ∃ budget result, ((kmalloc image budget size).run run.heap) =
    .ok result) ∧
  ∀ pointer ∈ run.live, ∃ budget result,
    ((kfree image budget pointer).run run.heap) = .ok result

end

theorem FreesListed.safely {platform : Platform} {image : KernelImage platform}
    {run : HeapRun} {event : HeapEvent} (h : FreesListed image run event) :
    FreesSafely image run event :=
  fun pointer hevent hlisted hset => absurd hset (h pointer hevent hlisted)

/-! Blocks without overlaps fill what they are as long as. -/

section

variable {blocks : List Chunk} {pages : List Nat}

theorem places_of_apart (apart : blocks.Pairwise Chunk.Apart) :
    ∃ places : Finset Nat,
      (∀ place, place ∈ places ↔ ∃ chunk ∈ blocks, chunk.Covers place) ∧
      places.card = (blocks.map Chunk.extent).sum := by
  induction blocks with
  | nil => exact ⟨∅, by simp, rfl⟩
  | cons first rest ih =>
      rw [List.pairwise_cons] at apart
      obtain ⟨places, hplaces, hcard⟩ := ih apart.2
      have hfirst : ∀ place, place ∈ Finset.Ico first.address first.finish ↔
          first.Covers place := by
        intro place
        rw [Finset.mem_Ico]
        rfl
      have hdisjoint : Disjoint (Finset.Ico first.address first.finish)
          places := by
        rw [Finset.disjoint_left]
        intro place hin hrest
        obtain ⟨other, hother, hcovers⟩ := (hplaces place).mp hrest
        exact apart.1 other hother place ((hfirst place).mp hin) hcovers
      refine ⟨Finset.Ico first.address first.finish ∪ places, ?_, ?_⟩
      · intro place
        rw [Finset.mem_union, hfirst, hplaces]
        simp
      · rw [Finset.card_union_of_disjoint hdisjoint, hcard, Nat.card_Ico,
          List.map_cons, List.sum_cons]
        unfold Chunk.finish Chunk.extent
        omega

theorem places_of_pages (pages : List Nat) :
    ∃ places : Finset Nat,
      (∀ place, place ∈ places ↔
        ∃ page ∈ pages, page ≤ place ∧ place < page + pageSize) ∧
      places.card ≤ pageSize * pages.length := by
  induction pages with
  | nil => exact ⟨∅, by simp, Nat.le_refl _⟩
  | cons first rest ih =>
      obtain ⟨places, hplaces, hcard⟩ := ih
      refine ⟨Finset.Ico first (first + pageSize) ∪ places, ?_, ?_⟩
      · intro place
        rw [Finset.mem_union, hplaces, Finset.mem_Ico]
        simp
      · have hunion := Finset.card_union_le
          (Finset.Ico first (first + pageSize)) places
        rw [Nat.card_Ico] at hunion
        rw [List.length_cons, Nat.mul_succ]
        omega

theorem Tiling.covered (tiling : Tiling pages blocks) (place : Nat) :
    (∃ chunk ∈ blocks, chunk.Covers place) ↔
      ∃ page ∈ pages, page ≤ place ∧ place < page + pageSize := by
  obtain ⟨filled, hfilled, hfilledCard⟩ := places_of_apart tiling.apart
  obtain ⟨paged, hpaged, hpagedCard⟩ := places_of_pages pages
  have hsubset : filled ⊆ paged := by
    intro other hother
    obtain ⟨chunk, hmem, hcovers⟩ := (hfilled other).mp hother
    exact (hpaged other).mpr (tiling.inside chunk hmem other hcovers)
  have heq : filled = paged := by
    apply Finset.eq_of_subset_of_card_le hsubset
    rw [hfilledCard, tiling.total]
    exact hpagedCard
  rw [← hfilled, ← hpaged, heq]

end

section

variable {platform : Platform} {image : KernelImage platform}
  {state : HeapState} {layout : Layout} {blocks : List Chunk}

theorem BlockList.unique {block : Nat} {other : List Chunk}
    (first : BlockList image state block blocks)
    (second : BlockList image state block other) : blocks = other := by
  induction first generalizing other with
  | nil =>
      cases second with
      | nil => rfl
      | cons hblock => exact absurd rfl hblock
  | cons hblock hsize hfree hnext _ ih =>
      cases second with
      | nil => exact absurd rfl hblock
      | cons _ hsize' hfree' hnext' tail =>
          rw [hsize] at hsize'
          rw [hfree] at hfree'
          rw [hnext] at hnext'
          cases hsize'
          cases hfree'
          cases hnext'
          rw [ih tail]

theorem Headers.blockList (headers : Headers (state.view image) blocks 0) :
    BlockList image state (headPointer blocks 0) blocks := by
  induction blocks with
  | nil => exact .nil
  | cons first rest ih =>
      obtain ⟨header, htail⟩ := headers
      exact .cons header.address_ne_zero header.run_loadSize
        header.run_loadFree header.run_loadNext (ih htail)

theorem Headers.listed (headers : Headers (state.view image) blocks 0)
    (hfirst : state.firstBlock = headPointer blocks 0) {block : Nat} :
    Listed image state block ↔ ∃ chunk ∈ blocks, chunk.address = block := by
  constructor
  · intro listed
    induction listed with
    | first hne =>
        rw [hfirst] at hne ⊢
        cases blocks with
        | nil => exact absurd rfl hne
        | cons first rest => exact ⟨first, List.mem_cons_self .., rfl⟩
    | next _ hload hne ih =>
        obtain ⟨chunk, hmem, rfl⟩ := ih
        obtain ⟨before, behind, rfl⟩ := List.append_of_mem hmem
        have hnext := headers.header.run_loadNext
        rw [hload] at hnext
        injection hnext with heq
        injection heq with heq _
        subst heq
        cases behind with
        | nil => exact absurd rfl hne
        | cons first rest => exact ⟨first, by simp, rfl⟩
  · rintro ⟨chunk, hmem, rfl⟩
    obtain ⟨before, behind, rfl⟩ := List.append_of_mem hmem
    induction before using List.reverseRecOn generalizing chunk behind with
    | nil =>
        have hne := headers.header.address_ne_zero
        have hhead : state.firstBlock = chunk.address := hfirst
        rw [← hhead] at hne ⊢
        exact .first hne
    | append_singleton front previous ih =>
        have hlist : front ++ [previous] ++ chunk :: behind =
            front ++ previous :: chunk :: behind := by
          simp
        rw [hlist] at headers hfirst hmem
        have hchunk : Header (state.view image) chunk
            (headPointer behind 0) := by
          rw [← hlist] at headers
          exact headers.header
        exact .next (ih previous (chunk :: behind) headers hfirst (by simp))
          headers.header.run_loadNext hchunk.address_ne_zero

theorem Arranged.tilesPages (arranged : Arranged image state layout)
    (coalesced : Coalesced layout.blocks) :
    TilesPages image state layout.blocks where
  listed := by
    rw [arranged.first]
    exact arranged.headers.blockList
  acyclic := by
    unfold List.Nodup
    rw [List.pairwise_map]
    exact arranged.tiling.apart.imp Chunk.Apart.address_ne
  apart := arranged.tiling.apart
  covered := arranged.tiling.covered
  aligned := fun chunk hmem => (arranged.tiling.aligned chunk hmem).2
  coalesced := coalesced

end

end Planetoid.Memory
