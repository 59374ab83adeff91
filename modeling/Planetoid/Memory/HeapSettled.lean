import Planetoid.Memory.HeapClients
import Planetoid.Memory.HeapFrame

namespace Planetoid.Memory

open Planetoid Program VirtualMemory KernelHeapAllocator

/-! The heap between two calls, with the allocations of its clients. -/

def AllocationsApart (first second : Nat × Nat) : Prop :=
  first.1 ≠ second.1 ∧ ∀ place,
    ¬ ((first.1 ≤ place ∧ place < first.1 + first.2) ∧
      second.1 ≤ place ∧ place < second.1 + second.2)

structure Settled {platform : Platform} (image : KernelImage platform)
    (heap : HeapState) (live : List (Nat × Nat)) (layout : Layout) : Prop where
  keeps : HeapRun.Keeps image ⟨heap, live.map Prod.fst⟩ layout
  sizes : ∀ pair ∈ live, ∃ chunk, layout.Holds chunk ∧
    chunk.payload = pair.1 ∧ pair.2 ≤ chunk.size

section

variable {platform : Platform} {image : KernelImage platform}
  {contents : Contents} {start : MemoryState} {state other : HeapState}
  {live left : List (Nat × Nat)} {layout : Layout} {chunk : Chunk}
  {address : Nat}

theorem ClientWord.sublist (hclient : ClientWord left address)
    (hleft : left.Sublist live) : ClientWord live address := by
  obtain ⟨haligned, pair, hmem, hin⟩ := hclient
  exact ⟨haligned, pair, hleft.subset hmem, hin⟩

section

variable (settled : Settled image state live layout)

include settled

theorem Settled.arranged : Arranged image state layout :=
  settled.keeps.arranged

theorem Settled.disjoint : live.Pairwise AllocationsApart := by
  have hnodup := settled.keeps.nodup
  unfold List.Nodup at hnodup
  simp only [List.pairwise_map] at hnodup
  refine hnodup.imp_of_mem ?_
  intro first second hfirst hsecond hne
  refine ⟨hne, ?_⟩
  rintro place ⟨⟨hlow, hhigh⟩, hlow', hhigh'⟩
  obtain ⟨chunk, hholds, hpayload, hsize⟩ := settled.sizes first hfirst
  obtain ⟨other, hother, hpayload', hsize'⟩ := settled.sizes second hsecond
  have hapart : chunk.address ≠ other.address := by
    unfold Chunk.payload at hpayload hpayload'
    omega
  refine settled.keeps.arranged.toPaged.apart_of_ne hholds.mem hother.mem
    hapart place ?_ ?_
  · unfold Chunk.payload at hpayload
    unfold Chunk.Covers Chunk.finish
    omega
  · unfold Chunk.payload at hpayload'
    unfold Chunk.Covers Chunk.finish
    omega

theorem Settled.sublist (hleft : left.Sublist live) :
    Settled image state left layout where
  keeps := by
    have hsublist := hleft.map Prod.fst
    exact ⟨settled.keeps.arranged, settled.keeps.coalesced,
      settled.keeps.nodup.sublist hsublist,
      fun pointer hmem => settled.keeps.held pointer (hsublist.subset hmem)⟩
  sizes := fun pair hmem => settled.sizes pair (hleft.subset hmem)

theorem Settled.owner (hclient : ClientWord live address) :
    ∃ chunk, layout.Holds chunk ∧ chunk.payload ≤ address ∧
      address < chunk.finish ∧ chunk.payload ∈ live.map Prod.fst := by
  obtain ⟨_, pair, hmem, hlow, hhigh⟩ := hclient
  obtain ⟨chunk, hholds, hpayload, hsize⟩ := settled.sizes pair hmem
  refine ⟨chunk, hholds, ?_, ?_, ?_⟩
  · rw [hpayload]
    exact hlow
  · unfold Chunk.payload at hpayload
    unfold Chunk.finish
    omega
  · rw [hpayload]
    exact List.mem_map_of_mem hmem

theorem Settled.poolWord (hclient : ClientWord live address) :
    PoolWord address := by
  obtain ⟨chunk, hholds, hlow, hhigh, _⟩ := settled.owner hclient
  obtain ⟨word, hword⟩ := settled.arranged.toPaged.backed_of_holds hholds
    address (Chunk.covers_of_payload hlow hhigh) hclient.1
  exact poolWord_of_view hword

theorem Settled.headerApart
    (hmem : chunk ∈ layout.blocks ∨ chunk ∈ layout.larges) :
    HeaderApart live chunk.address := by
  intro offset hoffset haligned
  have hheader : HeaderWord chunk (chunk.address + offset) := by
    unfold HeaderWord
    omega
  have paged := settled.arranged.toPaged
  have hcovers := Chunk.covers_of_headerWord hheader
  constructor
  · have hblock : chunk.address % 8 = 0 := by
      rcases hmem with hblock | hlarge
      · exact (settled.arranged.tiling.aligned chunk hblock).1
      · exact (Layout.Holds.aligned settled.arranged (.inr hlarge)).1
    have hbacked : Backed (state.view image) chunk :=
      hmem.elim paged.backed paged.backed_large
    obtain ⟨word, hword⟩ := hbacked _ hcovers (by omega)
    exact poolWord_of_view hword
  · intro hclient
    obtain ⟨owner, hholds, hlow, hhigh, _⟩ := settled.owner hclient
    exact paged.not_headerWord hholds hlow hhigh hmem hheader

theorem Settled.clientWord {pair : Nat × Nat} (hmem : pair ∈ live)
    (hlow : pair.1 ≤ address) (hhigh : address < pair.1 + pair.2) :
    ClientWord live (address - address % 8) := by
  obtain ⟨chunk, hholds, hpayload, _⟩ := settled.sizes pair hmem
  have haligned := (Layout.Holds.aligned settled.arranged hholds).1
  unfold Chunk.payload sizeofBlock at hpayload
  exact ⟨by omega, pair, hmem, by omega, by omega⟩

theorem Settled.blocksApart : BlocksApart live (Listed image state) where
  clients := fun _ => settled.poolWord
  header := by
    intro block hlisted
    obtain ⟨chunk, hmem, rfl⟩ := settled.keeps.listed.mp hlisted
    exact settled.headerApart (.inl hmem)
  link := by
    intro block next hblock hnext
    obtain ⟨chunk, hchunk, rfl⟩ := settled.keeps.listed.mp hblock
    obtain ⟨other, hother, rfl⟩ := settled.keeps.listed.mp hnext
    by_cases heq : chunk.address = other.address
    · omega
    · have apart := settled.arranged.tiling.apart_of_mem hchunk hother heq
        (chunk.address + 16) (Chunk.covers_of_headerWord (.inr (.inr rfl)))
      constructor
      · intro hsize
        exact apart (Chunk.covers_of_headerWord (.inl hsize))
      · intro hflags
        exact apart (Chunk.covers_of_headerWord (.inr (.inl hflags)))

omit settled in
theorem linked_listed (state : HeapState) :
    Linked image (Listed image state) state where
  first := by
    by_cases hzero : state.firstBlock = 0
    · exact .inl hzero
    · exact .inr (.first hzero)
  next := by
    intro block word hlisted hview
    by_cases hzero : word.toNat = 0
    · exact .inl hzero
    · exact .inr (.next hlisted (run_loadNext hview) hzero)

theorem Settled.pinned :
    Pinned image (clientPins image state live) state.memory := by
  rintro page entry ⟨⟨address, hclient, rfl⟩, rfl⟩
  have hword := settled.poolWord hclient
  obtain ⟨chunk, hholds, hlow, hhigh, _⟩ := settled.owner hclient
  have hused := (view_isSome settled.arranged.sound hword).mp
    (settled.arranged.toPaged.backed_of_holds hholds address
      (Chunk.covers_of_payload hlow hhigh) hclient.1)
  exact ⟨pageOf_lt hword,
    (settled.arranged.sound.bits _ (pageOf_lt hword)).mp hused, rfl⟩

theorem Settled.not_clientPins (hlarge : chunk ∈ layout.larges)
    (hout : chunk.payload ∉ live.map Prod.fst) {page : Nat}
    (hspans : ∀ place, pageAddress page ≤ place →
      place < pageAddress page + pageSize → chunk.Spans place)
    (entry : Nat) : ¬ clientPins image state live page entry := by
  rintro ⟨⟨address, hclient, rfl⟩, _⟩
  have hpage := pageAddress_pageOf (settled.poolWord hclient)
  have hmod : address % pageSize < pageSize := Nat.mod_lt _ (by decide)
  have hin := hspans address (by omega) (by omega)
  obtain ⟨owner, hholds, hlow, hhigh, hmem⟩ := settled.owner hclient
  have hcovers := Chunk.covers_of_payload hlow hhigh
  rcases hholds.mem with hblock | hother
  · exact settled.arranged.toPaged.not_spans hblock hcovers hlarge hin
  · refine settled.arranged.apart.forall hlarge hother ?_ address hin
      (Chunk.spans_of_covers hcovers)
    rintro rfl
    exact hout hmem

theorem Settled.serving (hmemory : HasMemory image start state) :
    Serving image start state live state := by
  obtain ⟨sound, fixed, cached, _⟩ := hmemory.resting
  exact ⟨hmemory.sound, sound, fixed, cached, settled.pinned⟩

/-- What clients stored has changed no header. -/
theorem Settled.disturbed {origin : HeapState}
    (same : SameButClients image origin left state other)
    (pinned : Pinned image (clientPins image origin left) state.memory)
    (hleft : left.Sublist live) : Settled image other live layout := by
  have arranged := settled.arranged
  have hview : ∀ chunk, (chunk ∈ layout.blocks ∨ chunk ∈ layout.larges) →
      ∀ address, HeaderWord chunk address →
        other.view image address = state.view image address := by
    intro chunk hmem address hheader
    apply same.view (fun _ h => settled.poolWord (h.sublist hleft))
      arranged.sound pinned
    intro hclient
    obtain ⟨owner, hholds, hlow, hhigh, _⟩ :=
      settled.owner (hclient.sublist hleft)
    exact arranged.toPaged.not_headerWord hholds hlow hhigh hmem hheader
  have stores : Stores image state other (other.view image) :=
    ⟨same.memory, same.firstBlock, same.created, rfl⟩
  refine ⟨⟨⟨arranged.toPaged.stores stores arranged.tiling ?_, ?_, ?_⟩,
    settled.keeps.coalesced, settled.keeps.nodup, settled.keeps.held⟩,
    settled.sizes⟩
  · exact fun large hmem => hview large (.inr hmem)
  · exact same.firstBlock.trans arranged.first
  · exact arranged.headers.congr fun block hmem => hview block (.inl hmem)

end

end

end Planetoid.Memory
