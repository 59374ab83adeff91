import Planetoid.Memory.HeapAllocation

namespace Planetoid.Memory

open Planetoid Program VirtualMemory KernelHeapAllocator

/-! `kfree` between two arranged heaps, and what clients store. -/

section

variable {before behind : List Chunk} {chunk other : Chunk}

theorem taken_absorb (address gained : Nat) :
    other ∈ (absorb address gained behind).2 ∧ other.free = false ↔
      other ∈ behind ∧ other.free = false := by
  obtain ⟨taken, hsplit, hfree, _⟩ := absorb_spec address gained behind
  constructor
  · rintro ⟨hmem, hother⟩
    rw [hsplit]
    exact ⟨List.mem_append_right _ hmem, hother⟩
  · rintro ⟨hmem, hother⟩
    rw [hsplit] at hmem
    rcases List.mem_append.mp hmem with h | h
    · rw [hfree other h] at hother
      cases hother
    · exact ⟨h, hother⟩

theorem taken_mergeInto (hfree : chunk.free = true) :
    other ∈ mergeInto before chunk ∧ other.free = false ↔
      other ∈ before ∧ other.free = false := by
  have hfreed : ∀ freed : Chunk, freed.free = true →
      ∀ front : List Chunk, other ∈ front ++ [freed] ∧ other.free = false ↔
        other ∈ front ∧ other.free = false := by
    intro freed htrue front
    rw [List.mem_append, List.mem_singleton]
    constructor
    · rintro ⟨hmem | rfl, hother⟩
      · exact ⟨hmem, hother⟩
      · rw [htrue] at hother
        cases hother
    · rintro ⟨hmem, hother⟩
      exact ⟨.inl hmem, hother⟩
  unfold mergeInto
  cases hlast : before.getLast? with
  | none =>
      rw [List.getLast?_eq_none_iff] at hlast
      subst hlast
      exact hfreed chunk hfree []
  | some previous =>
      obtain ⟨front, rfl⟩ := List.getLast?_eq_some_iff.mp hlast
      simp only
      split
      · rename_i hmerge
        rw [List.dropLast_concat]
        exact (hfreed { previous with size := previous.size + chunk.extent }
          hmerge.1 front).trans (hfreed previous hmerge.1 front).symm
      · exact hfreed chunk hfree _

theorem taken_release :
    other ∈ release before chunk behind ∧ other.free = false ↔
      (other ∈ before ∨ other ∈ behind) ∧ other.free = false := by
  have hmerged : (merged chunk behind).free = true := rfl
  unfold release
  rw [List.mem_append, or_and_right, taken_mergeInto hmerged, taken_absorb,
    ← or_and_right]

theorem headPointer_release (before behind : List Chunk) (chunk : Chunk) :
    headPointer (release before chunk behind) 0 =
      headPointer (before ++ chunk :: behind) 0 := by
  unfold release mergeInto
  cases hlast : before.getLast? with
  | none =>
      rw [List.getLast?_eq_none_iff] at hlast
      subst hlast
      rfl
  | some previous =>
      obtain ⟨front, rfl⟩ := List.getLast?_eq_some_iff.mp hlast
      simp only
      split
      · rw [List.dropLast_concat]
        cases front <;> rfl
      · cases front <;> rfl

end

structure Freed {platform : Platform} (image : KernelImage platform)
    (layout : Layout) (pointer : Nat) (after : HeapState) (next : Layout) :
    Prop where
  arranged : Arranged image after next
  coalesced : Coalesced layout.blocks → Coalesced next.blocks
  gone : GivesBack layout next pointer

section

variable {platform : Platform} (image : KernelImage platform)

def FindsLarge (state : HeapState) (pointer : Nat) : Prop :=
  (loadLarge image (pointer - sizeofBlock)).run state = .ok (true, state)

end

section

variable {platform : Platform} {image : KernelImage platform}
  {state : HeapState} {layout : Layout} {chunk : Chunk}
  {before behind : List Chunk}

theorem givesBack_release (paged : Paged image state layout)
    (hblocks : layout.blocks = before ++ chunk :: behind)
    (hfree : chunk.free = false) :
    GivesBack layout { layout with blocks := release before chunk behind }
      chunk.payload := by
  have hmem : chunk ∈ layout.blocks := by
    rw [hblocks]
    simp
  have tiling := paged.tiling
  rw [hblocks] at tiling
  intro other
  unfold Layout.Holds
  simp only [taken_release, hblocks, List.mem_append, List.mem_cons]
  constructor
  · rintro (⟨hother, htaken⟩ | hlarge)
    · refine ⟨.inl ⟨hother.imp_right .inr, htaken⟩, ?_⟩
      intro heq
      exact (tiling.apart_of_split hother).address_ne
        (Chunk.payload_inj heq).symm
    · refine ⟨.inr hlarge, ?_⟩
      intro heq
      apply paged.not_spans hmem chunk.covers_address hlarge
      rw [← Chunk.payload_inj heq]
      exact Chunk.spans_of_covers other.covers_address
  · rintro ⟨⟨hbefore | rfl | hbehind, htaken⟩ | hlarge, hne⟩
    · exact .inl ⟨.inl hbefore, htaken⟩
    · exact absurd rfl hne
    · exact .inl ⟨.inr hbehind, htaken⟩
    · exact .inr hlarge

theorem Arranged.freeSmall (arranged : Arranged image state layout)
    (hblocks : layout.blocks = before ++ chunk :: behind) :
    ∃ after, Returns .budgetExhausted
        (fun budget => freeSmall image budget chunk.address) state
        layout.blocks.length ((), after) ∧
      Arranged image after
        { layout with blocks := release before chunk behind } ∧
      after.memory = state.memory ∧
      ∀ address, (∀ other ∈ before ++ [chunk], ¬ LinkWord other address) →
        after.view image address =
          (state.view image).setFlag (chunk.address + 8) 0 true address := by
  have tiling := arranged.tiling
  have headers := arranged.headers
  have hfirst := arranged.first
  rw [hblocks] at tiling headers hfirst
  obtain ⟨after, words, hreturns, stores, hheaders, hframe⟩ :=
    freeSmall_returns arranged.sound tiling arranged.toPaged.inPool hfirst
      headers
  refine ⟨after, hreturns.weaken ?_, ⟨arranged.toPaged.stores stores
    tiling.release ?_, ?_, ?_⟩, stores.memory, ?_⟩
  · rw [hblocks, List.length_append, List.length_cons]
    omega
  · intro large hlarge address hword
    have hout : ∀ other ∈ before ++ [chunk], ¬ HeaderWord other address := by
      intro other hother hheader
      have hblock : other ∈ layout.blocks := by
        rw [hblocks, List.mem_append, List.mem_cons]
        rw [List.mem_append, List.mem_singleton] at hother
        exact hother.imp_right .inl
      exact arranged.toPaged.not_spans hblock
        (Chunk.covers_of_headerWord hheader) hlarge
        (Chunk.spans_of_covers (Chunk.covers_of_headerWord hword))
    rw [hframe address fun other hother h =>
      hout other hother (h.imp_right .inr)]
    apply View.setFlag_of_ne
    exact fun h => hout chunk (by simp) (.inr (.inl h))
  · rw [stores.firstBlock, hfirst, headPointer_release]
  · rw [stores.view]
    exact hheaders
  · rw [stores.view]
    exact hframe

def Layout.dropLarge (layout : Layout) (address : Nat) : Layout :=
  { layout with
    larges := layout.larges.filter fun other => other.address ≠ address }

theorem mem_dropLarge {address : Nat} {other : Chunk} :
    other ∈ (layout.dropLarge address).larges ↔
      other ∈ layout.larges ∧ other.address ≠ address := by
  unfold Layout.dropLarge
  simp

theorem givesBack_dropLarge (paged : Paged image state layout)
    (hmem : chunk ∈ layout.larges) :
    GivesBack layout (layout.dropLarge chunk.address) chunk.payload := by
  have hpayload : ∀ other : Chunk, other.payload ≠ chunk.payload ↔
      other.address ≠ chunk.address := by
    intro other
    unfold Chunk.payload
    omega
  intro other
  rw [hpayload]
  unfold Layout.Holds
  rw [mem_dropLarge, or_and_right]
  apply or_congr_left
  constructor
  · rintro ⟨hblock, htaken⟩
    refine ⟨⟨hblock, htaken⟩, ?_⟩
    intro heq
    apply paged.not_spans hblock other.covers_address hmem
    rw [heq]
    exact Chunk.spans_of_covers chunk.covers_address
  · exact And.left

theorem Arranged.freeLarge (arranged : Arranged image state layout)
    (hmem : chunk ∈ layout.larges) :
    ∃ after, (freeLarge image chunk.address).run state = .ok ((), after) ∧
      Arranged image after (layout.dropLarge chunk.address) := by
  have paged := arranged.toPaged
  have large := paged.large chunk hmem
  obtain ⟨first, hfirst, hbound⟩ := large.pages
  have hcount : 0 < pagesFor chunk.size := by
    have hpages := (pagesFor_spec chunk.size).1
    unfold sizeofBlock pageSize at hpages
    omega
  have hspans : ∀ place, chunk.Spans place ↔
      InRun first (pagesFor chunk.size) place := by
    intro place
    unfold Chunk.Spans InRun
    rw [hfirst]
  have freeable : Freeable state.memory chunk.address (pagesFor chunk.size)
      first := by
    refine ⟨hfirst, hcount, hbound, ?_⟩
    intro i hi
    refine (paged.used (first + i) (by omega)).mpr (.inr ⟨chunk, hmem, ?_⟩)
    rw [hspans, ← pageAddress_add]
    unfold InRun pageSize
    omega
  rcases run_freeLarge arranged.sound large.header large.finish_lt with
    ⟨hnone, _⟩ | ⟨page, memory, hpage, hrun, hsound, bits⟩
  · exact absurd freeable (hnone first)
  obtain rfl : page = first :=
    pageAddress_injective (hpage.1.symm.trans hfirst)
  have hview : ∀ address, ¬ chunk.Spans address →
      ({ state with memory := memory } : HeapState).view image address =
        state.view image address := by
    intro address hout
    rw [hspans] at hout
    exact view_of_bits bits hout
  have hapart : ∀ other ∈ layout.larges, other.address ≠ chunk.address →
      other.PagesApart chunk := by
    intro other hother hne
    apply paged.apart.forall hother hmem
    rintro rfl
    exact hne rfl
  refine ⟨_, hrun, ⟨hsound, paged.tiling, paged.created, ?_, ?_, ?_, ?_⟩,
    arranged.first, ?_⟩
  · intro other hother
    obtain ⟨hold, hne⟩ := mem_dropLarge.mp hother
    apply (paged.large other hold).congr
    intro address hword
    apply hview
    exact hapart other hold hne address
      (Chunk.spans_of_covers (Chunk.covers_of_headerWord hword))
  · exact paged.apart.filter _
  · intro other hother
    exact paged.separate other (mem_dropLarge.mp hother).1
  · intro other hother
    have hin : chunk.Spans (pageAddress other) ↔
        page ≤ other ∧ other < page + pagesFor chunk.size := by
      rw [hspans]
      unfold InRun pageAddress pageSize
      omega
    change memory.virtualBitmap.test other = true ↔ _
    rw [bits.bit other]
    by_cases hfreed : chunk.Spans (pageAddress other)
    · rw [if_pos (hin.mp hfreed)]
      constructor
      · intro h
        cases h
      · rintro (hcreated | ⟨large, hlarge, hspan⟩)
        · exact absurd hfreed (paged.separate chunk hmem _ hcreated)
        · obtain ⟨hold, hne⟩ := mem_dropLarge.mp hlarge
          exact absurd hfreed (hapart large hold hne _ hspan)
    · rw [if_neg (fun h => hfreed (hin.mpr h)), paged.used other hother]
      apply or_congr_right
      constructor
      · rintro ⟨large, hlarge, hspan⟩
        refine ⟨large, mem_dropLarge.mpr ⟨hlarge, ?_⟩, hspan⟩
        intro heq
        apply hfreed
        have hself : large = chunk := by
          by_contra hne
          apply paged.apart.forall hlarge hmem hne large.address
            (Chunk.spans_of_covers large.covers_address)
          rw [heq]
          exact Chunk.spans_of_covers chunk.covers_address
        rwa [hself] at hspan
      · rintro ⟨large, hlarge, hspan⟩
        exact ⟨large, (mem_dropLarge.mp hlarge).1, hspan⟩
  · apply arranged.headers.congr
    intro block hblock address hword
    apply hview
    exact paged.not_spans hblock (Chunk.covers_of_headerWord hword) hmem

/-! The calls. -/

theorem Chunk.payload_sub (chunk : Chunk) :
    chunk.payload - sizeofBlock = chunk.address :=
  Nat.add_sub_cancel ..

theorem kfree_clear {need : Nat} {after : HeapState}
    (hload : (loadLarge image chunk.address).run state = .ok (false, state))
    (hreturns : Returns .budgetExhausted
      (fun budget => freeSmall image budget chunk.address) state need
      ((), after)) :
    Returns .budgetExhausted
      (fun budget => kfree image budget chunk.payload) state need
      ((), after) := by
  apply hreturns.of_run_eq
  intro budget
  unfold kfree
  rw [if_neg chunk.payload_ne_zero]
  simp only [Chunk.payload_sub]
  rw [run_bind_ok hload, if_neg Bool.false_ne_true]

theorem kfree_large (arranged : Arranged image state layout)
    (hmem : chunk ∈ layout.larges) :
    ∃ after next, Returns .budgetExhausted
        (fun budget => kfree image budget chunk.payload) state
        layout.blocks.length ((), after) ∧
      Freed image layout chunk.payload after next := by
  obtain ⟨after, hrun, hafter⟩ := arranged.freeLarge hmem
  obtain ⟨flags, hflags, hset⟩ := (arranged.large chunk hmem).flag
  have hload := run_loadLarge hflags
  rw [hset] at hload
  refine ⟨after, _, ?_, hafter, fun h => h,
    givesBack_dropLarge arranged.toPaged hmem⟩
  apply (returns_of_run hrun _).of_run_eq
  intro budget
  unfold kfree
  rw [if_neg chunk.payload_ne_zero]
  simp only [Chunk.payload_sub]
  rw [run_bind_ok hload, if_pos rfl]

section

variable (arranged : Arranged image state layout)
  (hmem : chunk ∈ layout.blocks) (hfree : chunk.free = false)

include arranged hmem

theorem run_loadLarge_block :
    ∃ large, (loadLarge image chunk.address).run state = .ok (large, state) ∧
      (FindsLarge image state chunk.payload ↔ large = true) := by
  obtain ⟨before, behind, hblocks⟩ := List.append_of_mem hmem
  have headers := arranged.headers
  rw [hblocks] at headers
  obtain ⟨flags, hflags, _⟩ := headers.header.free
  refine ⟨_, run_loadLarge hflags, ?_⟩
  unfold FindsLarge
  rw [Chunk.payload_sub, run_loadLarge hflags]
  simp

theorem kfree_set (hset : FindsLarge image state chunk.payload) :
    ∃ after, (∀ budget, (kfree image budget chunk.payload).run state =
        .ok ((), after)) ∧
      (chunk.address % pageSize ≠ 0 → after = state) := by
  obtain ⟨large, hload, hfinds⟩ := run_loadLarge_block arranged hmem
  obtain ⟨before, behind, hblocks⟩ := List.append_of_mem hmem
  have headers := arranged.headers
  rw [hblocks] at headers
  have hkfree : ∀ {after : HeapState},
      (freeLarge image chunk.address).run state = .ok ((), after) →
      ∀ budget, (kfree image budget chunk.payload).run state =
        .ok ((), after) := by
    intro after hrun budget
    unfold kfree
    rw [if_neg chunk.payload_ne_zero]
    simp only [Chunk.payload_sub]
    rw [run_bind_ok hload, if_pos (hfinds.mp hset)]
    exact hrun
  have hfinish := arranged.tiling.finish_lt arranged.toPaged.inPool hmem
  rcases run_freeLarge arranged.sound headers.header hfinish with
    ⟨_, hrun⟩ | ⟨page, memory, freeable, hrun, _⟩
  · exact ⟨state, hkfree hrun, fun _ => rfl⟩
  · refine ⟨_, hkfree hrun, ?_⟩
    intro hpage
    rw [freeable.1] at hpage
    exact absurd (pageAddress_mod page) hpage

include hfree

theorem kfree_small (hclear : ¬ FindsLarge image state chunk.payload) :
    ∃ after next, Returns .budgetExhausted
        (fun budget => kfree image budget chunk.payload) state
        layout.blocks.length ((), after) ∧
      Freed image layout chunk.payload after next := by
  obtain ⟨large, hload, hfinds⟩ := run_loadLarge_block arranged hmem
  obtain ⟨before, behind, hblocks⟩ := List.append_of_mem hmem
  obtain ⟨after, hreturns, hafter, _⟩ := arranged.freeSmall hblocks
  obtain rfl : large = false :=
    Bool.eq_false_of_not_eq_true fun h => hclear (hfinds.mpr h)
  refine ⟨after, _, kfree_clear hload hreturns, hafter, ?_,
    givesBack_release arranged.toPaged hblocks hfree⟩
  intro coalesced
  rw [hblocks] at coalesced
  exact coalesced_release coalesced

end

/-! Stores of clients. -/

theorem Layout.Holds.aligned (arranged : Arranged image state layout)
    (hholds : layout.Holds chunk) :
    chunk.address % 8 = 0 ∧ chunk.size % 8 = 0 := by
  rcases hholds.mem with hblock | hlarge
  · exact arranged.tiling.aligned chunk hblock
  · have large := arranged.large chunk hlarge
    have hpage := large.page_aligned
    refine ⟨?_, large.aligned⟩
    unfold pageSize at hpage
    omega

theorem Paged.not_headerWord (paged : Paged image state layout)
    (hholds : layout.Holds chunk) {place : Nat}
    (hlow : chunk.payload ≤ place) (hhigh : place < chunk.finish)
    {other : Chunk} (hother : other ∈ layout.blocks ∨ other ∈ layout.larges) :
    ¬ HeaderWord other place := by
  intro hheader
  by_cases heq : other.address = chunk.address
  · unfold HeaderWord at hheader
    unfold Chunk.payload sizeofBlock at hlow
    omega
  · apply paged.apart_of_ne hother hholds.mem heq _
      (Chunk.covers_of_headerWord hheader)
    unfold Chunk.payload at hlow
    unfold Chunk.Covers
    omega

theorem Paged.backed_of_holds (paged : Paged image state layout)
    (hholds : layout.Holds chunk) : Backed (state.view image) chunk := by
  rcases hholds.mem with hblock | hlarge
  · exact paged.backed hblock
  · exact paged.backed_large hlarge

theorem Arranged.modifyPayload (arranged : Arranged image state layout)
    (hholds : layout.Holds chunk) {place : Nat}
    (hlow : chunk.payload ≤ place) (hhigh : place < chunk.finish)
    (haligned : place % 8 = 0) (change : BitVec 64 → BitVec 64) :
    ∃ word, (modifyWord image place change).run state =
        .ok ((), state.modify image place change) ∧
      Arranged image (state.modify image place change) layout ∧
      state.view image place = some word ∧
      Stores image state (state.modify image place change)
        (Function.update (state.view image) place (some (change word))) := by
  have hcovers : chunk.Covers place := by
    unfold Chunk.payload at hlow
    unfold Chunk.Covers
    omega
  obtain ⟨word, hview⟩ :=
    arranged.toPaged.backed_of_holds hholds _ hcovers haligned
  have hkept : ∀ other, other ∈ layout.blocks ∨ other ∈ layout.larges →
      ∀ address, HeaderWord other address → address ≠ place := by
    rintro other hother address hheader rfl
    exact arranged.toPaged.not_headerWord hholds hlow hhigh hother hheader
  have stores : Stores image state (state.modify image place change)
      (Function.update (state.view image) place (some (change word))) :=
    ⟨modify_memory .., modify_firstBlock .., modify_created ..,
      view_modify arranged.sound hview _⟩
  refine ⟨word, run_modifyWord hview _, ⟨arranged.toPaged.stores stores
    arranged.tiling ?_, ?_, ?_⟩, hview, stores⟩
  · intro large hlarge address hheader
    exact Function.update_of_ne (hkept large (.inr hlarge) address hheader) ..
  · rw [stores.firstBlock]
    exact arranged.first
  · rw [stores.view]
    apply arranged.headers.congr
    intro block hblock address hheader
    exact Function.update_of_ne (hkept block (.inl hblock) address hheader) ..

theorem Arranged.storePayload (arranged : Arranged image state layout)
    (hholds : layout.Holds chunk) {address : Nat}
    (hlow : chunk.payload ≤ address) (hhigh : address < chunk.finish)
    (byte : BitVec 8) :
    ∃ after word, (storeByte image address byte).run state =
        .ok ((), after) ∧ Arranged image after layout ∧
      state.view image (address - address % 8) = some word ∧
      Stores image state after (Function.update (state.view image)
        (address - address % 8) (some (setByte word (address % 8) byte))) := by
  obtain ⟨haligned, _⟩ := hholds.aligned arranged
  have hword : chunk.payload ≤ address - address % 8 := by
    unfold Chunk.payload sizeofBlock at *
    omega
  obtain ⟨word, hrun, hafter, hview, stores⟩ := arranged.modifyPayload hholds
    hword (by omega) (by omega) fun word => setByte word (address % 8) byte
  exact ⟨_, word, hrun, hafter, hview, stores⟩

end

end Planetoid.Memory
