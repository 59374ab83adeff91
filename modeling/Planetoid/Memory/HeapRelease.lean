import Mathlib.Data.List.Basic
import Planetoid.Memory.HeapEffects

namespace Planetoid.Memory

open Planetoid Program VirtualMemory KernelHeapAllocator

/-! What `kfree` does to the list of blocks. -/

section

variable {platform : Platform} {image : KernelImage platform}
  {state : HeapState} {pages : List Nat} {before behind : List Chunk}
  {chunk : Chunk}

def LinkWord (chunk : Chunk) (address : Nat) : Prop :=
  address = chunk.address ∨ address = chunk.address + 16

theorem run_mergePrevious (sound : Sound image state.memory none)
    (tiling : Tiling pages (before ++ [chunk] ++ behind))
    (hpool : InPool pages)
    (headers : Headers (state.view image) (before ++ [chunk] ++ behind) 0) :
    ∃ after words, (mergePrevious image (lastPointer 0 before)
        chunk.address).run state = .ok ((), after) ∧
      Stores image state after words ∧
      Headers words (mergeInto before chunk ++ behind) 0 ∧
      ∀ address, (∀ other ∈ before, ¬ LinkWord other address) →
        words address = state.view image address := by
  rcases before.eq_nil_or_concat' with rfl | ⟨front, previous, rfl⟩
  · exact ⟨state, _, rfl, Stores.refl state, headers, fun _ _ => rfl⟩
  have hmerged := tiling.mergeInto
  have hlist : front ++ [previous] ++ [chunk] ++ behind =
      front ++ previous :: chunk :: behind := by
    simp
  have hlist' : front ++ [previous] ++ [chunk] ++ behind =
      (front ++ [previous]) ++ chunk :: behind := by
    simp
  have hprevious : Header (state.view image) previous chunk.address := by
    rw [hlist] at headers
    exact headers.header
  have hchunk : Header (state.view image) chunk (headPointer behind 0) := by
    rw [hlist'] at headers
    exact headers.header
  unfold mergePrevious
  rw [lastPointer_concat, if_pos hprevious.address_ne_zero,
    run_bind_ok hprevious.run_loadFree]
  unfold mergeInto at hmerged ⊢
  rw [List.getLast?_concat] at hmerged ⊢
  simp only at hmerged ⊢
  by_cases hfree : previous.free = true
  · have hpreviousFinish : previous.address + sizeofBlock + previous.size <
        2 ^ 64 := tiling.finish_lt hpool
      (by simp : previous ∈ front ++ [previous] ++ [chunk] ++ behind)
    rw [if_pos hfree, run_bind_ok hprevious.run_loadSize,
      uint64_eq hpreviousFinish]
    by_cases hadjacent : previous.finish = chunk.address
    · have hcode : previous.address + sizeofBlock + previous.size =
          chunk.address := hadjacent
      rw [if_pos hcode, if_pos ⟨hfree, hadjacent⟩, List.dropLast_concat,
        run_bind_ok hprevious.run_loadSize, run_bind_ok hchunk.run_loadSize]
      rw [if_pos ⟨hfree, hadjacent⟩, List.dropLast_concat] at hmerged
      have hfinish := hmerged.finish_lt hpool
        (List.mem_append_left _ (List.mem_append_right _
          (List.mem_singleton_self _)))
      unfold Chunk.finish at hfinish
      simp only at hfinish
      have hsum : uint64 (previous.size + (sizeofBlock + chunk.size)) =
          previous.size + chunk.extent := by
        unfold Chunk.extent at hfinish ⊢
        exact uint64_eq (by omega)
      rw [hsum]
      obtain ⟨size₀, hsize₀, _⟩ := hprevious.size
      obtain ⟨flags, hflags, hflag⟩ := hprevious.free
      obtain ⟨next₀, hnext₀, _⟩ := hprevious.next
      have hnextBound : headPointer behind 0 < 2 ^ 64 := by
        obtain ⟨word, _, heq⟩ := hchunk.next
        rw [← heq]
        exact word.isLt
      obtain ⟨first, hfirst, stores₁⟩ := run_storeSize sound
        (Stores.refl state) hsize₀ (previous.size + chunk.extent)
      have hapart : previous.Apart chunk := by
        rw [hlist] at tiling
        exact tiling.apart_of_split (.inr (List.mem_cons_self ..))
      have hload : (loadNext image chunk.address).run first =
          .ok (headPointer behind 0, first) := by
        have hheader : Header (first.view image) chunk
            (headPointer behind 0) := by
          rw [stores₁.view]
          apply hchunk.congr
          intro address hword
          apply View.setWord_of_ne
          rintro rfl
          exact hapart _ previous.covers_address
            (Chunk.covers_of_headerWord hword)
        exact hheader.run_loadNext
      obtain ⟨second, hsecond, stores₂⟩ := run_storeNext sound stores₁
        ((View.setWord_of_ne _ (by omega) _).trans hnext₀)
        (headPointer behind 0)
      refine ⟨second, _, ?_, stores₂, ?_, ?_⟩
      · exact (run_bind_ok hfirst _).trans
          ((run_bind_ok hload _).trans hsecond)
      · have hkept : ∀ other, other ∈ front ∨ other ∈ chunk :: behind →
            ∀ address, HeaderWord other address →
            ((state.view image).setWord previous.address
              (previous.size + chunk.extent)).setWord
              (previous.address + 16) (headPointer behind 0) address =
                state.view image address := by
          intro other hother address hword
          rw [hlist] at tiling
          have hother' := tiling.apart_of_split hother
          have hout : ∀ place, HeaderWord previous place → address ≠ place := by
            rintro place hplace rfl
            exact hother' _ (Chunk.covers_of_headerWord hplace)
              (Chunk.covers_of_headerWord hword)
          rw [View.setWord_of_ne _ (hout _ (.inr (.inr rfl))),
            View.setWord_of_ne _ (hout _ (.inl rfl))]
        rw [hlist] at headers
        obtain ⟨hfront, _, _, hbehind⟩ := headers_append.mp headers
        rw [headers_append, headers_append]
        refine ⟨⟨hfront.congr fun other hmem => hkept other (.inl hmem), ?_,
          trivial⟩, hbehind.congr fun other hmem =>
            hkept other (.inr (List.mem_cons_of_mem _ hmem))⟩
        rw [hfree] at hflag ⊢
        refine header_of_words ?_ ?_ hflag ?_ (by omega) hnextBound
        · rw [View.setWord_of_ne _ (by omega), View.setWord_self]
        · rw [View.setWord_of_ne _ (by omega), View.setWord_of_ne _ (by omega),
            hflags]
        · exact View.setWord_self ..
      · intro address hout
        have hprev := hout previous (by simp)
        unfold LinkWord at hprev
        rw [View.setWord_of_ne _ (by omega), View.setWord_of_ne _ (by omega)]
    · have hcode : ¬ previous.address + sizeofBlock + previous.size =
          chunk.address := hadjacent
      rw [if_neg hcode, if_neg (fun h => hadjacent h.2)]
      exact ⟨state, _, rfl, Stores.refl state, headers, fun _ _ => rfl⟩
  · rw [if_neg hfree, if_neg (fun h => hfree h.1)]
    exact ⟨state, _, rfl, Stores.refl state, headers, fun _ _ => rfl⟩

def freedWords (words : View) (chunk : Chunk) (behind : List Chunk) : View :=
  ((words.setFlag (chunk.address + 8) 0 true).setWord chunk.address
    (absorb chunk.address chunk.size behind).1).setWord (chunk.address + 16)
    (headPointer (absorb chunk.address chunk.size behind).2 0)

theorem freedWords_of_not_linkWord {words : View} {address : Nat}
    (h : ¬ LinkWord chunk address) :
    freedWords words chunk behind address =
      words.setFlag (chunk.address + 8) 0 true address := by
  unfold LinkWord at h
  unfold freedWords
  rw [View.setWord_of_ne _ (by omega), View.setWord_of_ne _ (by omega)]

theorem headers_freed {words : View}
    (tiling : Tiling pages (before ++ chunk :: behind))
    (hpool : InPool pages)
    (headers : Headers words (before ++ chunk :: behind) 0) :
    Headers (freedWords words chunk behind) (before ++ [merged chunk behind] ++
      (absorb chunk.address chunk.size behind).2) 0 := by
  have hmerged := tiling.merged
  have hfinish := hmerged.finish_lt hpool
    (List.mem_append_left _ (List.mem_append_right _
      (List.mem_singleton_self _)))
  unfold Chunk.finish merged at hfinish
  simp only at hfinish
  obtain ⟨taken, hsplit, _, _, _⟩ :=
    absorb_spec chunk.address chunk.size behind
  have hkept : ∀ other, other ∈ before ∨ other ∈ behind →
      ∀ address, HeaderWord other address →
      freedWords words chunk behind address = words address := by
    intro other hother address hother'
    have hout : ¬ HeaderWord chunk address := fun hword =>
      tiling.apart_of_split hother address (Chunk.covers_of_headerWord hword)
        (Chunk.covers_of_headerWord hother')
    unfold HeaderWord at hout
    rw [freedWords_of_not_linkWord
      (fun h => hout (h.imp_right .inr)), View.setFlag_of_ne _ (by omega)]
  obtain ⟨hbefore, hchunk, hbehind⟩ := headers_append.mp headers
  rw [hsplit] at hbehind
  have hrest := (headers_append.mp hbehind).2
  obtain ⟨flags, hflags, _⟩ := hchunk.free
  have hnextBound : headPointer (absorb chunk.address chunk.size behind).2 0 <
      2 ^ 64 := by
    cases hlist : (absorb chunk.address chunk.size behind).2 with
    | nil => exact Nat.two_pow_pos 64
    | cons first rest =>
        rw [hlist] at hmerged
        have hlt := hmerged.finish_lt hpool
          (List.mem_append_right _ (List.mem_cons_self ..))
        have hpositive := first.covers_address.2
        exact Nat.lt_trans hpositive hlt
  rw [headers_append, headers_append]
  refine ⟨⟨hbefore.congr fun other hmem => hkept other (.inl hmem), ?_,
    trivial⟩, hrest.congr fun other hmem => hkept other (.inr ?_)⟩
  · unfold merged
    refine @header_of_words _ _ _ _
      (setByte flags 0 (if true then 1 else 0)) _ ?_ ?_
      (byteOf_flag flags true) (View.setWord_self ..) (by omega) hnextBound
    · unfold freedWords
      rw [View.setWord_of_ne _ (by omega), View.setWord_self]
    · unfold freedWords
      rw [View.setWord_of_ne _ (by omega), View.setWord_of_ne _ (by omega),
        View.setFlag_self _ hflags]
  · rw [hsplit]
    exact List.mem_append_right _ hmem

theorem freeSmall_returns (sound : Sound image state.memory none)
    (tiling : Tiling pages (before ++ chunk :: behind))
    (hpool : InPool pages)
    (hfirst : state.firstBlock = headPointer (before ++ chunk :: behind) 0)
    (headers : Headers (state.view image) (before ++ chunk :: behind) 0) :
    ∃ after words, Returns .budgetExhausted
        (fun budget => freeSmall image budget chunk.address) state
        (before.length + behind.length) ((), after) ∧
      Stores image state after words ∧
      Headers words (release before chunk behind) 0 ∧
      ∀ address, (∀ other ∈ before ++ [chunk], ¬ LinkWord other address) →
        words address =
          (state.view image).setFlag (chunk.address + 8) 0 true address := by
  have hmerged := tiling.merged
  have headers₃ := headers_freed tiling hpool headers
  have hchunk := headers.header
  obtain ⟨flags, hflags, _⟩ := hchunk.free
  obtain ⟨size₀, hsize₀, hsize⟩ := hchunk.size
  obtain ⟨next₀, hnext₀, hnext⟩ := hchunk.next
  obtain ⟨first, hfree, stores₁⟩ :=
    run_storeFree sound (Stores.refl state) hflags true
  obtain ⟨second, hsecond, stores₂⟩ := run_storeSize sound stores₁
    ((View.setFlag_of_ne _ (by omega) _ _).trans hsize₀)
    (absorb chunk.address chunk.size behind).1
  obtain ⟨third, hthird, stores₃⟩ := run_storeNext sound stores₂
    ((View.setWord_of_ne _ (by omega) _).trans
      ((View.setFlag_of_ne _ (by omega) _ _).trans hnext₀))
    (headPointer (absorb chunk.address chunk.size behind).2 0)
  change Stores image state third
    (freedWords (state.view image) chunk behind) at stores₃
  rw [← stores₃.view] at headers₃
  -- the loop over the blocks behind starts after the store to `free`
  have hloads : Header (first.view image) { chunk with free := true }
      (headPointer behind 0) := by
    rw [stores₁.view]
    refine ⟨⟨size₀, ?_, hsize⟩, ⟨_, View.setFlag_self _ hflags 0 true,
      byteOf_flag flags true⟩, ⟨next₀, ?_, hnext⟩⟩
    · rw [View.setFlag_of_ne _ (by simp)]
      exact hsize₀
    · rw [View.setFlag_of_ne _ (by simp)]
      exact hnext₀
  have hbehind : Headers (first.view image) behind 0 := by
    rw [stores₁.view]
    refine (headers_append.mp headers).2.2.congr ?_
    intro other hmem address hword
    apply View.setFlag_of_ne
    rintro rfl
    exact tiling.apart_of_split (.inr hmem) _
      (Chunk.covers_of_headerWord (.inr (.inl rfl)))
      (Chunk.covers_of_headerWord hword)
  have habsorb := absorb_returns hbehind
    (fun other hmem => tiling.finish_lt hpool (by simp [hmem]))
    (tiling.finish_lt hpool (by simp) : chunk.finish < 2 ^ 64)
  have hhead : third.firstBlock = headPointer (before ++ merged chunk behind ::
      (absorb chunk.address chunk.size behind).2) 0 := by
    rw [stores₃.firstBlock, hfirst]
    cases before <;> rfl
  have hlist : before ++ [merged chunk behind] ++
      (absorb chunk.address chunk.size behind).2 =
      before ++ merged chunk behind ::
        (absorb chunk.address chunk.size behind).2 := by
    simp
  have hapart : ∀ other ∈ before,
      other.address ≠ (merged chunk behind).address := by
    intro other hmem
    exact (tiling.apart_of_split (.inl hmem)).address_ne.symm
  have hfind := find_returns (hlist ▸ headers₃) hapart 0
  obtain ⟨after, words, hmerge, stores₄, hheaders, hframe⟩ :=
    run_mergePrevious (stores₃.sound sound) hmerged hpool headers₃
  refine ⟨after, words, ?_, stores₃.trans stores₄, hheaders, ?_⟩
  · unfold freeSmall
    refine Returns.bind (returns_of_run hfree _) ?_
    refine Returns.bind (returns_of_run hloads.run_loadNext _) ?_
    refine Returns.bind (returns_of_run hloads.run_loadSize _) ?_
    refine Returns.bind (habsorb.weaken (Nat.le_add_left ..)) ?_
    refine Returns.bind (returns_of_run hsecond _) ?_
    refine Returns.bind (returns_of_run hthird _) ?_
    refine Returns.bind (returns_of_run (run_read _ third) _) ?_
    rw [hhead]
    refine Returns.bind (hfind.weaken (Nat.le_add_right ..)) ?_
    exact returns_of_run hmerge _
  · intro address hout
    rw [hframe address fun other hmem =>
      hout other (List.mem_append_left _ hmem), stores₃.view]
    exact freedWords_of_not_linkWord (hout chunk (by simp))

end

end Planetoid.Memory
