import Planetoid.Memory.HeapBlocks

namespace Planetoid.Memory

open Planetoid Program KernelHeapAllocator

/-! The headers of a list of blocks in the memory. -/

structure Header (words : View) (chunk : Chunk) (next : Nat) : Prop where
  size : ∃ word, words chunk.address = some word ∧ word.toNat = chunk.size
  free : ∃ word, words (chunk.address + 8) = some word ∧
    (byteOf word 0 != 0) = chunk.free
  next : ∃ word, words (chunk.address + 16) = some word ∧ word.toNat = next

/-- The address of the first block, `last` when there is none. -/
def headPointer : List Chunk → Nat → Nat
  | [], last => last
  | chunk :: _, _ => chunk.address

/-- The blocks are linked in this order, the last one to `last`. -/
def Headers (words : View) : List Chunk → Nat → Prop
  | [], _ => True
  | chunk :: rest, last =>
    Header words chunk (headPointer rest last) ∧ Headers words rest last

/-- The address of the last block, `previous` when there is none. -/
def lastPointer (previous : Nat) : List Chunk → Nat
  | [] => previous
  | chunk :: rest => lastPointer chunk.address rest

def HeaderWord (chunk : Chunk) (address : Nat) : Prop :=
  address = chunk.address ∨ address = chunk.address + 8 ∨
    address = chunk.address + 16

theorem Chunk.covers_of_headerWord {chunk : Chunk} {address : Nat}
    (h : HeaderWord chunk address) : chunk.Covers address := by
  unfold HeaderWord at h
  unfold Chunk.Covers Chunk.finish sizeofBlock
  omega

section

variable {words words' : View} {chunk : Chunk} {blocks : List Chunk}
  {last next : Nat}

@[simp] theorem headPointer_append (before after : List Chunk) (last : Nat) :
    headPointer (before ++ after) last =
      headPointer before (headPointer after last) := by
  cases before <;> rfl

theorem headers_append {before after : List Chunk} :
    Headers words (before ++ after) last ↔
      Headers words before (headPointer after last) ∧
        Headers words after last := by
  induction before with
  | nil => simp [Headers]
  | cons first rest ih =>
      rw [List.cons_append, Headers, Headers, ih, headPointer_append, and_assoc]

@[simp] theorem lastPointer_concat (previous : Nat) (before : List Chunk)
    (chunk : Chunk) :
    lastPointer previous (before ++ [chunk]) = chunk.address := by
  induction before generalizing previous with
  | nil => rfl
  | cons first rest ih => exact ih first.address

theorem Header.congr (header : Header words chunk next)
    (h : ∀ address, HeaderWord chunk address →
      words' address = words address) : Header words' chunk next := by
  refine ⟨?_, ?_, ?_⟩
  · rw [h _ (.inl rfl)]
    exact header.size
  · rw [h _ (.inr (.inl rfl))]
    exact header.free
  · rw [h _ (.inr (.inr rfl))]
    exact header.next

theorem Headers.congr (headers : Headers words blocks last)
    (h : ∀ chunk ∈ blocks, ∀ address, HeaderWord chunk address →
      words' address = words address) : Headers words' blocks last := by
  induction blocks with
  | nil => trivial
  | cons first rest ih =>
      exact ⟨headers.1.congr (h first (List.mem_cons_self ..)),
        ih headers.2 fun other hmem => h other (List.mem_cons_of_mem _ hmem)⟩

theorem Headers.header {before after : List Chunk}
    (headers : Headers words (before ++ chunk :: after) last) :
    Header words chunk (headPointer after last) :=
  (headers_append.mp headers).2.1

end

section

variable {platform : Platform} {image : KernelImage platform}
  {state : HeapState} {chunk : Chunk} {next : Nat}

theorem Header.poolWord (header : Header (state.view image) chunk next) :
    PoolWord chunk.address := by
  obtain ⟨word, hword, _⟩ := header.size
  exact poolWord_of_view hword

theorem Header.address_ne_zero
    (header : Header (state.view image) chunk next) : chunk.address ≠ 0 := by
  have hfirst := header.poolWord.1
  unfold VirtualMemory.virtualMemoryStart at hfirst
  omega

theorem Header.run_loadSize (header : Header (state.view image) chunk next) :
    (loadSize image chunk.address).run state = .ok (chunk.size, state) := by
  obtain ⟨word, hword, hsize⟩ := header.size
  rw [← hsize]
  exact KernelHeapAllocator.run_loadSize hword

theorem Header.run_loadFree (header : Header (state.view image) chunk next) :
    (loadFree image chunk.address).run state = .ok (chunk.free, state) := by
  obtain ⟨word, hword, hfree⟩ := header.free
  rw [← hfree]
  exact KernelHeapAllocator.run_loadFree hword

theorem Header.run_loadNext (header : Header (state.view image) chunk next) :
    (loadNext image chunk.address).run state = .ok (next, state) := by
  obtain ⟨word, hword, hnext⟩ := header.next
  rw [← hnext]
  exact KernelHeapAllocator.run_loadNext hword

end

/-! The loops over the list. -/

def Fits (size : Nat) (chunk : Chunk) : Prop :=
  chunk.free = true ∧ size ≤ chunk.size

instance (size : Nat) (chunk : Chunk) : Decidable (Fits size chunk) :=
  inferInstanceAs (Decidable (_ ∧ _))

def firstFit (size previous : Nat) : List Chunk → Nat × Nat
  | [] => (previous, 0)
  | chunk :: rest =>
    if Fits size chunk then (previous, chunk.address)
    else firstFit size chunk.address rest

theorem firstFit_cases (size previous : Nat) (blocks : List Chunk) :
    (firstFit size previous blocks = (lastPointer previous blocks, 0) ∧
      ∀ chunk ∈ blocks, ¬ Fits size chunk) ∨
    ∃ before chunk after, blocks = before ++ chunk :: after ∧
      firstFit size previous blocks =
        (lastPointer previous before, chunk.address) ∧
      Fits size chunk ∧ ∀ other ∈ before, ¬ Fits size other := by
  induction blocks generalizing previous with
  | nil => exact .inl ⟨rfl, by simp⟩
  | cons first rest ih =>
      unfold firstFit
      by_cases hfits : Fits size first
      · rw [if_pos hfits]
        exact .inr ⟨[], first, rest, rfl, rfl, hfits, by simp⟩
      · rw [if_neg hfits]
        rcases ih first.address with
          ⟨heq, hnone⟩ | ⟨before, chunk, after, rfl, heq, hchunk, hbefore⟩
        · exact .inl ⟨heq, List.forall_mem_cons.mpr ⟨hfits, hnone⟩⟩
        · exact .inr ⟨first :: before, chunk, after, rfl, heq, hchunk,
            List.forall_mem_cons.mpr ⟨hfits, hbefore⟩⟩

theorem firstFit_append {size : Nat} {before after : List Chunk}
    {chunk : Chunk} (previous : Nat)
    (hbefore : ∀ other ∈ before, ¬ Fits size other) (hfits : Fits size chunk) :
    firstFit size previous (before ++ chunk :: after) =
      (lastPointer previous before, chunk.address) := by
  induction before generalizing previous with
  | nil => exact if_pos hfits
  | cons first rest ih =>
      rw [List.forall_mem_cons] at hbefore
      exact (if_neg hbefore.1).trans (ih first.address hbefore.2)

section

variable {platform : Platform} {image : KernelImage platform}
  {state : HeapState}

theorem run_searchBlock_end (size previous : Nat) :
    (searchBlock image size (previous, 0)).run state =
      .ok (.inr (previous, 0), state) := rfl

theorem run_blockFits {chunk : Chunk} {next : Nat}
    (header : Header (state.view image) chunk next) (size : Nat) :
    (blockFits image size chunk.address).run state =
      .ok (decide (Fits size chunk), state) := by
  unfold blockFits Fits
  rw [run_bind_ok header.run_loadFree]
  by_cases hfree : chunk.free = true
  · rw [if_pos hfree]
    simp only [hfree, true_and]
    exact run_bind_ok header.run_loadSize _
  · rw [if_neg hfree]
    simp only [hfree]
    rfl

theorem run_searchBlock {chunk : Chunk} {next : Nat}
    (header : Header (state.view image) chunk next) (size previous : Nat) :
    (searchBlock image size (previous, chunk.address)).run state =
      .ok (if Fits size chunk then .inr (previous, chunk.address)
        else .inl (chunk.address, next), state) := by
  unfold searchBlock
  simp only
  rw [if_neg header.address_ne_zero, run_bind_ok (run_blockFits header size)]
  by_cases h : Fits size chunk
  · rw [if_pos h, if_pos (decide_eq_true h)]
    rfl
  · rw [if_neg h, if_neg (by simp [h])]
    exact run_bind_ok header.run_loadNext _

theorem search_returns (size : Nat) (blocks : List Chunk)
    (headers : Headers (state.view image) blocks 0) (previous : Nat) :
    Returns .budgetExhausted
      (fun budget => whileLoop .budgetExhausted (searchBlock image size) budget
        (previous, headPointer blocks 0)) state blocks.length
      (firstFit size previous blocks, state) := by
  induction blocks generalizing previous with
  | nil => exact returns_whileLoop_leave (run_searchBlock_end size previous) _
  | cons first rest ih =>
      have hbody := run_searchBlock headers.1 size previous
      unfold firstFit
      by_cases hfits : Fits size first
      · rw [if_pos hfits] at hbody ⊢
        exact returns_whileLoop_leave hbody _
      · rw [if_neg hfits] at hbody ⊢
        exact returns_whileLoop_next hbody (ih headers.2 first.address)

theorem uint64_eq {value : Nat} (h : value < 2 ^ 64) : uint64 value = value :=
  Nat.mod_eq_of_lt h

theorem run_absorbNext {chunk : Chunk} {next : Nat}
    (header : Header (state.view image) chunk next) {block gained : Nat}
    (hgained : block + sizeofBlock + gained < 2 ^ 64)
    (hfinish : chunk.finish < 2 ^ 64) :
    (absorbNext image block (gained, chunk.address)).run state =
      .ok (if chunk.free = true ∧
          chunk.address = block + sizeofBlock + gained then
        .inl (gained + sizeofBlock + chunk.size, next)
      else .inr (gained, chunk.address), state) := by
  unfold absorbNext
  simp only
  rw [if_neg header.address_ne_zero, run_bind_ok header.run_loadFree,
    uint64_eq hgained]
  cases chunk.free with
  | false => rfl
  | true =>
      simp only [Bool.not_true, Bool.false_eq_true, if_false, true_and]
      by_cases hadjacent : chunk.address = block + sizeofBlock + gained
      · have hsum : uint64 (gained + (sizeofBlock + chunk.size)) =
            gained + sizeofBlock + chunk.size := by
          rw [← Nat.add_assoc]
          apply uint64_eq
          unfold Chunk.finish at hfinish
          omega
        rw [if_neg (not_not.mpr hadjacent), if_pos hadjacent,
          run_bind_ok header.run_loadSize, hsum]
        exact run_bind_ok header.run_loadNext _
      · rw [if_pos hadjacent, if_neg hadjacent]
        rfl

theorem absorb_returns {block : Nat} {blocks : List Chunk}
    (headers : Headers (state.view image) blocks 0)
    (hfinish : ∀ chunk ∈ blocks, chunk.finish < 2 ^ 64) {gained : Nat}
    (hgained : block + sizeofBlock + gained < 2 ^ 64) :
    Returns .budgetExhausted
      (fun budget => whileLoop .budgetExhausted (absorbNext image block)
        budget (gained, headPointer blocks 0)) state blocks.length
      (((absorb block gained blocks).1,
        headPointer (absorb block gained blocks).2 0), state) := by
  induction blocks generalizing gained with
  | nil => exact returns_whileLoop_leave rfl _
  | cons first rest ih =>
      rw [List.forall_mem_cons] at hfinish
      have hbody := run_absorbNext headers.1 hgained hfinish.1
      unfold absorb
      by_cases htaken : first.free = true ∧
          first.address = block + sizeofBlock + gained
      · rw [if_pos htaken] at hbody ⊢
        refine returns_whileLoop_next hbody (ih headers.2 hfinish.2 ?_)
        have hfirst := hfinish.1
        unfold Chunk.finish at hfirst
        omega
      · rw [if_neg htaken] at hbody ⊢
        exact returns_whileLoop_leave hbody _

theorem find_returns {before after : List Chunk} {chunk : Chunk}
    (headers : Headers (state.view image) (before ++ chunk :: after) 0)
    (hapart : ∀ other ∈ before, other.address ≠ chunk.address)
    (previous : Nat) :
    Returns .budgetExhausted
      (fun budget => whileLoop .budgetExhausted
        (findBlock image chunk.address) budget
        (previous, headPointer (before ++ chunk :: after) 0)) state
      before.length (lastPointer previous before, state) := by
  induction before generalizing previous with
  | nil =>
      apply returns_whileLoop_leave
      unfold findBlock
      simp only
      rw [if_neg (fun h => h.2 rfl)]
      rfl
  | cons first rest ih =>
      have hcontinue : first.address ≠ 0 ∧ first.address ≠ chunk.address :=
        ⟨headers.1.address_ne_zero, hapart first (List.mem_cons_self ..)⟩
      refine returns_whileLoop_next ?_ (ih headers.2
        (fun other hmem => hapart other (List.mem_cons_of_mem _ hmem))
        first.address)
      unfold findBlock
      simp only
      rw [List.cons_append, headPointer, if_pos hcontinue]
      exact run_bind_ok headers.1.run_loadNext _

end

end Planetoid.Memory
