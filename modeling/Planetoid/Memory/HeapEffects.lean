import Planetoid.Memory.HeapHeaders

namespace Planetoid.Memory

open Planetoid Program VirtualMemory KernelHeapAllocator

/-! What `allocate_from_block` and `kfree` do to the words of the heap. -/

def Backed (words : View) (chunk : Chunk) : Prop :=
  ∀ address, chunk.Covers address → address % 8 = 0 →
    ∃ word, words address = some word

theorem header_of_words {words : View} {address size next : Nat}
    {flags : BitVec 64} {free : Bool}
    (hsize : words address = some (BitVec.ofNat 64 size))
    (hflags : words (address + 8) = some flags)
    (hfree : (byteOf flags 0 != 0) = free)
    (hnext : words (address + 16) = some (BitVec.ofNat 64 next))
    (hsizeBound : size < 2 ^ 64) (hnextBound : next < 2 ^ 64) :
    Header words ⟨address, size, free⟩ next where
  size := ⟨_, hsize, by
    rw [BitVec.toNat_ofNat, Nat.mod_eq_of_lt hsizeBound]⟩
  free := ⟨flags, hflags, hfree⟩
  next := ⟨_, hnext, by
    rw [BitVec.toNat_ofNat, Nat.mod_eq_of_lt hnextBound]⟩

theorem byteOf_flag (word : BitVec 64) (flag : Bool) :
    (byteOf (setByte word 0 (if flag then 1 else 0)) 0 != 0) = flag := by
  rw [byteOf_setByte word (by decide)]
  cases flag <;> rfl

def splitAddress (chunk : Chunk) (size : Nat) : Nat :=
  chunk.address + sizeofBlock + size

/-- The stores of `splitBlock`, which leaves `rest` bytes behind the block. -/
def splitWords (words : View) (chunk : Chunk) (size next rest : Nat) : View :=
  (((((words.setFlag (chunk.address + 8) 0 false).setWord
    chunk.address size).setWord
    (chunk.address + 16) (splitAddress chunk size)).setWord
    (splitAddress chunk size) rest).setFlag
    (splitAddress chunk size + 8) 0 true).setWord
    (splitAddress chunk size + 16) next

def allocateWords (words : View) (chunk : Chunk) (size next : Nat) : View :=
  if chunk.size ≥ size + sizeofBlock + 8 then
    splitWords words chunk size next (chunk.size - size - sizeofBlock)
  else words.setFlag (chunk.address + 8) 0 false

section

variable {platform : Platform} {image : KernelImage platform}
  {state : HeapState} {chunk : Chunk} {next : Nat}

theorem toNat_pointer {address : Nat} (h : PoolWord address) :
    (BitVec.ofNat 64 address).toNat = address := by
  obtain ⟨_, hlast, _⟩ := h
  unfold virtualMemoryEnd at hlast
  rw [BitVec.toNat_ofNat]
  omega

theorem run_splitBlock (sound : Sound image state.memory none)
    (header : Header (state.view image) chunk next) {size rest : Nat}
    (hplaces : ∀ offset, offset ≤ 16 → offset % 8 = 0 →
      ∃ word, state.view image (splitAddress chunk size + offset) = some word)
    (hrestSize : uint64 (chunk.size + 2 ^ 64 - size - sizeofBlock) = rest) :
    ∃ after, (splitBlock image chunk.address size).run state =
        .ok ((), after) ∧
      Stores image state after
        (splitWords (state.view image) chunk size next rest) := by
  obtain ⟨size₀, hsize₀, _⟩ := header.size
  obtain ⟨flags, hflags, _⟩ := header.free
  obtain ⟨next₀, hnext₀, _⟩ := header.next
  have hsplit : chunk.address + sizeofBlock + size = splitAddress chunk size :=
    rfl
  obtain ⟨restWord, hrest⟩ := hplaces 0 (by decide) (by decide)
  obtain ⟨restFlags, hrestFlags⟩ := hplaces 8 (by decide) (by decide)
  obtain ⟨restNext, hrestNext⟩ := hplaces 16 (by decide) (by decide)
  have hpointer := toNat_pointer (poolWord_of_view hrest)
  rw [Nat.add_zero] at hrest hpointer
  -- the six words are at different addresses
  have hlow : chunk.address + 24 ≤ splitAddress chunk size := by
    unfold splitAddress sizeofBlock
    omega
  unfold splitBlock
  rw [run_bind_ok header.run_loadSize, run_bind_ok header.run_loadNext,
    hrestSize]
  obtain ⟨first, hfirst, stores₁⟩ :=
    run_storeFree sound (Stores.refl state) hflags false
  rw [run_bind_ok hfirst]
  obtain ⟨second, hsecond, stores₂⟩ := run_storeSize sound stores₁
    ((View.setFlag_of_ne _ (by omega) _ _).trans hsize₀) size
  rw [run_bind_ok hsecond]
  obtain ⟨third, hthird, stores₃⟩ := run_storeNext sound stores₂
    ((View.setWord_of_ne _ (by omega) _).trans
      ((View.setFlag_of_ne _ (by omega) _ _).trans hnext₀))
    (splitAddress chunk size)
  rw [hsplit, run_bind_ok hthird]
  have hload : ∀ {mid : HeapState} {words : View},
      Stores image state mid words →
      words (chunk.address + 16) =
        some (BitVec.ofNat 64 (splitAddress chunk size)) →
      (loadNext image chunk.address).run mid =
        .ok (splitAddress chunk size, mid) := by
    intro mid words stores h
    rw [← stores.view] at h
    rw [KernelHeapAllocator.run_loadNext h, hpointer]
  rw [run_bind_ok (hload stores₃ (View.setWord_self ..))]
  obtain ⟨fourth, hfourth, stores₄⟩ := run_storeSize sound stores₃
    ((View.setWord_of_ne _ (by omega) _).trans
      ((View.setWord_of_ne _ (by omega) _).trans
        ((View.setFlag_of_ne _ (by omega) _ _).trans hrest)))
    rest
  rw [run_bind_ok hfourth, run_bind_ok (hload stores₄
    ((View.setWord_of_ne _ (by omega) _).trans (View.setWord_self ..)))]
  obtain ⟨fifth, hfifth, stores₅⟩ := run_storeFree sound stores₄
    ((View.setWord_of_ne _ (by omega) _).trans
      ((View.setWord_of_ne _ (by omega) _).trans
        ((View.setWord_of_ne _ (by omega) _).trans
          ((View.setFlag_of_ne _ (by omega) _ _).trans hrestFlags)))) true
  rw [run_bind_ok hfifth, run_bind_ok (hload stores₅
    ((View.setFlag_of_ne _ (by omega) _ _).trans
      ((View.setWord_of_ne _ (by omega) _).trans (View.setWord_self ..))))]
  exact run_storeNext sound stores₅
    ((View.setFlag_of_ne _ (by omega) _ _).trans
      ((View.setWord_of_ne _ (by omega) _).trans
        ((View.setWord_of_ne _ (by omega) _).trans
          ((View.setWord_of_ne _ (by omega) _).trans
            ((View.setFlag_of_ne _ (by omega) _ _).trans hrestNext))))) next

theorem run_allocateFromBlock (sound : Sound image state.memory none)
    (header : Header (state.view image) chunk next)
    (backed : Backed (state.view image) chunk) {size : Nat}
    (hfits : Fits size chunk) (haligned : size % 8 = 0) :
    ∃ after, (allocateFromBlock image chunk.address size).run state =
        .ok (chunk.payload, after) ∧
      Stores image state after
        (allocateWords (state.view image) chunk size next) := by
  obtain ⟨hfree, hsize⟩ := hfits
  have hload := header.run_loadFree
  rw [hfree] at hload
  unfold allocateFromBlock allocateWords
  rw [if_neg header.address_ne_zero, run_bind_ok hload]
  simp only [Bool.not_true, Bool.false_eq_true, if_false]
  rw [run_bind_ok header.run_loadSize, if_neg (Nat.not_lt.mpr hsize),
    run_bind_ok header.run_loadSize]
  by_cases hroom : chunk.size ≥ size + sizeofBlock + 8
  · rw [if_pos hroom, if_pos hroom]
    obtain ⟨_, _, hchunk⟩ := header.poolWord
    have hplaces : ∀ offset, offset ≤ 16 → offset % 8 = 0 →
        ∃ word, state.view image (splitAddress chunk size + offset) =
          some word := by
      intro offset hoffset hmod
      apply backed
      · unfold Chunk.Covers Chunk.finish splitAddress sizeofBlock at *
        omega
      · unfold splitAddress sizeofBlock
        omega
    have hrest : uint64 (chunk.size + 2 ^ 64 - size - sizeofBlock) =
        chunk.size - size - sizeofBlock := by
      obtain ⟨word, _, heq⟩ := header.size
      have hlt := word.isLt
      unfold uint64
      unfold sizeofBlock at *
      omega
    obtain ⟨after, hrun, stores⟩ := run_splitBlock sound header hplaces hrest
    exact ⟨after, run_bind_ok hrun _, stores⟩
  · rw [if_neg hroom, if_neg hroom]
    obtain ⟨flags, hflags, _⟩ := header.free
    obtain ⟨after, hrun, stores⟩ :=
      run_storeFree sound (Stores.refl state) hflags false
    exact ⟨after, run_bind_ok hrun _, stores⟩

end

section

variable {words : View} {pages : List Nat} {before after : List Chunk}
  {chunk : Chunk}

def InPool (pages : List Nat) : Prop :=
  ∀ page ∈ pages, page + pageSize ≤ virtualMemoryEnd

theorem Tiling.finish_lt (tiling : Tiling pages before)
    (hpool : InPool pages) (hmem : chunk ∈ before) :
    chunk.finish < 2 ^ 64 := by
  have hpositive : chunk.address < chunk.finish := chunk.covers_address.2
  obtain ⟨page, hpage, _, hhigh⟩ := tiling.inside chunk hmem
    (chunk.finish - 1) ⟨by omega, by omega⟩
  have hend := hpool page hpage
  unfold virtualMemoryEnd at hend
  omega

theorem allocateWords_of_not_covers {size next address : Nat}
    (hsize : size ≤ chunk.size) (h : ¬ chunk.Covers address) :
    allocateWords words chunk size next address = words address := by
  unfold Chunk.Covers Chunk.finish sizeofBlock at h
  unfold allocateWords
  split
  · rename_i hroom
    unfold splitWords splitAddress
    unfold sizeofBlock at *
    rw [View.setWord_of_ne _ (by omega), View.setFlag_of_ne _ (by omega),
      View.setWord_of_ne _ (by omega), View.setWord_of_ne _ (by omega),
      View.setWord_of_ne _ (by omega), View.setFlag_of_ne _ (by omega)]
  · rw [View.setFlag_of_ne _ (by omega)]

theorem headers_place {size next : Nat}
    (header : Header words chunk next) (backed : Backed words chunk)
    (hfinish : chunk.finish < 2 ^ 64) (hsize : size ≤ chunk.size)
    (haligned : chunk.address % 8 = 0 ∧ size % 8 = 0) :
    Headers (allocateWords words chunk size next) (place chunk size) next := by
  obtain ⟨flags, hflags, _⟩ := header.free
  unfold allocateWords place
  unfold Chunk.finish at hfinish
  by_cases hroom : chunk.size ≥ size + sizeofBlock + 8
  · rw [if_pos hroom, if_pos hroom]
    have hsplit : splitAddress chunk size =
        chunk.address + sizeofBlock + size := rfl
    have hlow : chunk.address + 24 ≤ splitAddress chunk size := by
      unfold splitAddress sizeofBlock
      omega
    obtain ⟨restFlags, hrestFlags⟩ :=
      backed (splitAddress chunk size + 8)
        (by
          unfold Chunk.Covers Chunk.finish splitAddress sizeofBlock at *
          omega)
        (by
          unfold splitAddress sizeofBlock
          omega)
    have hnext : next < 2 ^ 64 := by
      obtain ⟨word, _, rfl⟩ := header.next
      exact word.isLt
    refine ⟨?_, ?_, trivial⟩
    · refine @header_of_words _ _ _ _
        (setByte flags 0 (if false then 1 else 0)) _ ?_ ?_
        (byteOf_flag flags false) ?_ (by omega) ?_
      · unfold splitWords
        rw [View.setWord_of_ne _ (by omega), View.setFlag_of_ne _ (by omega),
          View.setWord_of_ne _ (by omega), View.setWord_of_ne _ (by omega),
          View.setWord_self]
      · unfold splitWords
        rw [View.setWord_of_ne _ (by omega), View.setFlag_of_ne _ (by omega),
          View.setWord_of_ne _ (by omega), View.setWord_of_ne _ (by omega),
          View.setWord_of_ne _ (by omega), View.setFlag_self _ hflags]
      · unfold splitWords
        rw [View.setWord_of_ne _ (by omega), View.setFlag_of_ne _ (by omega),
          View.setWord_of_ne _ (by omega), View.setWord_self]
        rfl
      · change splitAddress chunk size < 2 ^ 64
        omega
    · refine @header_of_words _ _ _ _
        (setByte restFlags 0 (if true then 1 else 0)) _ ?_ ?_
        (byteOf_flag restFlags true) ?_ (by omega) hnext
      · change splitWords words chunk size next _ (splitAddress chunk size) = _
        unfold splitWords
        rw [View.setWord_of_ne _ (by omega), View.setFlag_of_ne _ (by omega),
          View.setWord_self]
      · change splitWords words chunk size next _
          (splitAddress chunk size + 8) = _
        unfold splitWords
        rw [View.setWord_of_ne _ (by omega)]
        apply View.setFlag_self
        rw [View.setWord_of_ne _ (by omega), View.setWord_of_ne _ (by omega),
          View.setWord_of_ne _ (by omega), View.setFlag_of_ne _ (by omega),
          hrestFlags]
      · change splitWords words chunk size next _
          (splitAddress chunk size + 16) = _
        unfold splitWords
        rw [View.setWord_self]
        rfl
  · rw [if_neg hroom, if_neg hroom]
    refine ⟨⟨?_, ?_, ?_⟩, trivial⟩
    · rw [View.setFlag_of_ne _ (by simp)]
      exact header.size
    · exact ⟨_, View.setFlag_self _ hflags 0 false, byteOf_flag flags false⟩
    · rw [View.setFlag_of_ne _ (by simp)]
      exact header.next

theorem headers_allocate (tiling : Tiling pages (before ++ chunk :: after))
    (hpool : InPool pages)
    (headers : Headers words (before ++ chunk :: after) 0)
    (backed : Backed words chunk) {size : Nat} (hsize : size ≤ chunk.size)
    (haligned : size % 8 = 0) :
    Headers (allocateWords words chunk size (headPointer after 0))
      (before ++ place chunk size ++ after) 0 := by
  have hmem : chunk ∈ before ++ chunk :: after := by simp
  have hplace := headers_place headers.header backed
    (tiling.finish_lt hpool hmem) hsize ⟨(tiling.aligned chunk hmem).1, haligned⟩
  have hkept : ∀ other, (other ∈ before ∨ other ∈ after) →
      ∀ address, HeaderWord other address →
      allocateWords words chunk size (headPointer after 0) address =
        words address := by
    intro other hother address hword
    apply allocateWords_of_not_covers hsize
    exact fun hin => tiling.apart_of_split hother address hin
      (Chunk.covers_of_headerWord hword)
  have hhead : headPointer (place chunk size) (headPointer after 0) =
      chunk.address := by
    unfold place
    split <;> rfl
  obtain ⟨hbefore, _, hafter⟩ := headers_append.mp headers
  rw [headers_append, headers_append, hhead]
  exact ⟨⟨hbefore.congr fun other hother => hkept other (.inl hother),
    hplace⟩, hafter.congr fun other hother => hkept other (.inr hother)⟩

end

end Planetoid.Memory
