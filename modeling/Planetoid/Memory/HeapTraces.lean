import Planetoid.Memory.FreeFrames
import Planetoid.Memory.HeapInvariant

namespace Planetoid.Memory

open Planetoid Program VirtualMemory KernelHeapAllocator

/-! Runs of which the layout is known step by step. -/

def HoldsByte (words : View) (place : Nat) (byte : BitVec 8) : Prop :=
  ∃ word, words (place - place % 8) = some word ∧
    byteOf word (place % 8) = byte

structure Staged {platform : Platform} (image : KernelImage platform)
    (run : HeapRun) (memory : MemoryState) (blocks : List Chunk)
    (live : List Nat) (bytes : List (Nat × BitVec 8)) : Prop where
  arranged : Arranged image run.heap ⟨blocks, []⟩
  memory : run.heap.memory = memory
  live : run.live = live
  bytes : ∀ pair ∈ bytes, HoldsByte (run.heap.view image) pair.1 pair.2

section

variable {words words' : View} {place : Nat} {byte : BitVec 8}

theorem HoldsByte.congr (h : HoldsByte words place byte)
    (heq : words' (place - place % 8) = words (place - place % 8)) :
    HoldsByte words' place byte := by
  unfold HoldsByte
  rw [heq]
  exact h

theorem HoldsByte.setFlag (h : HoldsByte words place byte)
    (hplace : place % 8 ≠ 0) (address : Nat) (flag : Bool) :
    HoldsByte (words.setFlag address 0 flag) place byte := by
  obtain ⟨word, hword, hbyte⟩ := h
  by_cases heq : place - place % 8 = address
  · subst heq
    refine ⟨_, View.setFlag_self _ hword 0 flag, ?_⟩
    rw [byteOf_setByte_of_ne word (Nat.mod_lt _ (by decide)) hplace]
    exact hbyte
  · exact ⟨word, (View.setFlag_of_ne _ heq 0 flag).trans hword, hbyte⟩

theorem HoldsByte.setWord (h : HoldsByte words place byte) {address : Nat}
    (hne : place - place % 8 ≠ address) (value : Nat) :
    HoldsByte (words.setWord address value) place byte :=
  h.congr (View.setWord_of_ne _ hne value)

theorem HoldsByte.store (h : HoldsByte words place byte) {address : Nat}
    {word : BitVec 64} (hword : words (address - address % 8) = some word)
    (hne : place ≠ address) (value : BitVec 8) :
    HoldsByte (Function.update words (address - address % 8)
      (some (setByte word (address % 8) value))) place byte := by
  by_cases heq : place - place % 8 = address - address % 8
  · obtain ⟨old, hold, hbyte⟩ := h
    rw [heq, hword] at hold
    obtain rfl := Option.some.inj hold
    refine ⟨setByte word (address % 8) value, ?_, ?_⟩
    · rw [heq]
      exact Function.update_self ..
    · rw [byteOf_setByte_of_ne word (Nat.mod_lt _ (by decide)) (by omega)]
      exact hbyte
  · exact h.congr (Function.update_of_ne heq ..)

def SplitWord (chunk : Chunk) (size address : Nat) : Prop :=
  chunk.size ≥ size + sizeofBlock + 8 ∧
    (address = chunk.address ∨ address = chunk.address + 16 ∨
      address = splitAddress chunk size ∨
      address = splitAddress chunk size + 16)

instance (chunk : Chunk) (size address : Nat) :
    Decidable (SplitWord chunk size address) :=
  inferInstanceAs (Decidable (_ ∧ _))

instance (chunk : Chunk) (address : Nat) :
    Decidable (LinkWord chunk address) :=
  inferInstanceAs (Decidable (_ ∨ _))

instance (first count address : Nat) : Decidable (InRun first count address) :=
  inferInstanceAs (Decidable (_ ∧ _))

theorem HoldsByte.allocateWords {chunk : Chunk} {size next : Nat}
    (h : HoldsByte words place byte) (hplace : place % 8 ≠ 0)
    (hout : ¬ SplitWord chunk size (place - place % 8)) :
    HoldsByte (allocateWords words chunk size next) place byte := by
  unfold SplitWord at hout
  unfold Memory.allocateWords
  split
  · rename_i hroom
    have hword := fun h => hout ⟨hroom, h⟩
    unfold splitWords
    refine HoldsByte.setWord (.setFlag (.setWord (.setWord (.setWord
      (.setFlag h hplace _ _) ?_ _) ?_ _) ?_ _) hplace _ _) ?_ _
    all_goals omega
  · exact h.setFlag hplace _ _

end

section

variable {platform : Platform} {image : KernelImage platform}
  {run : HeapRun} {memory : MemoryState} {blocks before rest : List Chunk}
  {chunk : Chunk} {live : List Nat} {bytes : List (Nat × BitVec 8)}
  {size : Nat}

theorem Staged.weaken (staged : Staged image run memory blocks live bytes)
    {fewer : List (Nat × BitVec 8)} (h : fewer ⊆ bytes) :
    Staged image run memory blocks live fewer :=
  ⟨staged.arranged, staged.memory, staged.live,
    fun pair hmem => staged.bytes pair (h hmem)⟩

/-- A size that `kmalloc` serves from the list, and does not round. -/
def Small (size : Nat) : Prop :=
  size ≠ 0 ∧ size % 8 = 0 ∧ size ≤ pageSize - sizeofBlock

instance (size : Nat) : Decidable (Small size) :=
  inferInstanceAs (Decidable (_ ∧ _))

theorem kmalloc_of_small (h : Small size) (budget : Nat) :
    kmalloc image budget size = allocateSmall image budget size := by
  obtain ⟨hne, haligned, hle⟩ := h
  have halign : alignSize size = size := by
    unfold alignSize uint64
    unfold pageSize sizeofBlock at hle
    simp only
    omega
  have hfits : alignSize size ≤ pageSize - sizeofBlock := by
    rw [halign]
    exact hle
  rw [kmalloc_eq_allocateSmall hne hfits budget, halign]

theorem Staged.run_kmalloc (staged : Staged image run memory blocks live bytes)
    (hsize : Small size) (hblocks : blocks = before ++ chunk :: rest)
    (hbefore : ∀ other ∈ before, ¬ Fits size other) (hfits : Fits size chunk)
    (hbytes : ∀ pair ∈ bytes, pair.1 % 8 ≠ 0 ∧
      ¬ SplitWord chunk size (pair.1 - pair.1 % 8)) :
    ∃ after, (KernelHeapAllocator.kmalloc image (blocks.length + 1) size).run
        run.heap = .ok (chunk.payload, after) ∧
      Staged image ⟨after, chunk.payload :: run.live⟩ memory
        (before ++ place chunk size ++ rest) (chunk.payload :: live) bytes := by
  obtain ⟨after, hreturns, harranged, stores⟩ :=
    staged.arranged.serve hblocks hbefore hfits hsize.2.1
  refine ⟨after, ?_, harranged, stores.memory.trans staged.memory,
    congrArg _ staged.live, ?_⟩
  · rw [kmalloc_of_small hsize]
    exact hreturns.run_eq (Nat.lt_succ_self _)
  intro pair hmem
  obtain ⟨hplace, hout⟩ := hbytes pair hmem
  change HoldsByte (after.view image) pair.1 pair.2
  rw [stores.view]
  exact (staged.bytes pair hmem).allocateWords hplace hout

theorem Staged.kmalloc (staged : Staged image run memory blocks live bytes)
    (hsize : Small size) (hblocks : blocks = before ++ chunk :: rest)
    (hbefore : ∀ other ∈ before, ¬ Fits size other) (hfits : Fits size chunk)
    (hbytes : ∀ pair ∈ bytes, pair.1 % 8 ≠ 0 ∧
      ¬ SplitWord chunk size (pair.1 - pair.1 % 8)) :
    ∃ after, HeapStep image run (.kmalloc size) after ∧
      Staged image after memory (before ++ place chunk size ++ rest)
        (chunk.payload :: live) bytes := by
  obtain ⟨after, hcall, hstaged⟩ :=
    staged.run_kmalloc hsize hblocks hbefore hfits hbytes
  have step := HeapStep.kmalloc hcall
  rw [if_neg chunk.payload_ne_zero] at step
  exact ⟨_, step, hstaged⟩

theorem Staged.run_loadLarge
    (staged : Staged image run memory blocks live bytes)
    (hmem : chunk ∈ blocks) {byte : BitVec 8}
    (hlarge : (chunk.address + 9, byte) ∈ bytes) :
    (loadLarge image chunk.address).run run.heap =
      .ok (byte != 0, run.heap) := by
  obtain ⟨word, hword, hbyte⟩ := staged.bytes _ hlarge
  have haligned : chunk.address % 8 = 0 :=
    (staged.arranged.tiling.aligned chunk hmem).1
  have hplace : chunk.address + 9 - (chunk.address + 9) % 8 =
      chunk.address + 8 ∧ (chunk.address + 9) % 8 = 1 := by
    omega
  rw [hplace.1] at hword
  rw [hplace.2] at hbyte
  rw [KernelHeapAllocator.run_loadLarge hword, hbyte]

theorem Staged.run_kfree (staged : Staged image run memory blocks live bytes)
    (hblocks : blocks = before ++ chunk :: rest)
    (hclear : (chunk.address + 9, 0) ∈ bytes)
    (hbytes : ∀ pair ∈ bytes, pair.1 % 8 ≠ 0 ∧
      ∀ other ∈ before ++ [chunk],
        ¬ LinkWord other (pair.1 - pair.1 % 8)) :
    ∃ after, (KernelHeapAllocator.kfree image (blocks.length + 1)
        chunk.payload).run run.heap = .ok ((), after) ∧
      Staged image ⟨after, run.live.erase chunk.payload⟩ memory
        (release before chunk rest) (live.erase chunk.payload) bytes := by
  obtain ⟨after, hreturns, harranged, hmemory, hframe⟩ :=
    staged.arranged.freeSmall hblocks
  have hload := staged.run_loadLarge (by simp [hblocks]) hclear
  have hcall : (KernelHeapAllocator.kfree image (blocks.length + 1)
      chunk.payload).run run.heap = .ok ((), after) := by
    unfold KernelHeapAllocator.kfree
    rw [if_neg chunk.payload_ne_zero]
    simp only [Chunk.payload_sub]
    rw [run_bind_ok hload, if_neg (by decide)]
    exact hreturns.run_eq (Nat.lt_succ_self _)
  refine ⟨after, hcall, harranged, hmemory.trans staged.memory,
    congrArg (List.erase · chunk.payload) staged.live, ?_⟩
  intro pair hmem
  obtain ⟨hodd, hout⟩ := hbytes pair hmem
  exact ((staged.bytes pair hmem).setFlag hodd _ true).congr (hframe _ hout)

theorem Staged.kfree (staged : Staged image run memory blocks live bytes)
    (hblocks : blocks = before ++ chunk :: rest)
    (hlive : chunk.payload ∈ live) (hclear : (chunk.address + 9, 0) ∈ bytes)
    (hbytes : ∀ pair ∈ bytes, pair.1 % 8 ≠ 0 ∧
      ∀ other ∈ before ++ [chunk],
        ¬ LinkWord other (pair.1 - pair.1 % 8)) :
    ∃ after, HeapStep image run (.kfree chunk.payload) after ∧
      Staged image after memory (release before chunk rest)
        (live.erase chunk.payload) bytes := by
  obtain ⟨after, hcall, hstaged⟩ := staged.run_kfree hblocks hclear hbytes
  rw [← staged.live] at hlive
  exact ⟨_, .kfree hlive hcall, hstaged⟩

theorem Staged.run_store (staged : Staged image run memory blocks live bytes)
    (hmem : chunk ∈ blocks) (htaken : chunk.free = false) {address : Nat}
    (hlow : chunk.payload ≤ address) (hhigh : address < chunk.finish)
    (hbytes : ∀ pair ∈ bytes, pair.1 ≠ address) (byte : BitVec 8) :
    ∃ after, (storeByte image address byte).run run.heap = .ok ((), after) ∧
      Staged image ⟨after, run.live⟩ memory blocks live
        ((address, byte) :: bytes) := by
  have hholds : (⟨blocks, []⟩ : Layout).Holds chunk := .inl ⟨hmem, htaken⟩
  obtain ⟨after, word, hrun, harranged, hword, stores⟩ :=
    staged.arranged.storePayload hholds hlow hhigh byte
  refine ⟨after, hrun, harranged, stores.memory.trans staged.memory,
    staged.live, ?_⟩
  intro pair hpair
  change HoldsByte (after.view image) pair.1 pair.2
  rw [stores.view]
  rcases List.mem_cons.mp hpair with rfl | hold
  · exact ⟨_, Function.update_self ..,
      byteOf_setByte word (Nat.mod_lt _ (by decide)) byte⟩
  · exact (staged.bytes pair hold).store hword (hbytes pair hold) byte

theorem Staged.store (staged : Staged image run memory blocks live bytes)
    (hmem : chunk ∈ blocks) (htaken : chunk.free = false)
    (hlive : chunk.payload ∈ live) {address : Nat}
    (hlow : chunk.payload ≤ address) (hhigh : address < chunk.finish)
    (hbytes : ∀ pair ∈ bytes, pair.1 ≠ address) (byte : BitVec 8) :
    ∃ after, HeapStep image run (.store address byte) after ∧
      Staged image after memory blocks live ((address, byte) :: bytes) := by
  obtain ⟨after, hrun, hstaged⟩ :=
    staged.run_store hmem htaken hlow hhigh hbytes byte
  have hsize : recordedSize image run.heap chunk.payload = chunk.size := by
    obtain ⟨front, behind, hsplit⟩ := List.append_of_mem hmem
    have headers := staged.arranged.headers
    simp only [hsplit] at headers
    unfold recordedSize
    rw [Chunk.payload_sub, headers.header.run_loadSize]
  rw [← staged.live] at hlive
  refine ⟨_, .store hlive ⟨hlow, ?_⟩ hrun, hstaged⟩
  rw [hsize]
  exact hhigh

theorem Staged.leak (staged : Staged image run memory blocks live bytes)
    (hmem : chunk ∈ blocks) (hlive : chunk.payload ∈ live)
    {byte : BitVec 8} (hset : (chunk.address + 9, byte) ∈ bytes)
    (hbyte : byte ≠ 0) (hpage : chunk.address % pageSize ≠ 0) :
    ∃ after, HeapStep image run (.kfree chunk.payload) after ∧
      Staged image after memory blocks (live.erase chunk.payload) bytes := by
  have hload := staged.run_loadLarge hmem hset
  have hfinds : FindsLarge image run.heap chunk.payload := by
    unfold FindsLarge
    rw [Chunk.payload_sub, hload, bne_iff_ne.mpr hbyte]
  obtain ⟨after, hrun, hsame⟩ := kfree_set staged.arranged hmem hfinds
  obtain rfl := hsame hpage
  rw [← staged.live] at hlive
  exact ⟨_, .kfree hlive (hrun 0), staged.arranged, staged.memory,
    congrArg (List.erase · chunk.payload) staged.live, staged.bytes⟩

theorem Staged.returnPage (staged : Staged image run memory blocks live bytes)
    (hmem : chunk ∈ blocks) (hlive : chunk.payload ∈ live)
    {byte : BitVec 8} (hset : (chunk.address + 9, byte) ∈ bytes)
    (hbyte : byte ≠ 0) {page : Nat} (hpage : chunk.address = pageAddress page)
    (hcount : pagesFor chunk.size = 1) :
    ∃ after, HeapStep image run (.kfree chunk.payload) after ∧
      after.heap.memory.virtualBitmap.test page = false ∧
      after.heap.firstBlock = run.heap.firstBlock ∧
      ∀ address, ¬ InRun page 1 address →
        after.heap.view image address = run.heap.view image address := by
  have paged := staged.arranged.toPaged
  have hload := staged.run_loadLarge hmem hset
  have hheader : ∃ next, Header (run.heap.view image) chunk next := by
    obtain ⟨front, behind, hsplit⟩ := List.append_of_mem hmem
    have headers := staged.arranged.headers
    simp only [hsplit] at headers
    exact ⟨_, headers.header⟩
  obtain ⟨next, header⟩ := hheader
  obtain ⟨used, hused, hcreated, hlow, hhigh⟩ :=
    paged.page_of_covers hmem chunk.covers_address
  obtain rfl : used = page := by
    rw [hpage] at hlow hhigh
    unfold pageAddress pageSize at hlow hhigh
    omega
  have freeable : Freeable run.heap.memory chunk.address
      (pagesFor chunk.size) used := by
    rw [hcount]
    refine ⟨hpage, Nat.one_pos, hused, ?_⟩
    intro i hi
    obtain rfl : i = 0 := by omega
    exact (paged.used used hused).mpr (.inl hcreated)
  have hfinish := staged.arranged.tiling.finish_lt paged.inPool hmem
  rcases run_freeLarge staged.arranged.sound header hfinish with
    ⟨hnone, _⟩ | ⟨first, freed, hfirst, hrun, _, bits⟩
  · exact absurd freeable (hnone used)
  obtain rfl : first = used :=
    pageAddress_injective (hfirst.1.symm.trans hpage)
  rw [hcount] at bits
  rw [← staged.live] at hlive
  refine ⟨⟨{ run.heap with memory := freed }, _⟩,
    @HeapStep.kfree _ _ _ _ 0 _ hlive ?_, ?_, rfl, ?_⟩
  · unfold KernelHeapAllocator.kfree
    rw [if_neg chunk.payload_ne_zero]
    simp only [Chunk.payload_sub]
    rw [run_bind_ok hload, if_pos (bne_iff_ne.mpr hbyte)]
    exact hrun
  · exact bits.inside (Nat.le_refl _) (Nat.lt_succ_self _)
  · exact fun address hout => view_of_bits bits hout

theorem freesListed_kmalloc (size : Nat) :
    FreesListed image run (.kmalloc size) := by
  intro pointer h
  cases h

theorem freesListed_store (address : Nat) (byte : BitVec 8) :
    FreesListed image run (.store address byte) := by
  intro pointer h
  cases h

theorem Staged.freesListed (staged : Staged image run memory blocks live bytes)
    (hmem : chunk ∈ blocks) (hclear : (chunk.address + 9, 0) ∈ bytes) :
    FreesListed image run (.kfree chunk.payload) := by
  intro pointer h _ hset
  obtain rfl : chunk.payload = pointer := HeapEvent.kfree.inj h
  unfold FindsLarge at hset
  rw [Chunk.payload_sub, staged.run_loadLarge hmem hclear] at hset
  cases hset

/-! New pages. -/

theorem createBlock_succeeds {state : HeapState} {page : Nat}
    (sound : Sound image state.memory none)
    (hpage : firstFree state.memory = some page)
    (hcount : 3 ≤ state.memory.freeCount) :
    ∃ after, (createBlock image).run state = .ok (pageAddress page, after) ∧
      Sound image after.memory none ∧ after.firstBlock = state.firstBlock ∧
      after.created = pageAddress page :: state.created ∧
      NewRun image state after page 1 (pageSize - sizeofBlock) true false ∧
      state.memory.freeCount ≤ after.memory.freeCount + 3 := by
  obtain ⟨hlt, hfree⟩ := firstFree_spec hpage
  obtain ⟨_, hrun, filled, hleft⟩ := allocatePage_succeeds sound hpage hcount
  have unused : FreeRun state.memory page 1 := by
    refine ⟨hlt, ?_⟩
    intro other hlow hhigh
    obtain rfl : other = page := by omega
    exact hfree
  obtain ⟨after, hcreate, hmemory, hfirst, hcreated, new⟩ :=
    run_createBlock_page hrun filled.sound unused
      (Bits.cons filled (Bits.zero ..))
  refine ⟨after, hcreate, ?_, hfirst, hcreated, new, ?_⟩
  · rw [hmemory]
    exact filled.sound
  · rw [hmemory]
    exact hleft

theorem NewRun.holdsByte {before after : HeapState} {page count : Nat}
    {free : Bool} (new : NewRun image before after page count size free false) :
    HoldsByte (after.view image) (pageAddress page + 9) 0 := by
  obtain ⟨flags, hflags, hclear⟩ := new.flag
  have haligned := pageAddress_mod page
  have hplace : pageAddress page + 9 - (pageAddress page + 9) % 8 =
      pageAddress page + 8 ∧ (pageAddress page + 9) % 8 = 1 := by
    unfold pageSize at haligned
    omega
  refine ⟨flags, ?_, ?_⟩
  · rw [hplace.1]
    exact hflags
  · rw [hplace.2]
    exact bne_eq_false_iff_eq.mp hclear

theorem Staged.grow (staged : Staged image run memory blocks live bytes)
    (hsize : Small size) {last : Chunk} (hblocks : blocks = before ++ [last])
    (hnone : ∀ other ∈ blocks, ¬ Fits size other) {page : Nat}
    (hpage : firstFree memory = some page) (hcount : 3 ≤ memory.freeCount)
    (hbytes : ∀ pair ∈ bytes, pair.1 % 8 ≠ 0 ∧
      ¬ InRun page 1 (pair.1 - pair.1 % 8) ∧
      pair.1 - pair.1 % 8 ≠ last.address + 16) :
    ∃ after grown, HeapStep image run (.kmalloc size) after ∧
      Staged image after grown (blocks ++ place (newChunk page) size)
        ((newChunk page).payload :: live)
        ((pageAddress page + 9, 0) :: bytes) := by
  have arranged := staged.arranged
  rw [← staged.memory] at hpage hcount
  obtain ⟨middle, hcreate, hsound, hfirst, hcreated, new, _⟩ :=
    createBlock_succeeds arranged.sound hpage hcount
  have unlinked := arranged.unlinked hsound hfirst hcreated new
  obtain ⟨linked, hlink, linkedArranged, linkStores⟩ :=
    unlinked.linkLast arranged hblocks
  have hfits : Fits size (newChunk page) := ⟨rfl, hsize.2.2⟩
  obtain ⟨after, hrun, harranged, stores⟩ :=
    linkedArranged.allocate rfl hfits hsize.2.1
  have hlast : Header (run.heap.view image) last 0 := by
    have headers := arranged.headers
    simp only [hblocks] at headers
    exact (headers_append.mp headers).2.1
  have hextend : (extendHeap image (lastPointer 0 blocks) size).run run.heap =
      .ok ((newChunk page).payload, after) := by
    rw [hblocks, lastPointer_concat]
    unfold extendHeap
    rw [run_bind_ok hcreate, if_neg (pageAddress_ne_zero page),
      if_neg hlast.address_ne_zero, run_bind_ok hlink]
    exact hrun
  have hcall : (KernelHeapAllocator.kmalloc image (blocks.length + 1)
      size).run run.heap = .ok ((newChunk page).payload, after) := by
    rw [kmalloc_of_small hsize]
    exact (arranged.serveNew hnone hextend).run_eq (Nat.lt_succ_self _)
  have step := HeapStep.kmalloc hcall
  rw [if_neg (newChunk page).payload_ne_zero] at step
  refine ⟨_, after.memory, step, ?_, rfl, congrArg _ staged.live, ?_⟩
  · rw [List.append_nil] at harranged
    exact harranged
  have haligned := pageAddress_mod page
  have hkept : ∀ place byte, HoldsByte (middle.view image) place byte →
      place % 8 ≠ 0 → place - place % 8 ≠ last.address + 16 →
      ¬ SplitWord (newChunk page) size (place - place % 8) →
      HoldsByte (after.view image) place byte := by
    intro place byte hold hodd hout hsplit
    rw [stores.view, linkStores.view]
    exact (hold.setWord hout _).allocateWords hodd hsplit
  have hsplit : ∀ address, SplitWord (newChunk page) size address →
      address ≠ pageAddress page + 8 ∧ InRun page 1 address := by
    intro address h
    unfold SplitWord splitAddress newChunk at h
    unfold InRun
    unfold pageSize sizeofBlock at *
    simp only at h
    omega
  have hplace : pageAddress page + 9 - (pageAddress page + 9) % 8 =
      pageAddress page + 8 ∧ (pageAddress page + 9) % 8 = 1 := by
    unfold pageSize at haligned
    omega
  have hself : InRun page 1 (pageAddress page + 8) := by
    unfold InRun pageSize
    omega
  intro pair hmem
  rcases List.mem_cons.mp hmem with rfl | hold
  · apply hkept _ _ new.holdsByte
    · rw [hplace.2]
      exact Nat.one_ne_zero
    · rw [hplace.1]
      intro heq
      have hlastMem : last ∈ blocks := by simp [hblocks]
      obtain ⟨used, hused, hin, hlow, hhigh⟩ :=
        arranged.toPaged.page_of_covers hlastMem
          (Chunk.covers_of_headerWord (.inr (.inr rfl)))
      rw [heq] at hself
      exact new.outside ((arranged.used used hused).mpr (.inl hin)) hlow hhigh
        hself
    · rw [hplace.1]
      exact fun h => (hsplit _ h).1 rfl
  · obtain ⟨hodd, hout, hlink⟩ := hbytes pair hold
    apply hkept _ _ ((staged.bytes pair hold).congr (new.words _ hout)) hodd
      hlink
    exact fun h => hout (hsplit _ h).2

theorem staged_start (image : KernelImage platform) (boot : MemoryState)
    (ram : Nat → BitVec 64) :
    ∃ start booted, (initHeap image).run (bootHeap boot ram) =
        .ok ((), start) ∧
      Staged image ⟨start, []⟩ booted [newChunk 0] []
        [(pageAddress 0 + 9, 0)] ∧
      firstFree booted = some 1 ∧ 3 ≤ booted.freeCount := by
  obtain ⟨booted, hrun, sound, hframes, hreserved, _, _, hfree⟩ :=
    run_initMemory image boot
  have hpages : 1 < virtualPageCount := by
    rw [virtualPageCount_eq]
    decide
  have hcall : (callVm (initMemory image)).run (bootHeap boot ram) =
      .ok ((), { bootHeap boot ram with memory := booted }) :=
    run_callVm hrun
  have harranged : Arranged image { bootHeap boot ram with memory := booted }
      ⟨[], []⟩ := @Arranged.empty _ _ booted ram sound hfree
  have hcount := freeCount_start hframes hreserved
  have hfirstFree : firstFree booted = some 0 :=
    firstFree_eq (Nat.lt_trans Nat.zero_lt_one hpages) nofun
      (hfree 0 (Nat.lt_trans Nat.zero_lt_one hpages))
  obtain ⟨created, hcreate, hsound, hfirst, hcreated, new, hleft⟩ :=
    @createBlock_succeeds _ image { bootHeap boot ram with memory := booted }
      0 sound hfirstFree (by
        change 3 ≤ booted.freeCount
        omega)
  change booted.freeCount ≤ created.memory.freeCount + 3 at hleft
  have linked := (harranged.unlinked hsound hfirst hcreated new).linkFirst rfl
  refine ⟨{ created with firstBlock := pageAddress 0 }, created.memory, ?_,
    ⟨linked, rfl, rfl, ?_⟩, ?_, by omega⟩
  · unfold initHeap KernelHeapAllocator.init
    rw [run_bind_ok hcall, run_bind_ok hcreate]
    rfl
  · intro pair hmem
    rw [List.mem_singleton] at hmem
    subst hmem
    exact new.holdsByte
  · apply firstFree_eq hpages
    · intro other hlt
      rw [new.bits.bit, if_pos (by omega)]
    · rw [new.bits.bit, if_neg (by omega)]
      exact hfree 1 hpages

end

end Planetoid.Memory
