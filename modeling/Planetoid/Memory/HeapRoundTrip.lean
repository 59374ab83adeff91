import Mathlib.Logic.Relation
import Planetoid.Memory.HeapChain
import Planetoid.Memory.HeapTraces
import Planetoid.Memory.PoolInvariant

namespace Planetoid.Memory

open Planetoid Program VirtualMemory KernelHeapAllocator

/-! `kfree` undoes `kmalloc`, and the order of several calls of `kfree` makes no
difference. -/

section

variable {platform : Platform} (image : KernelImage platform)

/-- The blocks from `first_block` on tile the pages of `create_block`, no two
free ones are adjacent and `large` is false in each. -/
structure ListInvariant (state : HeapState) (blocks : List Chunk) : Prop where
  sound : Sound image state.memory none
  created : ∀ address ∈ state.created, ∃ page, page < virtualPageCount ∧
    address = pageAddress page ∧
    state.memory.virtualBitmap.test page = true
  listed : BlockList image state state.firstBlock blocks
  tiling : Tiling state.created blocks
  coalesced : Coalesced blocks
  small : ∀ chunk ∈ blocks,
    (loadLarge image chunk.address).run state = .ok (false, state)

def ServedFrom (blocks : List Chunk) (size : Nat) : Prop :=
  size ≠ 0 ∧ alignSize size ≤ pageSize - sizeofBlock ∧
    ∃ chunk ∈ blocks, Fits (alignSize size) chunk

instance (blocks : List Chunk) (size : Nat) :
    Decidable (ServedFrom blocks size) :=
  inferInstanceAs (Decidable (_ ∧ _ ∧ _))

def PayloadStore (pointer : Nat) (before after : HeapState) : Prop :=
  ∃ address byte, InPayload image before pointer address ∧
    (storeByte image address byte).run before = .ok ((), after)

inductive Frees : HeapState → List Nat → HeapState → Prop
  | nil {state : HeapState} : Frees state [] state
  | cons {state middle after : HeapState} {budget pointer : Nat}
      {rest : List Nat}
      (h : (kfree image budget pointer).run state = .ok ((), middle))
      (frees : Frees middle rest after) :
      Frees state (pointer :: rest) after

def LiveSmall (blocks : List Chunk) (pointer : Nat) : Prop :=
  ∃ chunk ∈ blocks, chunk.free = false ∧ chunk.payload = pointer

instance (blocks : List Chunk) (pointer : Nat) :
    Decidable (LiveSmall blocks pointer) :=
  inferInstanceAs (Decidable (∃ chunk ∈ blocks, _))

end

section

variable {platform : Platform} {image : KernelImage platform}
  {state after : HeapState} {blocks before behind : List Chunk}
  {chunk : Chunk}

theorem BlockList.headers {block : Nat}
    (listed : BlockList image state block blocks)
    (hplaces : ∀ chunk ∈ blocks, ∀ address, HeaderWord chunk address →
      ∃ word, state.view image address = some word) :
    block = headPointer blocks 0 ∧ Headers (state.view image) blocks 0 := by
  induction listed with
  | nil => exact ⟨rfl, trivial⟩
  | cons hblock hsize hfree hnext _ ih =>
      rename_i block next size free rest _
      obtain ⟨hhead, htail⟩ := ih fun chunk hmem =>
        hplaces chunk (List.mem_cons_of_mem _ hmem)
      have hwords := hplaces _ (List.mem_cons_self ..)
      obtain ⟨sizeWord, hsizeWord⟩ := hwords block (.inl rfl)
      obtain ⟨flags, hflags⟩ := hwords (block + 8) (.inr (.inl rfl))
      obtain ⟨link, hlink⟩ := hwords (block + 16) (.inr (.inr rfl))
      rw [KernelHeapAllocator.run_loadSize hsizeWord] at hsize
      rw [KernelHeapAllocator.run_loadFree hflags] at hfree
      rw [KernelHeapAllocator.run_loadNext hlink] at hnext
      injection hsize with hsize
      injection hfree with hfree
      injection hnext with hnext
      refine ⟨rfl, ⟨⟨sizeWord, hsizeWord, congrArg Prod.fst hsize⟩,
        ⟨flags, hflags, congrArg Prod.fst hfree⟩, ⟨link, hlink, ?_⟩⟩, htail⟩
      rw [← hhead]
      exact congrArg Prod.fst hnext

theorem ListInvariant.chained (invariant : ListInvariant image state blocks) :
    Chained image state blocks := by
  have hplaces : ∀ chunk ∈ blocks, ∀ address, HeaderWord chunk address →
      ∃ word, state.view image address = some word := by
    intro chunk hmem address hword
    obtain ⟨page, hpage, hlow, hhigh⟩ := invariant.tiling.inside chunk hmem
      address (Chunk.covers_of_headerWord hword)
    obtain ⟨index, hindex, rfl, hused⟩ := invariant.created page hpage
    have haligned := (invariant.tiling.aligned chunk hmem).1
    apply @view_of_used _ _ _ invariant.sound index 1 hindex
    · intro other hfirst hlast
      obtain rfl : other = index := by omega
      exact hused
    · unfold InRun
      omega
    · unfold HeaderWord at hword
      omega
  obtain ⟨hfirst, hheaders⟩ := invariant.listed.headers hplaces
  exact ⟨invariant.sound, invariant.created, invariant.tiling, hfirst,
    hheaders⟩

theorem ListInvariant.clear (invariant : ListInvariant image state blocks)
    (hmem : chunk ∈ blocks) : Clear (state.view image) chunk := by
  obtain ⟨front, rest, rfl⟩ := List.append_of_mem hmem
  obtain ⟨flags, hflags, _⟩ := invariant.chained.headers.header.free
  have hload := invariant.small chunk hmem
  rw [KernelHeapAllocator.run_loadLarge hflags] at hload
  injection hload with hload
  refine ⟨flags, hflags, ?_⟩
  have hbyte := congrArg Prod.fst hload
  simpa using hbyte

theorem Chained.listInvariant (chained : Chained image state blocks)
    (coalesced : Coalesced blocks)
    (clear : ∀ chunk ∈ blocks, Clear (state.view image) chunk) :
    ListInvariant image state blocks where
  sound := chained.sound
  created := chained.created
  listed := by
    rw [chained.first]
    exact chained.headers.blockList
  tiling := chained.tiling
  coalesced := coalesced
  small := fun chunk hmem => (clear chunk hmem).run_loadLarge

theorem Chained.recordedSize (chained : Chained image state blocks)
    (hmem : chunk ∈ blocks) :
    recordedSize image state chunk.payload = chunk.size := by
  obtain ⟨front, rest, rfl⟩ := List.append_of_mem hmem
  unfold Memory.recordedSize
  rw [Chunk.payload_sub, chained.headers.header.run_loadSize]

theorem Chained.writes (chained : Chained image state blocks)
    (hmem : chunk ∈ blocks)
    (writes : Relation.ReflTransGen (PayloadStore image chunk.payload) state
      after) :
    Chained image after blocks ∧ ∀ other ∈ blocks,
      after.view image (other.address + 8) =
        state.view image (other.address + 8) := by
  induction writes with
  | refl => exact ⟨chained, fun _ _ => rfl⟩
  | tail _ store ih =>
      obtain ⟨hchained, hkept⟩ := ih
      obtain ⟨address, byte, hplace, hrun⟩ := store
      unfold InPayload at hplace
      rw [hchained.recordedSize hmem] at hplace
      obtain ⟨hafter, hwords⟩ :=
        hchained.storePayload hmem hplace.1 hplace.2 hrun
      refine ⟨hafter, ?_⟩
      intro other hother
      rw [hwords other hother _ (.inr (.inl rfl)), hkept other hother]

theorem Tiling.flags_ne {pages : List Nat} (tiling : Tiling pages blocks)
    (hmem : chunk ∈ blocks) {other : Chunk} (hother : other ∈ blocks) :
    ¬ LinkWord other (chunk.address + 8) := by
  intro hlink
  by_cases heq : other.address = chunk.address
  · unfold LinkWord at hlink
    omega
  · exact tiling.apart_of_mem hother hmem heq _
      (Chunk.covers_of_headerWord (hlink.imp_right .inr))
      (Chunk.covers_of_headerWord (.inr (.inl rfl)))

theorem Clear.allocate {words : View} {other : Chunk}
    (clear : Clear words other) {size next : Nat} (hsize : size ≤ chunk.size)
    (hother : other.address = chunk.address ∨ other.Apart chunk) :
    Clear (allocateWords words chunk size next) other := by
  rcases hother with heq | hapart
  · refine (clear.setFlag (chunk.address + 8) false).congr ?_
    rw [heq]
    unfold allocateWords
    split
    · unfold splitWords splitAddress sizeofBlock
      rw [View.setWord_of_ne _ (by omega), View.setFlag_of_ne _ (by omega),
        View.setWord_of_ne _ (by omega), View.setWord_of_ne _ (by omega),
        View.setWord_of_ne _ (by omega)]
    · rfl
  · apply clear.congr
    apply allocateWords_of_not_covers hsize
    exact hapart _ (Chunk.covers_of_headerWord (.inr (.inl rfl)))

theorem Clear.released {pages : List Nat} (tiling : Tiling pages blocks)
    (hold : ∀ other ∈ before ++ [chunk],
      ∃ old ∈ blocks, old.address = other.address)
    (clear : ∀ other ∈ blocks, Clear (state.view image) other)
    (hframe : ∀ address, (∀ other ∈ before ++ [chunk],
      ¬ LinkWord other address) → after.view image address =
        (state.view image).setFlag (chunk.address + 8) 0 true address) :
    ∀ other ∈ blocks, Clear (after.view image) other := by
  intro other hmem
  refine ((clear other hmem).setFlag (chunk.address + 8) true).congr ?_
  apply hframe
  intro near hnear hlink
  obtain ⟨old, hold, heq⟩ := hold near hnear
  unfold LinkWord at hlink
  rw [← heq] at hlink
  exact tiling.flags_ne hmem hold hlink

theorem ListInvariant.kfree
    (invariant : ListInvariant image state (before ++ chunk :: behind)) :
    ∃ after need, Returns .budgetExhausted
        (fun budget => KernelHeapAllocator.kfree image budget chunk.payload)
        state need ((), after) ∧
      ListInvariant image after (release before chunk behind) := by
  have chained := invariant.chained
  have hmem : chunk ∈ before ++ chunk :: behind := by simp
  obtain ⟨after, hreturns, hafter, hframe⟩ :=
    chained.kfree (invariant.clear hmem)
  refine ⟨after, _, hreturns, hafter.listInvariant
    (coalesced_release invariant.coalesced) ?_⟩
  have hclear : ∀ other ∈ before ++ chunk :: behind,
      Clear (after.view image) other := by
    refine Clear.released invariant.tiling ?_
      (fun other hother => invariant.clear hother) hframe
    intro other hother
    refine ⟨other, ?_, rfl⟩
    rw [List.mem_append, List.mem_singleton] at hother
    rw [List.mem_append, List.mem_cons]
    exact hother.imp_right .inl
  rw [release_eq_normal invariant.coalesced]
  apply Merging.forall_normal
  · intro first second _ h
    exact h
  · intro other hother
    rw [List.mem_append, List.mem_cons] at hother
    rcases hother with h | rfl | h
    · exact hclear other (List.mem_append_left _ h)
    · exact hclear chunk hmem
    · exact hclear other (List.mem_append_right _ (List.mem_cons_of_mem _ h))

end

section

variable {platform : Platform} {image : KernelImage platform}
  {run : HeapRun} {memory : MemoryState} {blocks : List Chunk}
  {live : List Nat} {bytes : List (Nat × BitVec 8)}

theorem Staged.listInvariant
    (staged : Staged image run memory blocks live bytes)
    (coalesced : Coalesced blocks)
    (hclear : ∀ chunk ∈ blocks, (chunk.address + 9, 0) ∈ bytes) :
    ListInvariant image run.heap blocks := by
  have arranged := staged.arranged
  have chained : Chained image run.heap blocks := by
    refine ⟨arranged.sound, ?_, arranged.tiling, arranged.first,
      arranged.headers⟩
    intro address hmem
    obtain ⟨page, hpage, heq⟩ := arranged.created address hmem
    refine ⟨page, hpage, heq, (arranged.used page hpage).mpr (.inl ?_)⟩
    rw [← heq]
    exact hmem
  apply chained.listInvariant coalesced
  intro chunk hmem
  have haligned := (arranged.tiling.aligned chunk hmem).1
  obtain ⟨word, hword, hbyte⟩ := staged.bytes _ (hclear chunk hmem)
  have hplace : (chunk.address + 9) % 8 = 1 := by omega
  rw [hplace] at hword hbyte
  exact ⟨word, hword, hbyte⟩

end

/-- `kmalloc` takes the first block of the list that is large enough, which is
no longer free then, and `kfree` restores the list, whatever the client
wrote. -/
theorem kfree_restores {platform : Platform} {image : KernelImage platform}
    {state : HeapState} {blocks : List Chunk} {size : Nat}
    (invariant : ListInvariant image state blocks)
    (served : ServedFrom blocks size) :
    ∃ before chunk behind, blocks = before ++ chunk :: behind ∧
      Fits (alignSize size) chunk ∧
      (∀ other ∈ before, ¬ Fits (alignSize size) other) ∧
      (∃ budget middle, (kmalloc image budget size).run state =
        .ok (chunk.payload, middle)) ∧
      ∀ budget result middle,
        (kmalloc image budget size).run state = .ok (result, middle) →
        result = chunk.payload ∧
        BlockList image middle middle.firstBlock
          (before ++ place chunk (alignSize size) ++ behind) ∧
        LiveSmall (place chunk (alignSize size)) result ∧
        ∀ written,
          Relation.ReflTransGen (PayloadStore image result) middle written →
          (∃ budget after,
            (kfree image budget result).run written = .ok ((), after)) ∧
          ∀ budget after,
            (kfree image budget result).run written = .ok ((), after) →
            ListInvariant image after blocks := by
  obtain ⟨hne, hsize, found, hfound, hfits⟩ := served
  rcases firstFit_cases (alignSize size) 0 blocks with
    ⟨_, hnone⟩ | ⟨before, chunk, behind, rfl, _, hchunk, hbefore⟩
  · exact absurd hfits (hnone found hfound)
  have chained := invariant.chained
  obtain ⟨middle, hmalloc, hmiddle, stores⟩ :=
    chained.kmalloc hne hsize hbefore hchunk
  refine ⟨before, chunk, behind, rfl, hchunk, hbefore,
    ⟨_, _, hmalloc.run_eq (Nat.lt_succ_self _)⟩, ?_⟩
  intro budget result other hrun
  cases hmalloc.unique hrun
  obtain ⟨taken, rest, hplace, haddress, hfree, hrelease⟩ :=
    release_place invariant.coalesced hchunk.1 (alignSize size)
  have hpayload : taken.payload = chunk.payload := by
    unfold Chunk.payload
    rw [haddress]
  have hlive : LiveSmall (place chunk (alignSize size)) chunk.payload := by
    rw [hplace]
    exact ⟨taken, List.mem_cons_self .., hfree, hpayload⟩
  have hmiddleList := hmiddle.headers.blockList
  rw [← hmiddle.first] at hmiddleList
  refine ⟨rfl, hmiddleList, hlive, ?_⟩
  intro written writes
  have hlist : before ++ place chunk (alignSize size) ++ behind =
      before ++ taken :: (rest ++ behind) := by
    rw [hplace]
    simp
  rw [hlist] at hmiddle
  have htaken : taken ∈ before ++ taken :: (rest ++ behind) := by simp
  rw [← hpayload] at writes ⊢
  obtain ⟨hwritten, hkept⟩ := hmiddle.writes htaken writes
  -- the headers of the blocks of the list before the call are still clear
  have hclear : ∀ old ∈ before ++ chunk :: behind,
      Clear (written.view image) old := by
    intro old hold
    have hcurrent : ∃ current ∈ before ++ taken :: (rest ++ behind),
        current.address = old.address := by
      rw [List.mem_append, List.mem_cons] at hold
      rcases hold with h | rfl | h
      · exact ⟨old, List.mem_append_left _ h, rfl⟩
      · exact ⟨taken, htaken, haddress⟩
      · exact ⟨old, by simp [h], rfl⟩
    obtain ⟨current, hmem, heq⟩ := hcurrent
    have hallocated : Clear (middle.view image) old := by
      rw [stores.view]
      apply (invariant.clear hold).allocate hchunk.2
      by_cases h : old.address = chunk.address
      · exact .inl h
      · exact .inr (invariant.tiling.apart_of_mem hold (by simp) h)
    apply hallocated.congr
    rw [← heq]
    exact hkept current hmem
  have hself : chunk ∈ before ++ chunk :: behind := by simp
  have htakenClear : Clear (written.view image) taken := by
    unfold Clear
    rw [haddress]
    exact hclear chunk hself
  obtain ⟨after, hfree, hafter, hframe⟩ := hwritten.kfree htakenClear
  refine ⟨⟨_, after, hfree.run_eq (Nat.lt_succ_self _)⟩, ?_⟩
  intro budget final hfinal
  cases hfree.unique hfinal
  rw [hrelease] at hafter
  refine hafter.listInvariant invariant.coalesced
    (Clear.released invariant.tiling ?_ hclear hframe)
  intro other hother
  rw [List.mem_append, List.mem_singleton] at hother
  rcases hother with h | rfl
  · exact ⟨other, List.mem_append_left _ h, rfl⟩
  · exact ⟨chunk, hself, haddress.symm⟩

/-- The first allocation after the initialisation splits the first block, and
`kfree` joins it again. -/
theorem kfree_restores_start :
    ∃ start budget budget' result middle after,
      (initHeap smallImage).run (bootHeap bootMemory fun _ => 0) =
        .ok ((), start) ∧
      (kmalloc smallImage budget 64).run start = .ok (result, middle) ∧
      BlockList smallImage middle middle.firstBlock
        [⟨0x80000000, 64, false⟩, ⟨0x80000058, 3984, true⟩] ∧
      (kfree smallImage budget' result).run middle = .ok ((), after) ∧
      ListInvariant smallImage after [newChunk 0] := by
  obtain ⟨start, booted, hstart, staged, _⟩ :=
    staged_start smallImage bootMemory fun _ => 0
  have invariant := staged.listInvariant (List.isChain_singleton _)
    (by decide)
  obtain ⟨before, chunk, behind, hlist, _, _, ⟨budget, middle, hmalloc⟩,
    hall⟩ := kfree_restores invariant (by decide : ServedFrom [newChunk 0] 64)
  obtain ⟨rfl, rfl, rfl⟩ : before = [] ∧ chunk = newChunk 0 ∧ behind = [] := by
    cases before with
    | nil =>
        injection hlist with hchunk hbehind
        exact ⟨rfl, hchunk.symm, hbehind.symm⟩
    | cons _ _ => simp at hlist
  obtain ⟨_, hsplit, _, hwritten⟩ := hall _ _ _ hmalloc
  obtain ⟨⟨_, after, hfree⟩, hrestored⟩ := hwritten middle .refl
  exact ⟨start, budget, _, _, middle, after, hstart, hmalloc, hsplit, hfree,
    hrestored _ _ hfree⟩

section

variable {platform : Platform} {image : KernelImage platform}
  {state : HeapState} {blocks before behind : List Chunk} {chunk : Chunk}

theorem map_freeAll_singleton {pages : List Nat}
    (tiling : Tiling pages (before ++ chunk :: behind)) :
    (before ++ chunk :: behind).map (freeAll [chunk.payload]) =
      before ++ { chunk with free := true } :: behind := by
  have hkept : ∀ others : List Chunk,
      (∀ other ∈ others, other ∈ before ∨ other ∈ behind) →
      others.map (freeAll [chunk.payload]) = others := by
    intro others hothers
    refine (List.map_congr_left ?_).trans (List.map_id others)
    intro other hmem
    apply if_neg
    rw [List.mem_singleton]
    intro heq
    exact (tiling.apart_of_split (hothers other hmem)).address_ne
      (Chunk.payload_inj heq).symm
  have hfreed : freeAll [chunk.payload] chunk =
      { chunk with free := true } := if_pos (List.mem_singleton_self _)
  rw [List.map_append, List.map_cons, hfreed, hkept before fun _ => .inl,
    hkept behind fun _ => .inr]

theorem freeAll_cons (pointer : Nat) (pointers : List Nat) (chunk : Chunk) :
    freeAll pointers (freeAll [pointer] chunk) =
      freeAll (pointer :: pointers) chunk := by
  by_cases h : chunk.payload = pointer
  · have hfirst : freeAll [pointer] chunk = { chunk with free := true } :=
      if_pos (List.mem_singleton.mpr h)
    have hboth : freeAll (pointer :: pointers) chunk =
        { chunk with free := true } :=
      if_pos (List.mem_cons.mpr (.inl h))
    rw [hfirst, hboth]
    exact freeAll_of_free rfl
  · have hfirst : freeAll [pointer] chunk = chunk :=
      if_neg fun hmem => h (List.mem_singleton.mp hmem)
    rw [hfirst]
    unfold freeAll
    simp only [List.mem_cons, h, false_or]

theorem ListInvariant.frees {pointers : List Nat}
    (invariant : ListInvariant image state blocks) (hnodup : pointers.Nodup)
    (hlive : ∀ pointer ∈ pointers, LiveSmall blocks pointer) :
    (∃ after, Frees image state pointers after) ∧
      ∀ after, Frees image state pointers after →
        ListInvariant image after
          (coalescing.normal (blocks.map (freeAll pointers))) := by
  induction pointers generalizing state blocks with
  | nil =>
      refine ⟨⟨state, .nil⟩, ?_⟩
      intro after frees
      cases frees
      have hmap : blocks.map (freeAll []) = blocks :=
        (List.map_congr_left fun chunk _ =>
          if_neg (List.not_mem_nil)).trans (List.map_id blocks)
      rw [hmap, (coalesced_iff.mp invariant.coalesced).normal_eq]
      exact invariant
  | cons pointer rest ih =>
      rw [List.nodup_cons] at hnodup
      rw [List.forall_mem_cons] at hlive
      obtain ⟨⟨chunk, hmem, htaken, rfl⟩, hrest⟩ := hlive
      obtain ⟨before, behind, rfl⟩ := List.append_of_mem hmem
      obtain ⟨middle, need, hreturns, hmiddle⟩ := invariant.kfree
      have hstill : ∀ pointer ∈ rest,
          LiveSmall (release before chunk behind) pointer := by
        intro pointer hpointer
        obtain ⟨other, hother, hfree, rfl⟩ := hrest pointer hpointer
        rw [List.mem_append, List.mem_cons] at hother
        have hold : other ∈ before ∨ other ∈ behind := by
          rcases hother with h | rfl | h
          · exact .inl h
          · exact absurd hpointer hnodup.1
          · exact .inr h
        obtain ⟨hreleased, _⟩ := taken_release.mpr ⟨hold, hfree⟩
        exact ⟨other, hreleased, hfree, rfl⟩
      obtain ⟨⟨after, hafter⟩, hall⟩ := ih hmiddle hnodup.2 hstill
      refine ⟨⟨after, .cons (hreturns.run_eq (Nat.lt_succ_self _)) hafter⟩, ?_⟩
      intro final frees
      cases frees with
      | cons h frees =>
          cases hreturns.unique h
          have hfinal := hall final frees
          rw [release_eq_normal invariant.coalesced,
            ← map_freeAll_singleton invariant.tiling, normal_freeAll_normal,
            List.map_map] at hfinal
          have hcompose : freeAll rest ∘ freeAll [chunk.payload] =
              freeAll (chunk.payload :: rest) :=
            funext fun other => freeAll_cons _ _ other
          rw [hcompose] at hfinal
          exact hfinal

end

/-- The order in which live allocations are freed makes no difference. -/
theorem kfree_order {platform : Platform} {image : KernelImage platform}
    {state : HeapState} {blocks : List Chunk} {pointers : List Nat}
    (invariant : ListInvariant image state blocks)
    (hnodup : pointers.Nodup)
    (hlive : ∀ pointer ∈ pointers, LiveSmall blocks pointer) :
    ∃ final, ∀ order, order.Perm pointers →
      (∃ after, Frees image state order after) ∧
      ∀ after, Frees image state order after →
        ListInvariant image after final := by
  refine ⟨coalescing.normal (blocks.map (freeAll pointers)), ?_⟩
  intro order perm
  have hsame : freeAll order = freeAll pointers := by
    funext chunk
    unfold freeAll
    simp only [perm.mem_iff]
  rw [← hsame]
  apply invariant.frees (perm.nodup_iff.mpr hnodup)
  intro pointer hmem
  exact hlive pointer (perm.mem_iff.mp hmem)

/-- Two blocks of a page each are freed in both orders. -/
theorem kfree_order_pages :
    ∃ start run blocks final,
      (initHeap smallImage).run (bootHeap bootMemory fun _ => 0) =
        .ok ((), start) ∧
      (heapRuns smallImage start).Reachable System.unguarded run ∧
      ListInvariant smallImage run.heap blocks ∧
      ∀ order, order.Perm [0x80000018, 0x80001018] →
        (∃ after, Frees smallImage run.heap order after) ∧
        ∀ after, Frees smallImage run.heap order after →
          ListInvariant smallImage after final := by
  obtain ⟨start, booted, hstart, staged₀, hpage, hcount⟩ :=
    staged_start smallImage bootMemory fun _ => 0
  obtain ⟨run₁, step₁, staged₁⟩ := @Staged.kmalloc _ _ _ _ _ [] []
    (newChunk 0) _ _ 4072 staged₀ (by decide) rfl nofun (by decide) (by decide)
  obtain ⟨run₂, grown, step₂, staged₂⟩ := @Staged.grow _ _ _ _ _ [] _ _ 4072
    staged₁ (by decide) ⟨0x80000000, 4072, false⟩ rfl (by decide) 1 hpage
    hcount (by decide)
  have invariant := staged₂.listInvariant
    (List.isChain_cons_cons.mpr ⟨by decide, List.isChain_singleton _⟩)
    (by decide)
  obtain ⟨final, hfinal⟩ := @kfree_order _ _ _ _ [0x80000018, 0x80001018]
    invariant (by decide) (by decide)
  exact ⟨start, run₂, _, final, hstart,
    .step (.step (.initial rfl) trivial step₁) trivial step₂, invariant,
    hfinal⟩

end Planetoid.Memory
