import Planetoid.Memory.HeapPlaces
import Planetoid.Memory.HeapSafety

namespace Planetoid.Memory

open Planetoid Program VirtualMemory KernelHeapAllocator

/-! The sizes that `kmalloc` computes and records. -/

section

variable {platform : Platform} {image : KernelImage platform}
  {contents : Contents} {start : MemoryState} {state : HeapState}
  {address other : Nat} {word : BitVec 64}

/-! Words at any addresses. -/

def WordIs (image : KernelImage platform) (state : HeapState) (address : Nat)
    (word : BitVec 64) : Prop :=
  ∃ physical, state.translate image address = some physical ∧
    state.ram physical = word

theorem translate_modify (state : HeapState) (address other : Nat)
    (change : BitVec 64 → BitVec 64) :
    (state.modify image address change).translate image other =
      state.translate image other := by
  unfold HeapState.translate
  rw [modify_memory]

theorem wordIs_modify (h : WordIs image state address word)
    (change : BitVec 64 → BitVec 64) :
    WordIs image (state.modify image address change) address
      (change word) := by
  obtain ⟨physical, htranslate, rfl⟩ := h
  refine ⟨physical, (translate_modify ..).trans htranslate, ?_⟩
  unfold HeapState.modify
  rw [htranslate]
  exact Function.update_self ..

theorem WordIs.modify (heap : HeapMemory image start noPins state.memory)
    (hstatic : start.static image = Contents.initial image contents)
    (h : WordIs image state address word) {distance : Nat}
    (hpositive : 0 < distance) (hnear : distance < 8192)
    (hother : other % 2 ^ 39 = (address + distance) % 2 ^ 39)
    (change : BitVec 64 → BitVec 64) :
    WordIs image (state.modify image other change) address word := by
  obtain ⟨physical, htranslate, hword⟩ := h
  refine ⟨physical, (translate_modify ..).trans htranslate, ?_⟩
  have hne := heap.translate_ne hstatic hpositive hnear hother htranslate
  unfold HeapState.modify
  cases hplace : state.translate image other with
  | none => exact hword
  | some place =>
      rw [hplace] at hne
      rw [← hword]
      apply Function.update_of_ne
      intro heq
      exact hne (congrArg some heq.symm)

section

variable {post : BitVec 64 → HeapState → Prop}

theorem ends_loadWord
    (h : ∀ word, WordIs image state address word → post word state) :
    (loadWord image address).Ends post state := by
  rw [ends_iff]
  intro word after hrun
  unfold loadWord at hrun
  rw [run_access] at hrun
  cases htranslate : state.translate image address with
  | none =>
      simp only [id_eq, htranslate] at hrun
      cases hrun
  | some physical =>
      simp only [id_eq, htranslate] at hrun
      cases hrun
      exact h _ ⟨physical, htranslate, rfl⟩

theorem ends_modifyWord {post : Unit → HeapState → Prop}
    {change : BitVec 64 → BitVec 64}
    (h : ∀ word, WordIs image state address word →
      post () (state.modify image address change)) :
    (modifyWord image address change).Ends post state := by
  rw [ends_iff]
  intro result after hrun
  unfold modifyWord at hrun
  rw [run_access] at hrun
  cases htranslate : state.translate image address with
  | none =>
      simp only [htranslate] at hrun
      cases hrun
  | some physical =>
      simp only [htranslate] at hrun
      cases hrun
      exact h _ ⟨physical, htranslate, rfl⟩

end

theorem WordIs.run_loadWord (h : WordIs image state address word) :
    (loadWord image address).run state = .ok (word, state) := by
  obtain ⟨physical, htranslate, rfl⟩ := h
  unfold loadWord
  rw [run_access]
  simp only [id_eq, htranslate]
  rfl

/-! The memory between calls, in all runs of the heap. -/

def HasMemory (image : KernelImage platform) (start : MemoryState)
    (state : HeapState) : Prop :=
  HeapMemory image start noPins state.memory

theorem HasMemory.modify (hstate : HasMemory image start state)
    (address : Nat) (change : BitVec 64 → BitVec 64) :
    HasMemory image start (state.modify image address change) := by
  unfold HasMemory
  rw [modify_memory]
  exact hstate

theorem keeps_loadWord (address : Nat) :
    (loadWord image address).Keeps (HasMemory image start) := by
  intro state hstate current hcurrent
  refine ⟨hcurrent, ?_⟩
  simp only [id_eq]
  cases current.translate image address with
  | none => exact trivial
  | some physical => exact hcurrent

theorem keeps_modifyWord (address : Nat) (change : BitVec 64 → BitVec 64) :
    (modifyWord image address change).Keeps (HasMemory image start) := by
  intro state hstate current hcurrent
  have hafter := HasMemory.modify hcurrent address change
  refine ⟨hafter, ?_⟩
  dsimp only
  cases current.translate image address with
  | none => exact trivial
  | some physical => exact hafter

theorem keeps_loadByte (address : Nat) :
    (loadByte image address).Keeps (HasMemory image start) :=
  keeps_bind (keeps_loadWord _) fun _ => keeps_pure _

theorem keeps_loadSize (block : Nat) :
    (loadSize image block).Keeps (HasMemory image start) :=
  keeps_bind (keeps_loadWord _) fun _ => keeps_pure _

theorem keeps_loadNext (block : Nat) :
    (loadNext image block).Keeps (HasMemory image start) :=
  keeps_bind (keeps_loadWord _) fun _ => keeps_pure _

theorem keeps_loadFree (block : Nat) :
    (loadFree image block).Keeps (HasMemory image start) :=
  keeps_bind (keeps_loadByte _) fun _ => keeps_pure _

theorem keeps_loadLarge (block : Nat) :
    (loadLarge image block).Keeps (HasMemory image start) :=
  keeps_bind (keeps_loadByte _) fun _ => keeps_pure _

theorem keeps_splitBlock (block size : Nat) :
    (splitBlock image block size).Keeps (HasMemory image start) := by
  refine keeps_bind (keeps_loadSize _) fun _ => ?_
  refine keeps_bind (keeps_loadNext _) fun _ => ?_
  refine keeps_bind (keeps_modifyWord _ _) fun _ => ?_
  refine keeps_bind (keeps_modifyWord _ _) fun _ => ?_
  refine keeps_bind (keeps_modifyWord _ _) fun _ => ?_
  refine keeps_bind (keeps_loadNext _) fun _ => ?_
  refine keeps_bind (keeps_modifyWord _ _) fun _ => ?_
  refine keeps_bind (keeps_loadNext _) fun _ => ?_
  refine keeps_bind (keeps_modifyWord _ _) fun _ => ?_
  refine keeps_bind (keeps_loadNext _) fun _ => ?_
  exact keeps_modifyWord _ _

theorem keeps_allocateFromBlock (block size : Nat) :
    (allocateFromBlock image block size).Keeps (HasMemory image start) := by
  refine keeps_ite (keeps_pure _) ?_
  refine keeps_bind (keeps_loadFree _) fun _ => ?_
  refine keeps_ite (keeps_pure _) ?_
  refine keeps_bind (keeps_loadSize _) fun _ => ?_
  refine keeps_ite (keeps_pure _) ?_
  refine keeps_bind (keeps_loadSize _) fun _ => ?_
  refine keeps_ite ?_ ?_
  · exact keeps_bind (keeps_splitBlock _ _) fun _ => keeps_pure _
  · exact keeps_bind (keeps_modifyWord _ _) fun _ => keeps_pure _

theorem keeps_search (size budget : Nat) (pointers : Nat × Nat) :
    (whileLoop .budgetExhausted (searchBlock image size) budget
      pointers).Keeps (HasMemory image start) := by
  apply keeps_whileLoop
  intro pointers
  refine keeps_ite (keeps_pure _) ?_
  refine keeps_bind ?_ fun _ => ?_
  · refine keeps_bind (keeps_loadFree _) fun _ => ?_
    exact keeps_ite (keeps_bind (keeps_loadSize _) fun _ => keeps_pure _)
      (keeps_pure _)
  · exact keeps_ite (keeps_pure _)
      (keeps_bind (keeps_loadNext _) fun _ => keeps_pure _)

theorem keeps_freeSmall (budget block : Nat) :
    (freeSmall image budget block).Keeps (HasMemory image start) := by
  refine keeps_bind (keeps_modifyWord _ _) fun _ => ?_
  refine keeps_bind (keeps_loadNext _) fun _ => ?_
  refine keeps_bind (keeps_loadSize _) fun _ => ?_
  refine keeps_bind (keeps_whileLoop (fun _ => ?_) _ _) fun _ => ?_
  · refine keeps_ite (keeps_pure _) ?_
    refine keeps_bind (keeps_loadFree _) fun _ => ?_
    refine keeps_ite (keeps_pure _) ?_
    refine keeps_ite (keeps_pure _) ?_
    refine keeps_bind (keeps_loadSize _) fun _ => ?_
    exact keeps_bind (keeps_loadNext _) fun _ => keeps_pure _
  refine keeps_bind (keeps_modifyWord _ _) fun _ => ?_
  refine keeps_bind (keeps_modifyWord _ _) fun _ => ?_
  refine keeps_bind (keeps_read _) fun _ => ?_
  refine keeps_bind (keeps_whileLoop (fun _ => ?_) _ _) fun _ => ?_
  · exact keeps_ite (keeps_bind (keeps_loadNext _) fun _ => keeps_pure _)
      (keeps_pure _)
  refine keeps_ite ?_ (keeps_pure _)
  refine keeps_bind (keeps_loadFree _) fun _ => ?_
  refine keeps_ite ?_ (keeps_pure _)
  refine keeps_bind (keeps_loadSize _) fun _ => ?_
  refine keeps_ite ?_ (keeps_pure _)
  refine keeps_bind (keeps_loadSize _) fun _ => ?_
  refine keeps_bind (keeps_loadSize _) fun _ => ?_
  refine keeps_bind (keeps_modifyWord _ _) fun _ => ?_
  refine keeps_bind (keeps_loadNext _) fun _ => ?_
  exact keeps_modifyWord _ _

section

variable (hstatic : start.static image = Contents.initial image contents)

include hstatic

theorem ends_callVm {α : Type} {program : Vm α} (operation : PoolOperation)
    (hprogram : ∀ {memory after : MemoryState} {value : α},
      program.run memory = .ok (value, after) →
      (operation.program image).run memory = .ok ((), after))
    (hstate : HasMemory image start state) :
    (callVm program).Ends (fun _ after => HasMemory image start after)
      state := by
  rw [ends_iff]
  intro value after hrun
  have hzoom := run_zoom HeapState.memory
    (fun memory (state : HeapState) => { state with memory := memory })
    (fun _ _ => rfl) (fun _ _ _ => rfl) (fun _ => rfl) program state
  unfold callVm at hrun
  rw [hzoom] at hrun
  cases hcall : program.run state.memory with
  | error fault =>
      rw [hcall] at hrun
      cases hrun
  | ok result =>
      rw [hcall] at hrun
      cases hrun
      obtain ⟨value, memory⟩ := result
      have hoperation := hprogram hcall
      obtain ⟨other, hother, hsound, _⟩ := operation.sound hstate.sound
      cases hother.symm.trans hoperation
      exact ⟨hsound, (operation.guarded hstatic hstate.resting).run hother⟩

theorem ends_createBlock (hstate : HasMemory image start state) :
    (createBlock image).Ends (fun _ after => HasMemory image start after)
      state := by
  refine ends_bind.mpr ((ends_callVm hstatic .allocatePage
    (fun h => run_bind_ok h _) hstate).weaken ?_)
  intro address after hafter
  refine ends_ite (fun _ => hafter) fun _ => ?_
  have hcreated : HasMemory image start
      { after with created := address :: after.created } := hafter
  refine ends_bind.mpr ((ends_write _).mpr ?_)
  refine (keeps_modifyWord _ _).ends_bind hcreated fun _ after hafter => ?_
  refine (keeps_modifyWord _ _).ends_bind hafter fun _ after hafter => ?_
  refine (keeps_modifyWord _ _).ends_bind hafter fun _ after hafter => ?_
  refine (keeps_modifyWord _ _).ends_bind hafter fun _ after hafter => ?_
  exact hafter

theorem ends_allocateLarge (size : Nat)
    (hstate : HasMemory image start state) :
    (allocateLarge image size).Ends
      (fun _ after => HasMemory image start after) state := by
  refine ends_bind.mpr ((ends_callVm hstatic (.allocatePages (pageCount size))
    (fun h => run_bind_ok h _) hstate).weaken ?_)
  intro address after hafter
  refine ends_ite (fun _ => hafter) fun _ => ?_
  refine (keeps_modifyWord _ _).ends_bind hafter fun _ after hafter => ?_
  refine (keeps_modifyWord _ _).ends_bind hafter fun _ after hafter => ?_
  refine (keeps_modifyWord _ _).ends_bind hafter fun _ after hafter => ?_
  refine (keeps_modifyWord _ _).ends_bind hafter fun _ after hafter => ?_
  exact hafter

theorem ends_extendHeap (previous size : Nat)
    (hstate : HasMemory image start state) :
    (extendHeap image previous size).Ends
      (fun _ after => HasMemory image start after) state := by
  refine ends_bind.mpr ((ends_createBlock hstatic hstate).weaken ?_)
  intro block after hafter
  refine ends_ite (fun _ => hafter) fun _ => ends_ite (fun _ => ?_) fun _ => ?_
  · refine ends_bind.mpr ((ends_write _).mpr ?_)
    exact (keeps_allocateFromBlock _ _).ends hafter
  · exact (keeps_modifyWord _ _).ends_bind hafter fun _ after hafter =>
      (keeps_allocateFromBlock _ _).ends hafter

theorem ends_kmalloc (budget size : Nat)
    (hstate : HasMemory image start state) :
    (kmalloc image budget size).Ends
      (fun _ after => HasMemory image start after) state := by
  refine ends_ite (fun _ => hstate) fun _ => ends_ite (fun _ => hstate)
    fun _ => ends_ite (fun _ => ends_allocateLarge hstatic _ hstate) fun _ => ?_
  refine (keeps_read _).ends_bind hstate fun first after hafter => ?_
  refine (keeps_search _ _ _).ends_bind hafter fun found after hafter => ?_
  exact ends_ite (fun _ => ends_extendHeap hstatic _ _ hafter)
    fun _ => (keeps_allocateFromBlock _ _).ends hafter

theorem ends_kfree (budget pointer : Nat)
    (hstate : HasMemory image start state) :
    (kfree image budget pointer).Ends
      (fun _ after => HasMemory image start after) state := by
  refine ends_ite (fun _ => hstate) fun _ => ?_
  refine (keeps_loadLarge _).ends_bind hstate fun large after hafter => ?_
  refine ends_ite (fun _ => ?_) fun _ => (keeps_freeSmall _ _).ends hafter
  refine (keeps_loadSize _).ends_bind hafter fun size after hafter => ?_
  exact ends_bind.mpr ((ends_callVm hstatic (.freePages _ (pageCount size))
    (fun h => run_bind_ok h _) hafter).weaken fun _ _ hlast => hlast)

theorem hasMemory_of_reachable {run : HeapRun} {heap : HeapState}
    (hheap : HasMemory image start heap)
    (reachable : (heapRuns image heap).Reachable System.unguarded run) :
    HasMemory image start run.heap := by
  apply reachable.holds
  · rintro _ rfl
    exact hheap
  · intro before event after hbefore _ step
    cases step with
    | kmalloc h => exact (ends_kmalloc hstatic _ _ hbefore).of_run h
    | kfree _ h => exact (ends_kfree hstatic _ _ hbefore).of_run h
    | store _ _ h => exact ((keeps_modifyWord _ _).ends hbefore).of_run h

/-! What `allocate_from_block` records. -/

theorem WordIs.storeFree (hstate : HasMemory image start state)
    (h : WordIs image state address word) {block distance : Nat}
    (hnear : distance < 8000)
    (hblock : block % 2 ^ 39 = (address + distance) % 2 ^ 39)
    (change : BitVec 64 → BitVec 64) :
    WordIs image (state.modify image (block + 8 - (block + 8) % 8) change)
      address word := by
  have hrest : (block + 8) % 8 < 8 := Nat.mod_lt _ (by decide)
  exact h.modify hstate hstatic
    (Nat.lt_add_left distance (Nat.sub_pos_of_lt hrest))
    (by omega : distance + (8 - (block + 8) % 8) < 8192) (by omega) change

omit hstatic in
theorem ends_loadNext_bind {α : Type} {post : α → HeapState → Prop}
    {block : Nat} (h : WordIs image state (block + 16) word)
    {next : Nat → HeapProgram α} (hnext : (next word.toNat).Ends post state) :
    (loadNext image block >>= next).Ends post state :=
  ends_bind.mpr (ends_of_run (run_bind_ok h.run_loadWord _) hnext)

/-- A block that is being split, with its size and its link. -/
structure Splitting (image : KernelImage platform) (start : MemoryState)
    (block size : Nat) (state : HeapState) : Prop where
  memory : HasMemory image start state
  recorded : WordIs image state block (BitVec.ofNat 64 size)
  link : WordIs image state (block + 16)
    (BitVec.ofNat 64 (block + sizeofBlock + size))

theorem Splitting.modify {block size : Nat}
    (splitting : Splitting image start block size state) {distance : Nat}
    (hfar : 16 < distance) (hnear : distance < 8192)
    (hother : other % 2 ^ 39 = (block + distance) % 2 ^ 39)
    (change : BitVec 64 → BitVec 64) :
    Splitting image start block size (state.modify image other change) where
  memory := splitting.memory.modify other change
  recorded := splitting.recorded.modify splitting.memory hstatic (by omega) hnear
    hother change
  link := splitting.link.modify splitting.memory hstatic
    (by omega : 0 < distance - 16) (by omega) (by omega) change

theorem ends_splitBlock (hstate : HasMemory image start state)
    (block : Nat) {size : Nat} (hsize : size < 7000) :
    (splitBlock image block size).Ends
      (fun _ after => WordIs image after block (BitVec.ofNat 64 size))
      state := by
  refine (keeps_loadSize _).ends_bind hstate fun current after hafter => ?_
  refine (keeps_loadNext _).ends_bind hafter fun next after hafter => ?_
  refine (keeps_modifyWord _ _).ends_bind hafter fun _ after hafter => ?_
  refine ends_bind.mpr (ends_modifyWord fun _ hword => ?_)
  have hsized := wordIs_modify hword fun _ => BitVec.ofNat 64 size
  have hmemory := hafter.modify block fun _ => BitVec.ofNat 64 size
  refine ends_bind.mpr (ends_modifyWord fun _ hword => ?_)
  have splitting : Splitting image start block size _ :=
    ⟨hmemory.modify _ _, hsized.modify hmemory hstatic (by decide : 0 < 16)
      (by decide) rfl _, wordIs_modify hword fun _ => _⟩
  -- the new header is as far behind the block as its size says
  have hheader : (BitVec.ofNat 64 (block + sizeofBlock + size)).toNat =
      (block + 24 + size) % 2 ^ 64 := BitVec.toNat_ofNat ..
  have hrest : ((BitVec.ofNat 64 (block + sizeofBlock + size)).toNat + 8) % 8 <
      8 := Nat.mod_lt _ (by decide)
  refine ends_loadNext_bind splitting.link (ends_bind.mpr
    (ends_modifyWord fun _ _ => ?_))
  have hsizeWord : (BitVec.ofNat 64 (block + sizeofBlock + size)).toNat %
      2 ^ 39 = (block + (24 + size)) % 2 ^ 39 := by omega
  replace splitting := splitting.modify hstatic (by omega) (by omega)
    hsizeWord fun _ =>
      BitVec.ofNat 64 (uint64 (current + 2 ^ 64 - size - sizeofBlock))
  refine ends_loadNext_bind splitting.link (ends_bind.mpr
    (ends_modifyWord fun _ _ => ?_))
  have hflagWord : ((BitVec.ofNat 64 (block + sizeofBlock + size)).toNat + 8 -
      ((BitVec.ofNat 64 (block + sizeofBlock + size)).toNat + 8) % 8) %
        2 ^ 39 = (block + (24 + size + 8 -
          ((BitVec.ofNat 64 (block + sizeofBlock + size)).toNat + 8) % 8)) %
            2 ^ 39 := by omega
  replace splitting := splitting.modify hstatic (by omega) (by omega)
    hflagWord fun word => setByte word
      (((BitVec.ofNat 64 (block + sizeofBlock + size)).toNat + 8) % 8) 1
  refine ends_loadNext_bind splitting.link (ends_modifyWord fun _ _ => ?_)
  have hlinkWord : ((BitVec.ofNat 64 (block + sizeofBlock + size)).toNat +
      16) % 2 ^ 39 = (block + (24 + size + 16)) % 2 ^ 39 := by omega
  exact (splitting.modify hstatic (by omega) (by omega) hlinkWord
    fun _ => BitVec.ofNat 64 next).recorded

def Records (image : KernelImage platform) (size result : Nat)
    (after : HeapState) : Prop :=
  result ≠ 0 → ∃ recorded,
    (loadSize image (result - sizeofBlock)).run after =
      .ok (recorded, after) ∧ size ≤ recorded

omit hstatic in
theorem WordIs.records {block size : Nat}
    (h : WordIs image state block word) (hsize : size ≤ word.toNat) :
    Records image size (block + sizeofBlock) state := by
  intro _
  rw [Nat.add_sub_cancel]
  exact ⟨word.toNat, run_bind_ok h.run_loadWord _, hsize⟩

theorem ends_allocateFromBlock (hstate : HasMemory image start state)
    (block : Nat) {size : Nat} (hsize : size < 7000) :
    (allocateFromBlock image block size).Ends (Records image size) state := by
  have hzero : ∀ after, Records image size 0 after := fun _ h => absurd rfl h
  refine ends_ite (fun _ => hzero _) fun _ => ?_
  refine (keeps_loadFree _).ends_bind hstate fun free after hafter => ?_
  refine ends_ite (fun _ => hzero _) fun _ => ?_
  refine ends_bind.mpr (ends_bind.mpr (ends_loadWord fun word hword => ?_))
  refine ends_ite (fun _ => hzero _) fun hfits => ?_
  refine ends_bind.mpr (ends_bind.mpr (ends_loadWord fun _ _ => ?_))
  refine ends_ite (fun _ => ?_) fun _ => ?_
  · refine ends_bind.mpr ((ends_splitBlock hstatic hafter block hsize).weaken
      ?_)
    intro _ final hfinal
    refine hfinal.records ?_
    rw [BitVec.toNat_ofNat]
    omega
  · refine ends_bind.mpr (ends_modifyWord fun _ _ => ?_)
    have hkept := hword.storeFree hstatic hafter (by decide : 0 < 8000) rfl
      fun word => setByte word ((block + 8) % 8) 0
    exact hkept.records (Nat.not_lt.mp hfits)

theorem ends_allocateSmall (hstate : HasMemory image start state)
    (budget : Nat) {size : Nat} (hsize : size < 7000) :
    (allocateSmall image budget size).Ends (Records image size) state := by
  refine (keeps_read _).ends_bind hstate fun first after hafter => ?_
  refine (keeps_search _ _ _).ends_bind hafter fun found after hafter => ?_
  refine ends_ite (fun _ => ?_)
    fun _ => ends_allocateFromBlock hstatic hafter _ hsize
  refine ends_bind.mpr ((ends_createBlock hstatic hafter).weaken ?_)
  intro block after hafter
  refine ends_ite (fun _ h => absurd rfl h) fun _ => ends_ite (fun _ => ?_)
    fun _ => ?_
  · have hlinked : HasMemory image start { after with firstBlock := block } :=
      hafter
    refine ends_bind.mpr ((ends_write _).mpr ?_)
    exact ends_allocateFromBlock hstatic hlinked block hsize
  · exact (keeps_modifyWord _ _).ends_bind hafter fun _ after hafter =>
      ends_allocateFromBlock hstatic hafter block hsize

end

/-- The pages of a large block have room for what was asked for. -/
def CoversPages (state : HeapState) (size result : Nat) (after : HeapState) :
    Prop :=
  ∃ first, result = pageAddress first + sizeofBlock ∧
    FreeRun state.memory first (pageCount (alignSize size)) ∧
    (∀ page, first ≤ page → page < first + pageCount (alignSize size) →
      after.memory.virtualBitmap.test page = true) ∧
    sizeofBlock + size ≤ pageCount (alignSize size) * pageSize

structure SizedRight (image : KernelImage platform) (state : HeapState)
    (size : Nat) : Prop where
  /-- `align_size` does not wrap around. -/
  rounding : size + 7 < 2 ^ 64
  /-- Nor does anything behind the check of the size. -/
  addition : alignSize size ≤ 2 ^ 64 - 1 - sizeofBlock →
    alignSize size + sizeofBlock < 2 ^ 64 ∧
      pageCount (alignSize size) < 2 ^ 64
  recorded : ∀ budget result after,
    (kmalloc image budget size).run state = .ok (result, after) →
    Records image size result after
  covered : ∀ budget result after,
    (kmalloc image budget size).run state = .ok (result, after) →
    result ≠ 0 → pageSize - sizeofBlock < alignSize size →
    CoversPages state size result after

theorem alignSize_spec {size : Nat} (h : size + 7 < 2 ^ 64) :
    size ≤ alignSize size ∧ alignSize size ≤ size + 7 := by
  unfold alignSize
  rw [uint64_eq h]
  simp only
  omega

theorem allocateLarge_records (hstate : HasMemory image start state)
    {size result : Nat} {after : HeapState}
    (hsize : size + sizeofBlock < 2 ^ 64)
    (hrun : (allocateLarge image size).run state = .ok (result, after))
    (hne : result ≠ 0) :
    Records image size result after ∧
      ∃ first, result = pageAddress first + sizeofBlock ∧
        FreeRun state.memory first (pageCount size) ∧
        ∀ page, first ≤ page → page < first + pageCount size →
          after.memory.virtualBitmap.test page = true := by
  obtain ⟨other, last, hother, _, _, hcases⟩ :=
    run_allocateLarge hstate.sound hsize
  cases hother.symm.trans hrun
  rcases hcases with ⟨hzero, _⟩ | ⟨first, hresult, _, new⟩
  · exact absurd hzero hne
  rw [pageCount_eq hsize]
  refine ⟨?_, first, hresult, new.unused, fun page => new.bits.inside⟩
  intro _
  rw [hresult, Nat.add_sub_cancel]
  exact ⟨size, new.header.run_loadSize, Nat.le_refl size⟩

theorem HasMemory.sizedRight
    (hstatic : start.static image = Contents.initial image contents)
    (hstate : HasMemory image start state) {size : Nat}
    (hpositive : 1 ≤ size) (h : size ≤ 2 ^ 64 - 8) :
    SizedRight image state size := by
  have hrounding : size + 7 < 2 ^ 64 := by omega
  obtain ⟨hlow, hhigh⟩ := alignSize_spec hrounding
  have hbranches : ∀ budget, kmalloc image budget size =
      if alignSize size > 2 ^ 64 - 1 - sizeofBlock then pure 0
      else if alignSize size > pageSize - sizeofBlock then
        allocateLarge image (alignSize size)
      else allocateSmall image budget (alignSize size) := by
    intro budget
    unfold kmalloc
    rw [if_neg (by omega)]
  refine ⟨hrounding, ?_, ?_, ?_⟩
  · intro hguard
    have hsize : alignSize size + sizeofBlock < 2 ^ 64 := by
      unfold sizeofBlock at *
      omega
    have hpages := pagesFor_spec (alignSize size)
    refine ⟨hsize, ?_⟩
    rw [pageCount_eq hsize]
    unfold pageSize at hpages
    omega
  · intro budget result after hrun hne
    rw [hbranches] at hrun
    split at hrun
    · cases hrun
      exact absurd rfl hne
    split at hrun
    · obtain ⟨recorded, hload, hle⟩ := (allocateLarge_records hstate
        (by unfold sizeofBlock at *; omega) hrun hne).1 hne
      exact ⟨recorded, hload, Nat.le_trans hlow hle⟩
    · have hsmall : alignSize size < 7000 := by
        unfold pageSize sizeofBlock at *
        omega
      obtain ⟨recorded, hload, hle⟩ :=
        (ends_allocateSmall hstatic hstate budget hsmall).of_run hrun hne
      exact ⟨recorded, hload, Nat.le_trans hlow hle⟩
  · intro budget result after hrun hne hlarge
    rw [hbranches] at hrun
    split at hrun
    · cases hrun
      exact absurd rfl hne
    have hsize : alignSize size + sizeofBlock < 2 ^ 64 := by
      unfold sizeofBlock at *
      omega
    obtain ⟨_, first, hresult, hfree, hused⟩ :=
      allocateLarge_records hstate hsize hrun hne
    refine ⟨first, hresult, hfree, hused, ?_⟩
    have hpages := pagesFor_spec (alignSize size)
    rw [pageCount_eq hsize]
    omega

theorem hasMemory_start {memory : MemoryState} {ram : Nat → BitVec 64}
    {heap : HeapState}
    (hstart : (initHeap image).run (bootHeap memory ram) = .ok ((), heap)) :
    ∃ start, start.static image =
        Contents.initial image (memory.static image) ∧
      HasMemory image start heap := by
  obtain ⟨booted, hrun, sound, _⟩ := run_initMemory image memory
  obtain ⟨resting, hstatic⟩ := resting_start hrun
  refine ⟨booted, hstatic, ?_⟩
  have hcall : (callVm (initMemory image)).run (bootHeap memory ram) =
      .ok ((), { bootHeap memory ram with memory := booted }) :=
    run_callVm hrun
  have hbooted : HasMemory image booted
      { bootHeap memory ram with memory := booted } := ⟨sound, resting⟩
  unfold initHeap at hstart
  rw [run_bind_ok hcall] at hstart
  have hends : (KernelHeapAllocator.init image).Ends
      (fun _ after => HasMemory image booted after)
      { bootHeap memory ram with memory := booted } := by
    refine ends_bind.mpr ((ends_createBlock hstatic hbooted).weaken ?_)
    intro block after hafter
    exact hafter
  exact hends.of_run hstart

end

/-- In every state of every run of the heap, `kmalloc` computes and records the
sizes right exactly when `align_size` does not wrap around. -/
theorem sizedRight_iff_of_reachable {platform : Platform}
    {image : KernelImage platform} {memory : MemoryState}
    {ram : Nat → BitVec 64} {start : HeapState} {run : HeapRun}
    (hstart : (initHeap image).run (bootHeap memory ram) = .ok ((), start))
    (reachable : (heapRuns image start).Reachable System.unguarded run)
    {size : Nat} (hpositive : 1 ≤ size) (hsize : size ≤ 2 ^ 64 - 1) :
    SizedRight image run.heap size ↔ size ≤ 2 ^ 64 - 8 := by
  obtain ⟨booted, hstatic, hheap⟩ := hasMemory_start hstart
  have hmemory := hasMemory_of_reachable hstatic hheap reachable
  constructor
  · intro sized
    have hrounding := sized.rounding
    omega
  · exact hmemory.sizedRight hstatic hpositive

/-- A block of the first page is taken. -/
theorem sizedRight_oneLive :
    ∃ start run, (initHeap smallImage).run (bootHeap bootMemory fun _ => 0) =
        .ok ((), start) ∧
      (heapRuns smallImage start).Reachable System.unguarded run ∧
      run.live ≠ [] ∧ SizedRight smallImage run.heap 64 := by
  obtain ⟨start, _, run, hstart, reachable, staged⟩ :=
    reached_oneLive smallImage bootMemory fun _ => 0
  have reached := reachable.weaken fun _ _ _ => trivial
  refine ⟨start, run, hstart, reached, ?_,
    (sizedRight_iff_of_reachable hstart reached (by decide)
      (by decide)).mpr (by decide)⟩
  rw [staged.live]
  exact List.cons_ne_nil _ _

/-- The largest size is rounded to zero. -/
theorem sizedRight_fails_for_largest :
    ∃ start budget result after,
      (initHeap smallImage).run (bootHeap bootMemory fun _ => 0) =
        .ok ((), start) ∧
      (heapRuns smallImage start).Reachable System.unguarded ⟨start, []⟩ ∧
      (kmalloc smallImage budget (2 ^ 64 - 1)).run start =
        .ok (result, after) ∧
      result ≠ 0 ∧
      (loadSize smallImage (result - sizeofBlock)).run after =
        .ok (0, after) ∧
      ¬ SizedRight smallImage start (2 ^ 64 - 1) := by
  obtain ⟨start, booted, hstart, staged, _⟩ :=
    staged_start smallImage bootMemory fun _ => 0
  have hwraps : alignSize (2 ^ 64 - 1) = 0 := rfl
  obtain ⟨after, hreturns, arranged, _⟩ := @Arranged.serve _ _ _ _ 0
    staged.arranged [] [] (newChunk 0) rfl nofun (by decide) rfl
  have hrun := hreturns.run_eq (Nat.lt_succ_self _)
  have hcall : (kmalloc smallImage 2 (2 ^ 64 - 1)).run start =
      .ok ((newChunk 0).payload, after) := by
    rw [kmalloc_eq_allocateSmall (by decide) (by decide), hwraps]
    exact hrun
  have hload := arranged.headers.1.run_loadSize
  refine ⟨start, 2, (newChunk 0).payload, after, hstart, .initial rfl, hcall,
    Chunk.payload_ne_zero _, hload, ?_⟩
  intro sized
  have hrounding := sized.rounding
  omega

end Planetoid.Memory
