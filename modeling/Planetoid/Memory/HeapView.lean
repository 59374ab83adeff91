import Planetoid.Memory.KernelHeap
import Planetoid.Memory.PoolOperations

namespace Planetoid.Memory

open Planetoid Program Mmu VirtualMemory

/-! The words of the pool by their virtual addresses. -/

abbrev View := Nat → Option (BitVec 64)

namespace View

def setWord (view : View) (address value : Nat) : View :=
  Function.update view address (some (BitVec.ofNat 64 value))

def setFlag (view : View) (address index : Nat) (flag : Bool) : View :=
  Function.update view address
    ((view address).map fun word => setByte word index (if flag then 1 else 0))

@[simp] theorem setWord_self (view : View) (address value : Nat) :
    view.setWord address value address = some (BitVec.ofNat 64 value) :=
  Function.update_self ..

theorem setWord_of_ne (view : View) {address other : Nat}
    (h : other ≠ address) (value : Nat) :
    view.setWord address value other = view other :=
  Function.update_of_ne h ..

theorem setFlag_self (view : View) {address : Nat} {word : BitVec 64}
    (h : view address = some word) (index : Nat) (flag : Bool) :
    view.setFlag address index flag address =
      some (setByte word index (if flag then 1 else 0)) := by
  unfold setFlag
  rw [Function.update_self, h]
  rfl

theorem setFlag_of_ne (view : View) {address other : Nat}
    (h : other ≠ address) (index : Nat) (flag : Bool) :
    view.setFlag address index flag other = view other :=
  Function.update_of_ne h ..

end View

def PoolWord (address : Nat) : Prop :=
  virtualMemoryStart ≤ address ∧ address < virtualMemoryEnd ∧
    address % 8 = 0

instance (address : Nat) : Decidable (PoolWord address) :=
  inferInstanceAs (Decidable (_ ∧ _))

def pageOf (address : Nat) : Nat := (address - virtualMemoryStart) / pageSize

theorem pageOf_lt {address : Nat} (h : PoolWord address) :
    pageOf address < virtualPageCount := by
  obtain ⟨_, hlast, _⟩ := h
  rw [virtualPageCount_eq]
  unfold virtualMemoryEnd at hlast
  unfold pageOf virtualMemoryStart pageSize
  omega

theorem pageAddress_pageOf {address : Nat} (h : PoolWord address) :
    address = pageAddress (pageOf address) + address % pageSize := by
  obtain ⟨hfirst, _, _⟩ := h
  unfold virtualMemoryStart at hfirst
  unfold pageAddress pageOf virtualMemoryStart pageSize
  omega

theorem levels_pageOf {address : Nat} (h : PoolWord address) :
    level1Of (pageAddress (pageOf address)) = level1Of address ∧
      level2Of (pageAddress (pageOf address)) = level2Of address ∧
      level3Of (pageAddress (pageOf address)) = level3Of address := by
  have heq := pageAddress_pageOf h
  have haligned := pageAddress_mod (pageOf address)
  have hlt : address % pageSize < pageSize := Nat.mod_lt _ (by decide)
  unfold pageSize at hlt haligned heq
  refine ⟨Fin.ext ?_, Fin.ext ?_, Fin.ext ?_⟩
  · change getLevel1Index _ = getLevel1Index _
    rw [getLevel1Index_eq, getLevel1Index_eq]
    omega
  · change getLevel2Index _ = getLevel2Index _
    rw [getLevel2Index_eq, getLevel2Index_eq]
    omega
  · change getLevel3Index _ = getLevel3Index _
    rw [getLevel3Index_eq, getLevel3Index_eq]
    omega

section

variable {platform : Platform} (image : KernelImage platform)

def HeapState.view (state : HeapState) : View := fun address =>
  if PoolWord address then (state.translate image address).map state.ram
  else none

variable {image} {state : HeapState}

theorem translate_pool {address : Nat} (h : PoolWord address) :
    state.translate image address =
      if poolLeaf image state.memory (pageOf address) &&& 0b11 =
          pageDescriptor then
        some ((poolLeaf image state.memory (pageOf address) &&&
          addressMask) + address % pageSize)
      else none := by
  obtain ⟨h1, h2, h3⟩ := levels_pageOf h
  unfold HeapState.translate poolLeaf
  rw [h1, h2, h3]

theorem translate_eq_some (sound : Sound image state.memory none)
    {address physical : Nat} (h : PoolWord address) :
    state.translate image address = some physical ↔
      ∃ frame, Mapped image state.memory (pageOf address) frame ∧
        frame < state.memory.frameCount ∧
        physical = platform.frameAddress frame + address % pageSize := by
  rw [translate_pool h]
  constructor
  · intro htranslate
    split at htranslate
    · rename_i htype
      have hentry : poolLeaf image state.memory (pageOf address) ≠ 0 :=
        ne_zero_of_type htype (by decide)
      obtain ⟨frame, hmapped, loose⟩ :=
        sound.entries _ (pageOf_lt h) hentry
      refine ⟨frame, hmapped, loose.bounded, ?_⟩
      rw [hmapped, poolDescriptor_address sound.paging loose.bounded]
        at htranslate
      exact (Option.some.inj htranslate).symm
    · cases htranslate
  · rintro ⟨frame, hmapped, hlt, rfl⟩
    rw [hmapped, if_pos (poolDescriptor_type frame),
      poolDescriptor_address sound.paging hlt]

theorem translate_injective (sound : Sound image state.memory none)
    {address other physical : Nat} (h : PoolWord address)
    (hother : PoolWord other)
    (hfirst : state.translate image address = some physical)
    (hsecond : state.translate image other = some physical) :
    address = other := by
  obtain ⟨frame, hmapped, _, heq⟩ := (translate_eq_some sound h).mp hfirst
  obtain ⟨frame', hmapped', _, heq'⟩ :=
    (translate_eq_some sound hother).mp hsecond
  have hoffset : address % pageSize < pageSize := Nat.mod_lt _ (by decide)
  have hoffset' : other % pageSize < pageSize := Nat.mod_lt _ (by decide)
  have haligned := platform.frameAddress_mod frame
  have haligned' := platform.frameAddress_mod frame'
  have hframe : platform.frameAddress frame =
      platform.frameAddress frame' := by
    unfold pageSize at *
    omega
  obtain rfl := platform.frameAddress_injective hframe
  have hpage := sound.unique _ _ frame (pageOf_lt h) (pageOf_lt hother)
    hmapped hmapped'
  rw [pageAddress_pageOf h, pageAddress_pageOf hother, hpage]
  omega

theorem view_eq_some {address : Nat} {word : BitVec 64} :
    state.view image address = some word ↔ PoolWord address ∧
      ∃ physical, state.translate image address = some physical ∧
        state.ram physical = word := by
  unfold HeapState.view
  by_cases h : PoolWord address
  · rw [if_pos h, Option.map_eq_some_iff]
    exact ⟨fun hsome => ⟨h, hsome⟩, fun hsome => hsome.2⟩
  · rw [if_neg h]
    constructor
    · intro hnone
      cases hnone
    · exact fun hsome => absurd hsome.1 h

theorem view_isSome (sound : Sound image state.memory none)
    {address : Nat} (h : PoolWord address) :
    (∃ word, state.view image address = some word) ↔
      state.memory.virtualBitmap.test (pageOf address) = true := by
  rw [sound.bits _ (pageOf_lt h)]
  constructor
  · rintro ⟨word, hword⟩
    obtain ⟨_, physical, htranslate, _⟩ := view_eq_some.mp hword
    obtain ⟨frame, hmapped, _⟩ :=
      (translate_eq_some sound h).mp htranslate
    rw [hmapped]
    exact poolDescriptor_ne_zero frame
  · intro hentry
    obtain ⟨frame, hmapped, loose⟩ := sound.entries _ (pageOf_lt h) hentry
    exact ⟨_, view_eq_some.mpr ⟨h, _, (translate_eq_some sound h).mpr
      ⟨frame, hmapped, loose.bounded, rfl⟩, rfl⟩⟩

@[simp] theorem modify_memory (address : Nat)
    (change : BitVec 64 → BitVec 64) :
    (state.modify image address change).memory = state.memory := by
  unfold HeapState.modify
  split <;> rfl

@[simp] theorem modify_firstBlock (address : Nat)
    (change : BitVec 64 → BitVec 64) :
    (state.modify image address change).firstBlock = state.firstBlock := by
  unfold HeapState.modify
  split <;> rfl

@[simp] theorem modify_created (address : Nat)
    (change : BitVec 64 → BitVec 64) :
    (state.modify image address change).created = state.created := by
  unfold HeapState.modify
  split <;> rfl

theorem view_modify (sound : Sound image state.memory none)
    {address : Nat} {word : BitVec 64}
    (h : state.view image address = some word)
    (change : BitVec 64 → BitVec 64) :
    (state.modify image address change).view image =
      Function.update (state.view image) address (some (change word)) := by
  obtain ⟨hpool, physical, htranslate, hram⟩ := view_eq_some.mp h
  have hmodify : state.modify image address change = { state with
      ram := Function.update state.ram physical
        (change (state.ram physical)) } := by
    unfold HeapState.modify
    rw [htranslate]
  have hsame : ∀ other, (state.modify image address change).translate image
      other = state.translate image other := by
    intro other
    rw [hmodify]
    rfl
  funext other
  by_cases heq : other = address
  · subst other
    rw [Function.update_self]
    refine view_eq_some.mpr ⟨hpool, physical, (hsame _).trans htranslate, ?_⟩
    rw [hmodify, ← hram]
    exact Function.update_self ..
  · rw [Function.update_of_ne heq]
    unfold HeapState.view
    by_cases hother : PoolWord other
    · rw [if_pos hother, if_pos hother, hsame]
      cases hphysical : state.translate image other with
      | none => rfl
      | some place =>
          have hne : place ≠ physical := by
            rintro rfl
            exact heq (translate_injective sound hother hpool hphysical
              htranslate)
          rw [hmodify]
          simp only [Option.map_some, Function.update_of_ne hne]
    · rw [if_neg hother, if_neg hother]

/-- `after` is `before` with stores to the pool, which leave `words`. -/
structure Stores (image : KernelImage platform) (before after : HeapState)
    (words : View) : Prop where
  memory : after.memory = before.memory
  firstBlock : after.firstBlock = before.firstBlock
  created : after.created = before.created
  view : after.view image = words

theorem Stores.refl (state : HeapState) :
    Stores image state state (state.view image) :=
  ⟨rfl, rfl, rfl, rfl⟩

theorem Stores.trans {before middle after : HeapState} {words last : View}
    (first : Stores image before middle words)
    (second : Stores image middle after last) :
    Stores image before after last where
  memory := second.memory.trans first.memory
  firstBlock := second.firstBlock.trans first.firstBlock
  created := second.created.trans first.created
  view := second.view

theorem Stores.sound {before after : HeapState} {words : View}
    (stores : Stores image before after words)
    (sound : Sound image before.memory none) :
    Sound image after.memory none := by
  rw [stores.memory]
  exact sound

namespace KernelHeapAllocator

theorem run_loadWord {address : Nat} {word : BitVec 64}
    (h : state.view image address = some word) :
    (loadWord image address).run state = .ok (word, state) := by
  obtain ⟨_, physical, htranslate, rfl⟩ := view_eq_some.mp h
  unfold loadWord
  rw [run_access, htranslate]
  rfl

theorem run_modifyWord {address : Nat} {word : BitVec 64}
    (h : state.view image address = some word)
    (change : BitVec 64 → BitVec 64) :
    (modifyWord image address change).run state =
      .ok ((), state.modify image address change) := by
  obtain ⟨_, physical, htranslate, _⟩ := view_eq_some.mp h
  unfold modifyWord
  rw [run_access, htranslate]
  rfl

theorem poolWord_of_view {address : Nat} {word : BitVec 64}
    (h : state.view image address = some word) : PoolWord address :=
  (view_eq_some.mp h).1

theorem run_loadSize {block : Nat} {word : BitVec 64}
    (h : state.view image block = some word) :
    (loadSize image block).run state = .ok (word.toNat, state) :=
  run_bind_ok (run_loadWord h) _

theorem run_loadNext {block : Nat} {word : BitVec 64}
    (h : state.view image (block + 16) = some word) :
    (loadNext image block).run state = .ok (word.toNat, state) :=
  run_bind_ok (run_loadWord h) _

theorem byte_place {address index : Nat} (h : PoolWord address)
    (hindex : index < 8) :
    address + index - (address + index) % 8 = address ∧
      (address + index) % 8 = index := by
  obtain ⟨_, _, haligned⟩ := h
  omega

theorem run_loadByte {address index : Nat} {word : BitVec 64}
    (h : state.view image address = some word) (hindex : index < 8) :
    (loadByte image (address + index)).run state =
      .ok (byteOf word index, state) := by
  obtain ⟨hword, hbyte⟩ := byte_place (poolWord_of_view h) hindex
  unfold loadByte
  rw [hword, hbyte]
  exact run_bind_ok (run_loadWord h) _

theorem run_loadFree {block : Nat} {word : BitVec 64}
    (h : state.view image (block + 8) = some word) :
    (loadFree image block).run state = .ok (byteOf word 0 != 0, state) :=
  run_bind_ok (@run_loadByte _ _ _ (block + 8) 0 _ h (by decide)) _

theorem run_loadLarge {block : Nat} {word : BitVec 64}
    (h : state.view image (block + 8) = some word) :
    (loadLarge image block).run state = .ok (byteOf word 1 != 0, state) :=
  run_bind_ok (@run_loadByte _ _ _ (block + 8) 1 _ h (by decide)) _

section

variable {before : HeapState} {words : View}
  (sound : Sound image before.memory none)
  (stores : Stores image before state words)

include sound stores

theorem run_storeWord_stores {address : Nat} {word : BitVec 64}
    (h : words address = some word) (value : Nat) :
    ∃ after, (modifyWord image address fun _ =>
        BitVec.ofNat 64 value).run state = .ok ((), after) ∧
      Stores image before after (words.setWord address value) := by
  rw [← stores.view] at h ⊢
  refine ⟨_, run_modifyWord h _, ?_⟩
  refine ⟨?_, ?_, ?_, view_modify (stores.sound sound) h _⟩
  · rw [modify_memory, stores.memory]
  · rw [modify_firstBlock, stores.firstBlock]
  · rw [modify_created, stores.created]

theorem run_storeByte_stores {address index : Nat} {word : BitVec 64}
    (h : words address = some word) (hindex : index < 8) (flag : Bool) :
    ∃ after, (storeByte image (address + index)
        (if flag then 1 else 0)).run state = .ok ((), after) ∧
      Stores image before after (words.setFlag address index flag) := by
  rw [← stores.view] at h ⊢
  obtain ⟨hword, hbyte⟩ := byte_place (poolWord_of_view h) hindex
  unfold storeByte
  rw [hword, hbyte]
  refine ⟨_, run_modifyWord h _, ?_⟩
  refine ⟨?_, ?_, ?_, ?_⟩
  · rw [modify_memory, stores.memory]
  · rw [modify_firstBlock, stores.firstBlock]
  · rw [modify_created, stores.created]
  · rw [view_modify (stores.sound sound) h]
    unfold View.setFlag
    rw [h]
    rfl

theorem run_storeSize {block : Nat} {word : BitVec 64}
    (h : words block = some word) (size : Nat) :
    ∃ after, (storeSize image block size).run state = .ok ((), after) ∧
      Stores image before after (words.setWord block size) :=
  run_storeWord_stores sound stores h size

theorem run_storeNext {block : Nat} {word : BitVec 64}
    (h : words (block + 16) = some word) (next : Nat) :
    ∃ after, (storeNext image block next).run state = .ok ((), after) ∧
      Stores image before after (words.setWord (block + 16) next) :=
  run_storeWord_stores sound stores h next

theorem run_storeFree {block : Nat} {word : BitVec 64}
    (h : words (block + 8) = some word) (free : Bool) :
    ∃ after, (storeFree image block free).run state = .ok ((), after) ∧
      Stores image before after (words.setFlag (block + 8) 0 free) :=
  @run_storeByte_stores _ _ _ _ _ sound stores (block + 8) 0 _ h (by decide)
    free

theorem run_storeLarge {block : Nat} {word : BitVec 64}
    (h : words (block + 8) = some word) (large : Bool) :
    ∃ after, (storeLarge image block large).run state = .ok ((), after) ∧
      Stores image before after (words.setFlag (block + 8) 1 large) :=
  @run_storeByte_stores _ _ _ _ _ sound stores (block + 8) 1 _ h (by decide)
    large

end

theorem run_callVm {program : Vm α} {result : α} {memory : MemoryState}
    (h : program.run state.memory = .ok (result, memory)) :
    (callVm program).run state =
      .ok (result, { state with memory := memory }) := by
  have hzoom := run_zoom HeapState.memory
    (fun memory state => { state with memory := memory }) (fun _ _ => rfl)
    (fun _ _ _ => rfl) (fun _ => rfl) program state
  unfold callVm
  rw [hzoom, h]
  rfl

end KernelHeapAllocator

theorem view_of_leaf {memory : MemoryState} {address : Nat}
    (h : PoolWord address → poolLeaf image memory (pageOf address) =
      poolLeaf image state.memory (pageOf address)) :
    ({ state with memory := memory } : HeapState).view image address =
      state.view image address := by
  unfold HeapState.view
  by_cases hpool : PoolWord address
  · rw [if_pos hpool, if_pos hpool, translate_pool hpool,
      translate_pool hpool]
    simp only [h hpool]
  · rw [if_neg hpool, if_neg hpool]

end

end Planetoid.Memory
