import Planetoid.Base.Noninterference
import Planetoid.Memory.HeapSizes

namespace Planetoid.Memory

open Planetoid Program VirtualMemory KernelHeapAllocator

/-! Clients that store into their allocations while a call is in progress. -/

def ClientWord (live : List (Nat × Nat)) (address : Nat) : Prop :=
  address % 8 = 0 ∧
    ∃ pair ∈ live, pair.1 ≤ address ∧ address < pair.1 + pair.2

section

variable {platform : Platform} (image : KernelImage platform)

/-- The pages of the clients, with the entries that they have in `origin`. -/
def clientPins (origin : HeapState) (live : List (Nat × Nat)) : Pins :=
  fun page entry =>
    (∃ address, ClientWord live address ∧ pageOf address = page) ∧
      entry = poolLeaf image origin.memory page

def ClientPlace (origin : HeapState) (live : List (Nat × Nat))
    (physical : Nat) : Prop :=
  ∃ address, ClientWord live address ∧
    origin.translate image address = some physical

structure SameButClients (origin : HeapState) (live : List (Nat × Nat))
    (first second : HeapState) : Prop where
  memory : second.memory = first.memory
  firstBlock : second.firstBlock = first.firstBlock
  created : second.created = first.created
  ram : ∀ physical, ¬ ClientPlace image origin live physical →
    second.ram physical = first.ram physical

def clients (origin : HeapState) (live : List (Nat × Nat)) :
    Disturbance HeapState where
  same := SameButClients image origin live
  always := fun state => Pinned image (clientPins image origin live) state.memory

def Serving (start : MemoryState) (origin : HeapState)
    (live : List (Nat × Nat)) (state : HeapState) : Prop :=
  HeapMemory image start (clientPins image origin live) state.memory

end

/-- The header of a block is in the pool, and no client has a part of it. -/
def HeaderApart (live : List (Nat × Nat)) (block : Nat) : Prop :=
  ∀ offset, offset ≤ 16 → offset % 8 = 0 →
    PoolWord (block + offset) ∧ ¬ ClientWord live (block + offset)

section

variable {platform : Platform} {image : KernelImage platform}
  {start : MemoryState} {origin state other after : HeapState}
  {live : List (Nat × Nat)} {address block size : Nat}

theorem SameButClients.refl (state : HeapState) :
    SameButClients image origin live state state :=
  ⟨rfl, rfl, rfl, fun _ _ => rfl⟩

theorem SameButClients.trans {middle : HeapState}
    (first : SameButClients image origin live state middle)
    (second : SameButClients image origin live middle other) :
    SameButClients image origin live state other where
  memory := second.memory.trans first.memory
  firstBlock := second.firstBlock.trans first.firstBlock
  created := second.created.trans first.created
  ram := fun physical h => (second.ram physical h).trans (first.ram physical h)

theorem SameButClients.hasMemory
    (same : SameButClients image origin live state other)
    (memory : HasMemory image start state) : HasMemory image start other := by
  unfold HasMemory
  rw [same.memory]
  exact memory

theorem SameButClients.translate
    (same : SameButClients image origin live state other) (address : Nat) :
    other.translate image address = state.translate image address := by
  unfold HeapState.translate
  rw [same.memory]

/-- A store that the allocator makes, whatever clients have stored. -/
theorem SameButClients.modify
    (same : SameButClients image origin live state other) (address : Nat)
    (change : BitVec 64 → BitVec 64) :
    SameButClients image origin live (state.modify image address change)
      (other.modify image address change) := by
  unfold HeapState.modify
  rw [same.translate]
  cases state.translate image address with
  | none => exact same
  | some place =>
      refine ⟨same.memory, same.firstBlock, same.created, ?_⟩
      intro physical hout
      simp only [Function.update_apply]
      split
      · rename_i heq
        rw [← heq, same.ram physical hout]
      · exact same.ram physical hout

theorem translate_client
    (pinned : Pinned image (clientPins image origin live) state.memory)
    (hclient : ClientWord live address) (hpool : PoolWord address) :
    state.translate image address = origin.translate image address := by
  obtain ⟨_, _, hleaf⟩ := pinned (pageOf address) _
    ⟨⟨address, hclient, rfl⟩, rfl⟩
  rw [translate_pool hpool, translate_pool hpool]
  simp only [hleaf]

theorem SameButClients.storeByte
    (same : SameButClients image origin live state other)
    (pinned : Pinned image (clientPins image origin live) state.memory)
    (hclient : ClientWord live (address - address % 8))
    (hpool : PoolWord (address - address % 8)) {byte : BitVec 8}
    (h : (KernelHeapAllocator.storeByte image address byte).run other =
      .ok ((), after)) :
    SameButClients image origin live state after := by
  unfold KernelHeapAllocator.storeByte modifyWord at h
  rw [run_access] at h
  cases htranslate : other.translate image (address - address % 8) with
  | none =>
      simp only [htranslate] at h
      cases h
  | some place =>
      simp only [htranslate] at h
      cases h
      refine ⟨?_, ?_, ?_, ?_⟩
      · rw [modify_memory]
        exact same.memory
      · rw [modify_firstBlock]
        exact same.firstBlock
      · rw [modify_created]
        exact same.created
      · intro physical hout
        have hplace : ClientPlace image origin live place := by
          rw [same.translate, translate_client pinned hclient hpool]
            at htranslate
          exact ⟨_, hclient, htranslate⟩
        have hne : physical ≠ place := by
          rintro rfl
          exact hout hplace
        unfold HeapState.modify
        rw [htranslate]
        exact (Function.update_of_ne hne ..).trans (same.ram physical hout)

theorem Serving.pinned (serving : Serving image start origin live state) :
    Pinned image (clientPins image origin live) state.memory :=
  Steady.pinned serving.resting

theorem Serving.modify (serving : Serving image start origin live state)
    (address : Nat) (change : BitVec 64 → BitVec 64) :
    Serving image start origin live (state.modify image address change) := by
  unfold Serving
  rw [modify_memory]
  exact serving

section

variable (hpool : ∀ address, ClientWord live address → PoolWord address)

include hpool

theorem not_clientPlace (sound : Sound image state.memory none)
    (pinned : Pinned image (clientPins image origin live) state.memory)
    (hword : PoolWord address) (hout : ¬ ClientWord live address)
    {physical : Nat} (h : state.translate image address = some physical) :
    ¬ ClientPlace image origin live physical := by
  rintro ⟨place, hclient, htranslate⟩
  rw [← translate_client pinned hclient (hpool place hclient)] at htranslate
  have heq := translate_injective sound hword (hpool place hclient) h
    htranslate
  rw [heq] at hout
  exact hout hclient

theorem SameButClients.view (same : SameButClients image origin live state other)
    (sound : Sound image state.memory none)
    (pinned : Pinned image (clientPins image origin live) state.memory)
    (hout : ¬ ClientWord live address) :
    other.view image address = state.view image address := by
  unfold HeapState.view
  by_cases hword : PoolWord address
  · rw [if_pos hword, if_pos hword, same.translate]
    cases htranslate : state.translate image address with
    | none => rfl
    | some physical =>
        have hplace := not_clientPlace hpool sound pinned hword hout htranslate
        exact congrArg some (same.ram physical hplace)
  · rw [if_neg hword, if_neg hword]

omit hpool in
theorem view_modify_of_ne (sound : Sound image state.memory none)
    (hword : PoolWord address) {place : Nat} (hne : place ≠ address)
    (change : BitVec 64 → BitVec 64) :
    (state.modify image address change).view image place =
      state.view image place := by
  cases hview : state.view image address with
  | none =>
      have hnone : state.translate image address = none := by
        unfold HeapState.view at hview
        rw [if_pos hword, Option.map_eq_none_iff] at hview
        exact hview
      unfold HeapState.modify
      rw [hnone]
  | some word =>
      rw [view_modify sound hview]
      exact Function.update_of_ne hne ..

omit hpool in
theorem view_modify_self (sound : Sound image state.memory none)
    {value word : BitVec 64}
    (h : (state.modify image address fun _ => value).view image address =
      some word) : word = value := by
  cases hview : state.view image address with
  | none =>
      obtain ⟨hword, _, htranslate, _⟩ := view_eq_some.mp h
      rw [translate_modify] at htranslate
      unfold HeapState.view at hview
      rw [if_pos hword, htranslate] at hview
      cases hview
  | some before =>
      rw [view_modify sound hview, Function.update_self] at h
      exact (Option.some.inj h).symm

/-! The accesses. -/

theorem overlooks_loadWord (serving : Serving image start origin live state)
    (hword : PoolWord address) (hout : ¬ ClientWord live address) :
    (loadWord image address).Overlooks (clients image origin live)
      (fun word last => last = state ∧ state.view image address = some word)
      state := by
  refine ⟨serving.pinned, fun other same => ⟨?_, same⟩, ?_⟩
  · dsimp only
    rw [same.translate]
    cases htranslate : state.translate image address with
    | none => rfl
    | some physical =>
        have hplace := not_clientPlace hpool serving.sound serving.pinned hword
          hout htranslate
        exact congrArg ret (same.ram physical hplace)
  · simp only [id_eq]
    cases htranslate : state.translate image address with
    | none => exact serving.pinned
    | some physical =>
        exact ⟨serving.pinned, rfl,
          view_eq_some.mpr ⟨hword, physical, htranslate, rfl⟩⟩

omit hpool in
theorem overlooks_modifyWord
    (pinned : Pinned image (clientPins image origin live) state.memory)
    (address : Nat) (change : BitVec 64 → BitVec 64) :
    (modifyWord image address change).Overlooks (clients image origin live)
      (fun _ last => last = state.modify image address change) state := by
  have hafter : Pinned image (clientPins image origin live)
      (state.modify image address change).memory := by
    rw [modify_memory]
    exact pinned
  refine ⟨pinned, fun other same => ⟨?_, same.modify _ _⟩, ?_⟩
  · dsimp only
    rw [same.translate]
  · dsimp only
    cases state.translate image address with
    | none => exact hafter
    | some physical => exact ⟨hafter, rfl⟩

omit hpool in
theorem overlooks_modifyWord_bind {α : Type}
    {post : α → HeapState → Prop} {next : HeapProgram α}
    {change : BitVec 64 → BitVec 64}
    (serving : Serving image start origin live state)
    (rest : ∀ last, Serving image start origin live last →
      next.Overlooks (clients image origin live) post last) :
    (modifyWord image address change >>= fun _ => next).Overlooks
      (clients image origin live) post state := by
  refine overlooks_bind (overlooks_modifyWord serving.pinned address change) ?_
  rintro _ last rfl
  exact rest _ (serving.modify address change)

section

variable (serving : Serving image start origin live state)
  (apart : HeaderApart live block)

include serving apart

theorem overlooks_loadSize :
    (loadSize image block).Overlooks (clients image origin live)
      (fun size last => last = state ∧
        ∃ word, state.view image block = some word ∧ size = word.toNat)
      state := by
  obtain ⟨hword, hout⟩ := apart 0 (by decide) rfl
  refine overlooks_bind (overlooks_loadWord hpool serving hword hout) ?_
  rintro word last ⟨rfl, hview⟩
  exact overlooks_pure serving.pinned ⟨rfl, word, hview, rfl⟩

theorem overlooks_loadNext :
    (loadNext image block).Overlooks (clients image origin live)
      (fun next last => last = state ∧
        ∃ word, state.view image (block + 16) = some word ∧
          next = word.toNat) state := by
  obtain ⟨hword, hout⟩ := apart 16 (by decide) rfl
  refine overlooks_bind (overlooks_loadWord hpool serving hword hout) ?_
  rintro word last ⟨rfl, hview⟩
  exact overlooks_pure serving.pinned ⟨rfl, word, hview, rfl⟩

theorem overlooks_loadFlag {index : Nat} (hindex : index < 8) :
    (loadByte image (block + 8 + index)).Overlooks (clients image origin live)
      (fun byte last => last = state ∧
        ∃ word, state.view image (block + 8) = some word ∧
          byte = byteOf word index) state := by
  obtain ⟨hword, hout⟩ := apart 8 (by decide) rfl
  obtain ⟨hplace, hbyte⟩ := byte_place hword hindex
  unfold loadByte
  rw [hplace, hbyte]
  refine overlooks_bind (overlooks_loadWord hpool serving hword hout) ?_
  rintro word last ⟨rfl, hview⟩
  exact overlooks_pure serving.pinned ⟨rfl, word, hview, rfl⟩

theorem overlooks_loadFree :
    (loadFree image block).Overlooks (clients image origin live)
      (fun _ last => last = state) state := by
  refine overlooks_bind
    (@overlooks_loadFlag _ _ _ _ _ _ _ hpool serving apart 0 (by decide)) ?_
  rintro byte last ⟨rfl, _⟩
  exact overlooks_pure serving.pinned rfl

theorem overlooks_loadLarge :
    (loadLarge image block).Overlooks (clients image origin live)
      (fun large last => last = state ∧
        ∃ word, state.view image (block + 8) = some word ∧
          large = (byteOf word 1 != 0)) state := by
  refine overlooks_bind
    (@overlooks_loadFlag _ _ _ _ _ _ _ hpool serving apart 1 (by decide)) ?_
  rintro byte last ⟨rfl, word, hview, rfl⟩
  exact overlooks_pure serving.pinned ⟨rfl, word, hview, rfl⟩

end

/-! `kmalloc`. -/

theorem overlooks_blockFits
    (serving : Serving image start origin live state)
    (apart : HeaderApart live block) (size : Nat) :
    (blockFits image size block).Overlooks (clients image origin live)
      (fun _ last => last = state) state := by
  refine overlooks_bind (overlooks_loadFree hpool serving apart) ?_
  rintro free _ rfl
  refine overlooks_ite (fun _ => ?_) fun _ =>
    overlooks_pure serving.pinned rfl
  refine overlooks_bind (overlooks_loadSize hpool serving apart) ?_
  rintro _ _ ⟨rfl, _⟩
  exact overlooks_pure serving.pinned rfl

theorem overlooks_splitBlock
    (serving : Serving image start origin live state)
    (apart : HeaderApart live block) (size : Nat) :
    (splitBlock image block size).Overlooks (clients image origin live)
      (fun _ last => Serving image start origin live last) state := by
  refine overlooks_bind (overlooks_loadSize hpool serving apart) ?_
  rintro current _ ⟨rfl, _⟩
  refine overlooks_bind (overlooks_loadNext hpool serving apart) ?_
  rintro next _ ⟨rfl, _⟩
  refine overlooks_modifyWord_bind serving fun _ serving => ?_
  refine overlooks_modifyWord_bind serving fun _ serving => ?_
  refine overlooks_modifyWord_bind serving fun _ serving => ?_
  refine overlooks_bind (overlooks_loadNext hpool serving apart) ?_
  rintro _ _ ⟨rfl, _⟩
  refine overlooks_modifyWord_bind serving fun _ serving => ?_
  refine overlooks_bind (overlooks_loadNext hpool serving apart) ?_
  rintro _ _ ⟨rfl, _⟩
  refine overlooks_modifyWord_bind serving fun _ serving => ?_
  refine overlooks_bind (overlooks_loadNext hpool serving apart) ?_
  rintro _ _ ⟨rfl, _⟩
  refine (overlooks_modifyWord serving.pinned _ _).weaken ?_
  rintro _ _ rfl
  exact serving.modify _ _

theorem overlooks_allocateFromBlock
    (serving : Serving image start origin live state)
    (apart : block = 0 ∨ HeaderApart live block) (size : Nat) :
    (allocateFromBlock image block size).Overlooks (clients image origin live)
      (fun _ _ => True) state := by
  refine overlooks_ite (fun _ => overlooks_pure serving.pinned trivial)
    fun hne => ?_
  replace apart := apart.resolve_left hne
  refine overlooks_bind (overlooks_loadFree hpool serving apart) ?_
  rintro free _ rfl
  refine overlooks_ite (fun _ => overlooks_pure serving.pinned trivial)
    fun _ => ?_
  refine overlooks_bind (overlooks_loadSize hpool serving apart) ?_
  rintro _ _ ⟨rfl, _⟩
  refine overlooks_ite (fun _ => overlooks_pure serving.pinned trivial)
    fun _ => ?_
  refine overlooks_bind (overlooks_loadSize hpool serving apart) ?_
  rintro _ _ ⟨rfl, _⟩
  refine overlooks_ite (fun _ => ?_) fun _ => ?_
  · refine overlooks_bind (overlooks_splitBlock hpool serving apart size) ?_
    exact fun _ last hlast => overlooks_pure hlast.pinned trivial
  · exact overlooks_modifyWord_bind serving fun _ hlast =>
      overlooks_pure hlast.pinned trivial

end

/-! The list, of which every pointer leads to one of `blocks`. -/

def Reaches (blocks : Nat → Prop) (pointer : Nat) : Prop :=
  pointer = 0 ∨ blocks pointer

structure Linked (image : KernelImage platform) (blocks : Nat → Prop)
    (state : HeapState) : Prop where
  first : Reaches blocks state.firstBlock
  next : ∀ block word, blocks block →
    state.view image (block + 16) = some word → Reaches blocks word.toNat

/-- The blocks have their headers apart from each other and from clients. -/
structure BlocksApart (live : List (Nat × Nat)) (blocks : Nat → Prop) :
    Prop where
  clients : ∀ address, ClientWord live address → PoolWord address
  header : ∀ block, blocks block → HeaderApart live block
  link : ∀ block other, blocks block → blocks other →
    block + 16 ≠ other ∧ block + 16 ≠ other + 8

section

variable {blocks : Nat → Prop} (apart : BlocksApart live blocks)

include apart

theorem Reaches.toNat {pointer : Nat} (h : Reaches blocks pointer) :
    (BitVec.ofNat 64 pointer).toNat = pointer := by
  rcases h with rfl | hblock
  · rfl
  · exact toNat_pointer (apart.header pointer hblock 0 (by decide) rfl).1

omit apart in
theorem Linked.modify (linked : Linked image blocks state)
    (sound : Sound image state.memory none) (hword : PoolWord address)
    (hlinks : ∀ block, blocks block → block + 16 ≠ address)
    (change : BitVec 64 → BitVec 64) :
    Linked image blocks (state.modify image address change) where
  first := by
    rw [modify_firstBlock]
    exact linked.first
  next := by
    intro block word hblock h
    rw [view_modify_of_ne sound hword (hlinks block hblock)] at h
    exact linked.next block word hblock h

theorem Linked.link (linked : Linked image blocks state)
    (sound : Sound image state.memory none) (hblock : blocks block)
    {next : Nat} (hnext : Reaches blocks next) :
    Linked image blocks
      (state.modify image (block + 16) fun _ => BitVec.ofNat 64 next) where
  first := by
    rw [modify_firstBlock]
    exact linked.first
  next := by
    intro other word hother h
    have hword := (apart.header block hblock 16 (by decide) rfl).1
    by_cases heq : other + 16 = block + 16
    · rw [heq] at h
      rw [view_modify_self sound h, hnext.toNat apart]
      exact hnext
    · rw [view_modify_of_ne sound hword heq] at h
      exact linked.next other word hother h

theorem overlooks_search (serving : Serving image start origin live state)
    (linked : Linked image blocks state) {pointers : Nat × Nat}
    (h : Reaches blocks pointers.2) (budget : Nat) :
    (whileLoop .budgetExhausted (searchBlock image size) budget
      pointers).Overlooks (clients image origin live)
      (fun found last => last = state ∧ Reaches blocks found.2) state := by
  refine @overlooks_whileLoop _ _ _ _ _ _ _ _ (fun pointers current =>
    current = state ∧ Reaches blocks pointers.2) _ ?_ ?_ _ ⟨rfl, h⟩ budget
  · rintro _ _ ⟨rfl, _⟩
    exact serving.pinned
  · rintro ⟨previous, block⟩ _ ⟨rfl, hblock⟩
    refine overlooks_ite (fun _ =>
      overlooks_pure serving.pinned ⟨rfl, .inl rfl⟩) fun hne => ?_
    have hlisted := hblock.resolve_left hne
    have header := apart.header block hlisted
    refine overlooks_bind
      (overlooks_blockFits apart.clients serving header size) ?_
    rintro fits _ rfl
    refine overlooks_ite (fun _ =>
      overlooks_pure serving.pinned ⟨rfl, hblock⟩) fun _ => ?_
    refine overlooks_bind (overlooks_loadNext apart.clients serving header) ?_
    rintro _ _ ⟨rfl, word, hview, rfl⟩
    exact overlooks_pure serving.pinned
      ⟨rfl, linked.next block word hlisted hview⟩

/-! `kfree`. -/

theorem overlooks_storeField
    (serving : Serving image start origin live state)
    (linked : Linked image blocks state) (hblock : blocks block)
    (hfield : address = block ∨ address = block + 8)
    (change : BitVec 64 → BitVec 64) :
    (modifyWord image address change).Overlooks (clients image origin live)
      (fun _ last => Serving image start origin live last ∧
        Linked image blocks last) state := by
  have hword : PoolWord address := by
    rcases hfield with rfl | rfl
    · exact (apart.header _ hblock 0 (by decide) rfl).1
    · exact (apart.header _ hblock 8 (by decide) rfl).1
  have hlinks : ∀ other, blocks other → other + 16 ≠ address := by
    intro other hother
    obtain ⟨hsize, hflags⟩ := apart.link other block hother hblock
    rcases hfield with rfl | rfl
    · exact hsize
    · exact hflags
  refine (overlooks_modifyWord serving.pinned address change).weaken ?_
  rintro _ _ rfl
  exact ⟨serving.modify address change,
    linked.modify serving.sound hword hlinks change⟩

theorem overlooks_storeLink
    (serving : Serving image start origin live state)
    (linked : Linked image blocks state) (hblock : blocks block)
    {next : Nat} (hnext : Reaches blocks next) :
    (storeNext image block next).Overlooks (clients image origin live)
      (fun _ last => Serving image start origin live last ∧
        Linked image blocks last) state := by
  refine (overlooks_modifyWord serving.pinned _ _).weaken ?_
  rintro _ _ rfl
  exact ⟨serving.modify _ _, linked.link apart serving.sound hblock hnext⟩

theorem overlooks_absorb (serving : Serving image start origin live state)
    (linked : Linked image blocks state) {pointers : Nat × Nat}
    (h : Reaches blocks pointers.2) (budget : Nat) :
    (whileLoop .budgetExhausted (absorbNext image block) budget
      pointers).Overlooks (clients image origin live)
      (fun found last => last = state ∧ Reaches blocks found.2) state := by
  refine @overlooks_whileLoop _ _ _ _ _ _ _ _ (fun pointers current =>
    current = state ∧ Reaches blocks pointers.2) _ ?_ ?_ _ ⟨rfl, h⟩ budget
  · rintro _ _ ⟨rfl, _⟩
    exact serving.pinned
  · rintro ⟨gained, next⟩ _ ⟨rfl, hnext⟩
    refine overlooks_ite (fun _ => overlooks_pure serving.pinned ⟨rfl, hnext⟩)
      fun hne => ?_
    have hlisted := hnext.resolve_left hne
    have header := apart.header next hlisted
    refine overlooks_bind (overlooks_loadFree apart.clients serving header) ?_
    rintro free _ rfl
    refine overlooks_ite (fun _ => overlooks_pure serving.pinned ⟨rfl, hnext⟩)
      fun _ => overlooks_ite
        (fun _ => overlooks_pure serving.pinned ⟨rfl, hnext⟩) fun _ => ?_
    refine overlooks_bind (overlooks_loadSize apart.clients serving header) ?_
    rintro _ _ ⟨rfl, _⟩
    refine overlooks_bind (overlooks_loadNext apart.clients serving header) ?_
    rintro _ _ ⟨rfl, word, hview, rfl⟩
    exact overlooks_pure serving.pinned
      ⟨rfl, linked.next next word hlisted hview⟩

theorem overlooks_find (serving : Serving image start origin live state)
    (linked : Linked image blocks state) {pointers : Nat × Nat}
    (hprevious : Reaches blocks pointers.1)
    (hcurrent : Reaches blocks pointers.2) (budget : Nat) :
    (whileLoop .budgetExhausted (findBlock image block) budget
      pointers).Overlooks (clients image origin live)
      (fun previous last => last = state ∧ Reaches blocks previous) state := by
  refine @overlooks_whileLoop _ _ _ _ _ _ _ _ (fun pointers current =>
    current = state ∧ Reaches blocks pointers.1 ∧ Reaches blocks pointers.2)
    _ ?_ ?_ _ ⟨rfl, hprevious, hcurrent⟩ budget
  · rintro _ _ ⟨rfl, _⟩
    exact serving.pinned
  · rintro ⟨previous, current⟩ _ ⟨rfl, hprevious, hcurrent⟩
    refine overlooks_ite (fun hne => ?_) fun _ =>
      overlooks_pure serving.pinned ⟨rfl, hprevious⟩
    have hlisted := hcurrent.resolve_left hne.1
    refine overlooks_bind (overlooks_loadNext apart.clients serving
      (apart.header current hlisted)) ?_
    rintro _ _ ⟨rfl, word, hview, rfl⟩
    exact overlooks_pure serving.pinned
      ⟨rfl, hcurrent, linked.next current word hlisted hview⟩

theorem overlooks_mergePrevious
    (serving : Serving image start origin live state) {previous : Nat}
    (hprevious : Reaches blocks previous) (hblock : blocks block) :
    (mergePrevious image previous block).Overlooks (clients image origin live)
      (fun _ _ => True) state := by
  have header := apart.header block hblock
  refine overlooks_ite (fun hne => ?_) fun _ =>
    overlooks_pure serving.pinned trivial
  have headerPrevious := apart.header previous (hprevious.resolve_left hne)
  refine overlooks_bind
    (overlooks_loadFree apart.clients serving headerPrevious) ?_
  rintro free _ rfl
  refine overlooks_ite (fun _ => ?_) fun _ =>
    overlooks_pure serving.pinned trivial
  refine overlooks_bind
    (overlooks_loadSize apart.clients serving headerPrevious) ?_
  rintro _ _ ⟨rfl, _⟩
  refine overlooks_ite (fun _ => ?_) fun _ =>
    overlooks_pure serving.pinned trivial
  refine overlooks_bind
    (overlooks_loadSize apart.clients serving headerPrevious) ?_
  rintro _ _ ⟨rfl, _⟩
  refine overlooks_bind (overlooks_loadSize apart.clients serving header) ?_
  rintro _ _ ⟨rfl, _⟩
  refine overlooks_modifyWord_bind serving fun _ serving => ?_
  refine overlooks_bind (overlooks_loadNext apart.clients serving header) ?_
  rintro _ _ ⟨rfl, _⟩
  exact (overlooks_modifyWord serving.pinned _ _).weaken fun _ _ _ => trivial

theorem overlooks_freeSmall (serving : Serving image start origin live state)
    (linked : Linked image blocks state) (hblock : blocks block)
    (budget : Nat) :
    (freeSmall image budget block).Overlooks (clients image origin live)
      (fun _ _ => True) state := by
  have header := apart.header block hblock
  have hflags : block + 8 - (block + 8) % 8 = block + 8 := by
    rw [(header 8 (by decide) rfl).1.2.2, Nat.sub_zero]
  refine overlooks_bind (overlooks_storeField apart serving linked hblock
    (.inr hflags) _) ?_
  rintro _ last ⟨serving, linked⟩
  refine overlooks_bind (overlooks_loadNext apart.clients serving header) ?_
  rintro _ _ ⟨rfl, word, hview, rfl⟩
  have hnext := linked.next block word hblock hview
  refine overlooks_bind (overlooks_loadSize apart.clients serving header) ?_
  rintro _ _ ⟨rfl, _⟩
  refine overlooks_bind (overlooks_absorb apart serving linked hnext budget) ?_
  rintro ⟨gained, next⟩ _ ⟨rfl, hnext⟩
  refine overlooks_bind (overlooks_storeField apart serving linked hblock
    (.inl rfl) _) ?_
  rintro _ last ⟨serving, linked⟩
  refine overlooks_bind (overlooks_storeLink apart serving linked hblock
    hnext) ?_
  rintro _ last ⟨serving, linked⟩
  refine overlooks_read_bind serving.pinned (fun _ same => same.firstBlock) ?_
  refine overlooks_bind (overlooks_find apart serving linked (.inl rfl)
    linked.first budget) ?_
  rintro previous _ ⟨rfl, hprevious⟩
  exact overlooks_mergePrevious apart serving hprevious hblock

end

/-! Calls of `VirtualMemory`. -/

theorem overlooks_callVm {α : Type} {program : Vm α}
    {post : α → MemoryState → Prop}
    (guarded : program.Guarded
      (poolEnvironment image (clientPins image origin live)) post
      state.memory) :
    (callVm program).Overlooks (clients image origin live)
      (fun value last => post value last.memory) state := by
  apply overlooks_zoom guarded
  · exact fun _ _ => rfl
  · exact fun _ _ same => same.memory
  · exact fun _ _ _ same => ⟨rfl, same.firstBlock, same.created, same.ram⟩
  · exact fun _ kept => kept.pinned

theorem overlooks_allocate {program : Vm Nat} {count : Nat}
    (guarded : program.Guarded
      (poolEnvironment image (clientPins image origin live))
      (fun _ memory => Resting image start (clientPins image origin live)
        memory) state.memory)
    (hrun : ∃ result memory, program.run state.memory =
        .ok (result, memory) ∧
      VirtualMemory.Allocated image state.memory count result memory) :
    (callVm program).Overlooks (clients image origin live)
      (fun result last => Serving image start origin live last ∧
        VirtualMemory.Allocated image state.memory count result last.memory)
      state := by
  obtain ⟨result, memory, hrun, allocated⟩ := hrun
  refine (overlooks_callVm guarded).ended.weaken ?_
  rintro value last ⟨resting, _, hcall⟩
  cases (run_callVm hrun).symm.trans hcall
  exact ⟨⟨allocated.1, resting⟩, allocated⟩

theorem headerApart_of_free (serving : Serving image start origin live state)
    {page : Nat} (hfree : FreeRun state.memory page 1) :
    HeaderApart live (pageAddress page) := by
  obtain ⟨hbound, hbit⟩ := hfree
  intro offset hoffset haligned
  have hpage : pageOf (pageAddress page + offset) = page :=
    pageOf_eq (Nat.le_add_right ..) (by unfold pageSize; omega)
  constructor
  · rw [virtualPageCount_eq] at hbound
    unfold PoolWord pageAddress virtualMemoryStart virtualMemoryEnd pageSize
    omega
  · intro hclient
    exact Resting.not_pins serving.resting hbound
      (hbit page (Nat.le_refl page) (Nat.lt_succ_self page)) _
      ⟨⟨_, hclient, hpage⟩, rfl⟩

end

section

variable {platform : Platform} {image : KernelImage platform}
  {contents : Contents} {start : MemoryState} {origin state : HeapState}
  {live : List (Nat × Nat)} {blocks : Nat → Prop}
  (hstatic : start.static image = Contents.initial image contents)
  (serving : Serving image start origin live state)

include hstatic serving

theorem overlooks_createBlock :
    (createBlock image).Overlooks (clients image origin live)
      (fun block last => Serving image start origin live last ∧
        (block = 0 ∨ HeaderApart live block)) state := by
  refine overlooks_bind (overlooks_allocate
    (guarded_allocatePage hstatic serving.resting)
    (allocatePage_allocated serving.sound)) ?_
  rintro address last ⟨serving', _, hallocated⟩
  refine overlooks_ite (fun hzero => overlooks_pure serving'.pinned
    ⟨serving', .inl rfl⟩) fun hne => ?_
  have apart : HeaderApart live address := by
    rcases hallocated with ⟨hzero, _⟩ | ⟨page, rfl, _, hfree, _⟩
    · exact absurd hzero hne
    · exact headerApart_of_free serving hfree
  refine overlooks_write_bind serving'.pinned (fun _ same =>
    ⟨same.memory, same.firstBlock,
      congrArg (address :: ·) same.created, same.ram⟩) ?_
  have hcreated : Serving image start origin live
      { last with created := address :: last.created } := serving'
  refine overlooks_modifyWord_bind hcreated fun _ hlast => ?_
  refine overlooks_modifyWord_bind hlast fun _ hlast => ?_
  refine overlooks_modifyWord_bind hlast fun _ hlast => ?_
  refine overlooks_modifyWord_bind hlast fun _ hlast => ?_
  exact overlooks_pure hlast.pinned ⟨hlast, .inr apart⟩

theorem overlooks_allocateLarge (size : Nat) :
    (allocateLarge image size).Overlooks (clients image origin live)
      (fun _ _ => True) state := by
  refine overlooks_bind (overlooks_allocate
    (guarded_allocatePages hstatic serving.resting (pageCount size))
    (run_allocatePages serving.sound (pageCount size))) ?_
  rintro address last ⟨hlast, _⟩
  refine overlooks_ite (fun _ => overlooks_pure hlast.pinned trivial)
    fun _ => ?_
  refine overlooks_modifyWord_bind hlast fun _ hlast => ?_
  refine overlooks_modifyWord_bind hlast fun _ hlast => ?_
  refine overlooks_modifyWord_bind hlast fun _ hlast => ?_
  refine overlooks_modifyWord_bind hlast fun _ hlast => ?_
  exact overlooks_pure hlast.pinned trivial

theorem overlooks_extendHeap
    (hpool : ∀ address, ClientWord live address → PoolWord address)
    (previous size : Nat) :
    (extendHeap image previous size).Overlooks (clients image origin live)
      (fun _ _ => True) state := by
  refine overlooks_bind (overlooks_createBlock hstatic serving) ?_
  rintro block last ⟨hlast, apart⟩
  refine overlooks_ite (fun _ => overlooks_pure hlast.pinned trivial)
    fun _ => overlooks_ite (fun _ => ?_) fun _ => ?_
  · refine overlooks_write_bind hlast.pinned (fun _ same =>
      ⟨same.memory, rfl, same.created, same.ram⟩) ?_
    have hfirst : Serving image start origin live
        { last with firstBlock := block } := hlast
    exact overlooks_allocateFromBlock hpool hfirst apart size
  · exact overlooks_modifyWord_bind hlast fun _ hlast =>
      overlooks_allocateFromBlock hpool hlast apart size

theorem overlooks_kmalloc (apart : BlocksApart live blocks)
    (linked : Linked image blocks state) (budget size : Nat) :
    (kmalloc image budget size).Overlooks (clients image origin live)
      (fun _ _ => True) state := by
  refine overlooks_ite (fun _ => overlooks_pure serving.pinned trivial)
    fun _ => overlooks_ite (fun _ => overlooks_pure serving.pinned trivial)
    fun _ => overlooks_ite
      (fun _ => overlooks_allocateLarge hstatic serving _) fun _ => ?_
  refine overlooks_read_bind serving.pinned (fun _ same => same.firstBlock) ?_
  refine overlooks_bind (overlooks_search apart serving linked linked.first
    budget) ?_
  rintro ⟨previous, block⟩ _ ⟨rfl, hblock⟩
  refine overlooks_ite
    (fun _ => overlooks_extendHeap hstatic serving apart.clients _ _)
    fun hne => ?_
  exact overlooks_allocateFromBlock apart.clients serving
    (.inr (apart.header block (hblock.resolve_left hne))) _

/-- `kfree` of a block that is listed, or whose pages no client has. -/
theorem overlooks_kfree (apart : BlocksApart live blocks)
    (linked : Linked image blocks state) {block : Nat}
    (header : HeaderApart live block)
    (hclear : ∀ flags, state.view image (block + 8) = some flags →
      (byteOf flags 1 != 0) = false → blocks block)
    (hset : ∀ flags word, state.view image (block + 8) = some flags →
      (byteOf flags 1 != 0) = true → state.view image block = some word →
      ∀ i, i < pageCount word.toNat → ∀ page entry,
        block + i * pageSize = pageAddress page →
          ¬ clientPins image origin live page entry)
    (budget : Nat) :
    (kfree image budget (block + sizeofBlock)).Overlooks
      (clients image origin live) (fun _ _ => True) state := by
  have hne : block + sizeofBlock ≠ 0 := Nat.add_one_ne_zero _
  unfold kfree
  rw [if_neg hne]
  simp only [Nat.add_sub_cancel]
  refine overlooks_bind (overlooks_loadLarge apart.clients serving header) ?_
  rintro large _ ⟨rfl, flags, hflags, rfl⟩
  refine overlooks_ite (fun htrue => ?_) fun hfalse => ?_
  · refine overlooks_bind (overlooks_loadSize apart.clients serving header) ?_
    rintro size _ ⟨rfl, word, hword, rfl⟩
    refine overlooks_bind (overlooks_callVm (guarded_freePages hstatic
      serving.resting (hset flags word hflags htrue hword))) ?_
    intro _ last hlast
    exact overlooks_pure (Steady.pinned hlast) trivial
  · rw [Bool.not_eq_true] at hfalse
    exact overlooks_freeSmall apart serving linked
      (hclear flags hflags hfalse) budget

end

end Planetoid.Memory
