import Planetoid.Base.ObjectMemory
import Planetoid.Base.Refinement
import Planetoid.Memory.HeapFrame
import Planetoid.Memory.HeapSizes
import Planetoid.Memory.HeapTraces

namespace Planetoid.Memory

open Planetoid Program VirtualMemory KernelHeapAllocator

/-! The heap as a memory of separate objects. -/

section

variable {platform : Platform} (image : KernelImage platform)

/-- The calls of the clients and their accesses to the live allocations. -/
inductive ClientStep :
    HeapRun → ObjectEvent Nat (BitVec 8) → HeapRun → Prop
  | allocate {before : HeapRun} {heap : HeapState} {budget size result : Nat}
      (h : (kmalloc image budget size).run before.heap = .ok (result, heap)) :
      ClientStep before
        (.allocate size (if result = 0 then none else some result))
        ⟨heap, if result = 0 then before.live else result :: before.live⟩
  | release {before : HeapRun} {heap : HeapState} {budget pointer : Nat}
      (hlive : pointer ∈ before.live)
      (h : (kfree image budget pointer).run before.heap = .ok ((), heap)) :
      ClientStep before (.release pointer) ⟨heap, before.live.erase pointer⟩
  | store {before : HeapRun} {heap : HeapState} {pointer offset : Nat}
      {byte : BitVec 8} (hlive : pointer ∈ before.live)
      (hinside : offset < recordedSize image before.heap pointer)
      (h : (storeByte image (pointer + offset) byte).run before.heap =
        .ok ((), heap)) :
      ClientStep before (.store pointer offset byte) ⟨heap, before.live⟩
  | load {before : HeapRun} {heap : HeapState} {pointer offset : Nat}
      {byte : BitVec 8} (hlive : pointer ∈ before.live)
      (hinside : offset < recordedSize image before.heap pointer)
      (h : (loadByte image (pointer + offset)).run before.heap =
        .ok (byte, heap)) :
      ClientStep before (.load pointer offset byte) ⟨heap, before.live⟩

def clientRuns (start : HeapState) :
    System HeapRun (ObjectEvent Nat (BitVec 8)) where
  initial := fun run => run = ⟨start, []⟩
  step := ClientStep image

/-- No size wraps around when it is rounded, and no block of the list that
begins at a page is freed with `large` set. -/
def ClientSafely (run : HeapRun) : ObjectEvent Nat (BitVec 8) → Prop
  | .allocate size _ => size ≤ 2 ^ 64 - 8
  | .release pointer => FreesSafely image run (.kfree pointer)
  | _ => True

/-- The objects are the live allocations, and the stored values are in their
payloads. -/
structure Represents (run : HeapRun)
    (memory : ObjectMemory Nat (BitVec 8)) : Prop where
  live : ∀ pointer, pointer ∈ run.live ↔ ∃ object, memory pointer = some object
  size : ∀ pointer object, memory pointer = some object →
    recordedSize image run.heap pointer = object.size
  bytes : ∀ pointer object offset byte, memory pointer = some object →
    object.value offset = some byte →
    (loadByte image (pointer + offset)).run run.heap = .ok (byte, run.heap)

structure Implements (run : HeapRun)
    (memory : ObjectMemory Nat (BitVec 8)) : Prop extends
    Represents image run memory where
  keeps : ∃ layout, run.Keeps image layout

end

section

variable {platform : Platform} {image : KernelImage platform}
  {run before after : HeapRun} {memory : ObjectMemory Nat (BitVec 8)}
  {layout next : Layout} {start : HeapState}

theorem HeapRun.Keeps.loadByte_eq (keeps : run.Keeps image layout)
    {chunk : Chunk} (hholds : layout.Holds chunk) {offset : Nat}
    (hoffset : offset < chunk.size) :
    ∃ word, run.heap.view image (chunk.payload + offset -
        (chunk.payload + offset) % 8) = some word ∧
      chunk.payload ≤ chunk.payload + offset -
        (chunk.payload + offset) % 8 ∧
      (loadByte image (chunk.payload + offset)).run run.heap =
        .ok (byteOf word ((chunk.payload + offset) % 8), run.heap) := by
  have haligned := (hholds.aligned keeps.arranged).1
  have hlow : chunk.payload ≤ chunk.payload + offset -
      (chunk.payload + offset) % 8 := by
    unfold Chunk.payload sizeofBlock
    omega
  obtain ⟨word, hword⟩ := keeps.arranged.toPaged.backed_of_holds hholds
    (chunk.payload + offset - (chunk.payload + offset) % 8)
    (Chunk.covers_of_payload hlow (by
      unfold Chunk.finish Chunk.payload
      omega)) (by omega)
  refine ⟨word, hword, hlow, ?_⟩
  unfold loadByte
  exact run_bind_ok (run_loadWord hword) _

theorem HeapRun.Keeps.loadByte_kept (keeps : before.Keeps image layout)
    (hafter : after.Keeps image next) {chunk : Chunk}
    (hholds : layout.Holds chunk) (hnext : next.Holds chunk)
    (kept : KeepsPayload image chunk before.heap after.heap) {offset : Nat}
    (hoffset : offset < chunk.size) {byte : BitVec 8}
    (hload : (loadByte image (chunk.payload + offset)).run before.heap =
      .ok (byte, before.heap)) :
    (loadByte image (chunk.payload + offset)).run after.heap =
      .ok (byte, after.heap) := by
  obtain ⟨word, hword, hlow, hbefore⟩ := keeps.loadByte_eq hholds hoffset
  obtain ⟨other, hother, _, hrun⟩ := hafter.loadByte_eq hnext hoffset
  rw [kept _ hlow (by
    unfold Chunk.finish Chunk.payload
    omega), hword] at hother
  obtain rfl := Option.some.inj hother
  rw [hload] at hbefore
  injection hbefore with heq
  injection heq with heq _
  rw [hrun, heq]

theorem Represents.kept (represents : Represents image before memory)
    (keeps : before.Keeps image layout) (hafter : after.Keeps image next)
    (held : ∀ chunk, layout.Holds chunk → chunk.payload ∈ after.live →
      next.Holds chunk)
    {pointer : Nat} {object : StoredObject (BitVec 8)}
    (hobject : memory pointer = some object) (hlive : pointer ∈ after.live)
    (kept : ∀ chunk, layout.Holds chunk → chunk.payload = pointer →
      KeepsPayload image chunk before.heap after.heap) :
    recordedSize image after.heap pointer = object.size ∧
      ∀ offset byte, object.value offset = some byte →
        (loadByte image (pointer + offset)).run after.heap =
          .ok (byte, after.heap) := by
  obtain ⟨chunk, hholds, rfl⟩ :=
    keeps.held pointer ((represents.live pointer).mpr ⟨object, hobject⟩)
  have hnext := held chunk hholds hlive
  have hsize := represents.size _ object hobject
  rw [(keeps.recordedSize hholds).2] at hsize
  refine ⟨(hafter.recordedSize hnext).2.trans hsize, ?_⟩
  intro offset byte hvalue
  have hoffset : offset < chunk.size := by
    rw [hsize]
    by_contra hout
    rw [object.bounded offset (Nat.le_of_not_lt hout)] at hvalue
    cases hvalue
  exact keeps.loadByte_kept hafter hholds hnext (kept chunk hholds rfl)
    hoffset (represents.bytes _ object offset byte hobject hvalue)

theorem le_alignSize {size : Nat} (h : size ≤ 2 ^ 64 - 8) :
    size ≤ alignSize size :=
  (alignSize_spec (by omega)).1

theorem Implements.allocate (implements : Implements image before memory)
    {budget size result : Nat} {heap : HeapState}
    (hsize : size ≤ 2 ^ 64 - 8)
    (hrun : (kmalloc image budget size).run before.heap =
      .ok (result, heap)) :
    ∃ other, ObjectStep memory
        (.allocate size (if result = 0 then none else some result)) other ∧
      Implements image
        ⟨heap, if result = 0 then before.live else result :: before.live⟩
        other := by
  obtain ⟨represents, layout, keeps⟩ := implements
  obtain ⟨found, arrangedHeap, next, hreturns, served⟩ :=
    kmalloc_returns keeps.arranged size
  have heq := hreturns.unique hrun
  injection heq with hfound hheap
  subst hfound hheap
  have hafter := (keeps.kmalloc served).1
  have payloads := kmalloc_keepsPayloads keeps.arranged hrun
  have held : ∀ chunk, layout.Holds chunk → next.Holds chunk := by
    intro chunk hholds
    rcases served.result with ⟨_, rfl⟩ | ⟨_, takes⟩
    · exact hholds
    · obtain ⟨_, _, _, hsame⟩ := takes.added
      exact (hsame chunk).mpr (.inl hholds)
  have old : ∀ pointer object, memory pointer = some object → _ :=
    fun pointer object hobject => represents.kept keeps hafter
      (fun chunk hholds _ => held chunk hholds) hobject
      (by
        have hmem := (represents.live pointer).mpr ⟨object, hobject⟩
        split
        · exact hmem
        · exact List.mem_cons_of_mem _ hmem)
      fun chunk hholds _ => payloads chunk hholds
  rcases served.result with ⟨rfl, rfl⟩ | ⟨hne, takes⟩
  · refine ⟨memory, .failed memory size, ⟨represents.live, ?_, ?_⟩, _, hafter⟩
    · exact fun pointer object hobject => (old pointer object hobject).1
    · exact fun pointer object offset byte hobject =>
        (old pointer object hobject).2 offset byte
  simp only [if_neg hne] at hafter old ⊢
  obtain ⟨chunk, hpayload, henough, hsame⟩ := takes.added
  have hunused : memory result = none := by
    cases hobject : memory result with
    | none => rfl
    | some object =>
        obtain ⟨other, hother, heq⟩ :=
          keeps.held result ((represents.live result).mpr ⟨object, hobject⟩)
        exact absurd heq (takes.fresh other hother)
  have hnew := (hafter.recordedSize ((hsame chunk).mpr (.inr rfl))).2
  rw [hpayload] at hnew
  refine ⟨_, .allocated hunused (Nat.le_trans (le_alignSize hsize) henough),
    ⟨?_, ?_, ?_⟩, _, hafter⟩
  · intro pointer
    rw [List.mem_cons, represents.live]
    by_cases heq : pointer = result
    · subst heq
      simp
    · rw [Function.update_of_ne heq]
      simp [heq]
  · intro pointer object hobject
    by_cases heq : pointer = result
    · subst heq
      rw [Function.update_self] at hobject
      obtain rfl := Option.some.inj hobject
      exact hnew
    · rw [Function.update_of_ne heq] at hobject
      exact (old pointer object hobject).1
  · intro pointer object offset byte hobject hvalue
    by_cases heq : pointer = result
    · subst heq
      rw [Function.update_self] at hobject
      obtain rfl := Option.some.inj hobject
      cases hvalue
    · rw [Function.update_of_ne heq] at hobject
      exact (old pointer object hobject).2 offset byte hvalue

theorem Implements.release (implements : Implements image before memory)
    {budget pointer : Nat} {heap : HeapState}
    (hlive : pointer ∈ before.live)
    (safely : FreesSafely image before (.kfree pointer))
    (hrun : (kfree image budget pointer).run before.heap = .ok ((), heap)) :
    Implements image ⟨heap, before.live.erase pointer⟩
      (Function.update memory pointer none) := by
  obtain ⟨represents, layout, keeps⟩ := implements
  obtain ⟨next, hafter, _, held⟩ :=
    HeapStep.keeps keeps (.kfree hlive hrun) safely
  have kept := kfree_keepsPayloads keeps hlive safely hrun
  have hold : ∀ other object,
      Function.update memory pointer none other = some object →
      other ≠ pointer ∧ memory other = some object := by
    intro other object hobject
    by_cases heq : other = pointer
    · subst heq
      rw [Function.update_self] at hobject
      cases hobject
    · rw [Function.update_of_ne heq] at hobject
      exact ⟨heq, hobject⟩
  have old : ∀ other object,
      Function.update memory pointer none other = some object → _ :=
    fun other object hobject => represents.kept keeps hafter held
      (hold other object hobject).2
      (keeps.nodup.mem_erase_iff.mpr ⟨(hold other object hobject).1,
        (represents.live other).mpr ⟨object, (hold other object hobject).2⟩⟩)
      fun chunk hholds hpayload => kept chunk hholds
        (hpayload ▸ (hold other object hobject).1)
  refine ⟨⟨?_, ?_, ?_⟩, next, hafter⟩
  · intro other
    rw [keeps.nodup.mem_erase_iff, represents.live]
    by_cases heq : other = pointer
    · subst heq
      simp
    · rw [Function.update_of_ne heq]
      simp [heq]
  · exact fun other object hobject => (old other object hobject).1
  · exact fun other object offset byte hobject =>
      (old other object hobject).2 offset byte

theorem run_loadByte_of_holds {state : HeapState} {place : Nat}
    {byte : BitVec 8} (holds : HoldsByte (state.view image) place byte) :
    (loadByte image place).run state = .ok (byte, state) := by
  obtain ⟨word, hword, rfl⟩ := holds
  unfold loadByte
  exact run_bind_ok (run_loadWord hword) _

theorem HeapRun.Keeps.holdsByte (keeps : run.Keeps image layout)
    {chunk : Chunk} (hholds : layout.Holds chunk) {offset : Nat}
    (hoffset : offset < chunk.size) {byte : BitVec 8}
    (hload : (loadByte image (chunk.payload + offset)).run run.heap =
      .ok (byte, run.heap)) :
    HoldsByte (run.heap.view image) (chunk.payload + offset) byte := by
  obtain ⟨word, hword, _, hrun⟩ := keeps.loadByte_eq hholds hoffset
  rw [hload] at hrun
  injection hrun with heq
  injection heq with heq _
  exact ⟨word, hword, heq.symm⟩

theorem Represents.place_inj (represents : Represents image run memory)
    (keeps : run.Keeps image layout) {first second : Nat}
    {object other : StoredObject (BitVec 8)} {offset index : Nat}
    (hfirst : memory first = some object)
    (hsecond : memory second = some other)
    (hoffset : offset < object.size) (hindex : index < other.size)
    (heq : first + offset = second + index) : first = second := by
  have hin : ∀ pointer object place, memory pointer = some object →
      place < object.size →
      InPayload image run.heap pointer (pointer + place) := by
    intro pointer object place hobject hplace
    unfold InPayload
    rw [represents.size pointer object hobject]
    omega
  by_contra hne
  have disjoint := keeps.heapSafe.disjoint first
    ((represents.live first).mpr ⟨object, hfirst⟩) second
    ((represents.live second).mpr ⟨other, hsecond⟩) hne (first + offset)
    (hin first object offset hfirst hoffset)
  rw [heq] at disjoint
  exact disjoint (hin second other index hsecond hindex)

theorem Implements.store (implements : Implements image before memory)
    {pointer offset : Nat} {byte : BitVec 8} {heap : HeapState}
    (hlive : pointer ∈ before.live)
    (hinside : offset < recordedSize image before.heap pointer)
    (hrun : (storeByte image (pointer + offset) byte).run before.heap =
      .ok ((), heap)) :
    ∃ other, ObjectStep memory (.store pointer offset byte) other ∧
      Implements image ⟨heap, before.live⟩ other := by
  obtain ⟨represents, layout, keeps⟩ := implements
  obtain ⟨object, hobject⟩ := (represents.live pointer).mp hlive
  have hoffset := hinside
  rw [represents.size pointer object hobject] at hoffset
  obtain ⟨chunk, hholds, rfl⟩ := keeps.held pointer hlive
  rw [(keeps.recordedSize hholds).2] at hinside
  obtain ⟨stored, word, hstore, harranged, hword, stores⟩ :=
    keeps.arranged.storePayload hholds (Nat.le_add_right _ offset) (by
      unfold Chunk.finish Chunk.payload
      omega) byte
  rw [hrun] at hstore
  injection hstore with heq
  injection heq with _ heq
  subst heq
  have hafter : HeapRun.Keeps image ⟨heap, before.live⟩ layout :=
    ⟨harranged, keeps.coalesced, keeps.nodup, keeps.held⟩
  -- the header words are outside of the payloads
  have hsize : ∀ other, other ∈ before.live →
      recordedSize image heap other =
        recordedSize image before.heap other := by
    intro other hother
    obtain ⟨held, hheld, rfl⟩ := keeps.held other hother
    rw [(keeps.recordedSize hheld).2]
    exact (hafter.recordedSize hheld).2
  refine ⟨_, .store hobject hoffset, ⟨?_, ?_, ?_⟩, layout, hafter⟩
  · intro other
    rw [represents.live]
    by_cases heq : other = chunk.payload
    · subst heq
      rw [Function.update_self]
      simp [hobject]
    · rw [Function.update_of_ne heq]
  · intro other found hfound
    by_cases heq : other = chunk.payload
    · subst heq
      rw [Function.update_self] at hfound
      obtain rfl := Option.some.inj hfound
      rw [hsize _ hlive]
      exact represents.size _ object hobject
    · rw [Function.update_of_ne heq] at hfound
      rw [hsize other ((represents.live other).mpr ⟨found, hfound⟩)]
      exact represents.size other found hfound
  · intro other found index value hfound hvalue
    apply run_loadByte_of_holds
    change HoldsByte (heap.view image) (other + index) value
    rw [stores.view]
    have holds : ∀ old, memory other = some old →
        old.value index = some value → index < old.size →
        HoldsByte (before.heap.view image) (other + index) value := by
      intro old hold hknown hindex
      obtain ⟨held, hheld, rfl⟩ := keeps.held other
        ((represents.live other).mpr ⟨old, hold⟩)
      apply keeps.holdsByte hheld
      · rw [← (keeps.recordedSize hheld).2, represents.size _ old hold]
        exact hindex
      · exact represents.bytes _ old index value hold hknown
    by_cases heq : other = chunk.payload
    · subst heq
      rw [Function.update_self] at hfound
      obtain rfl := Option.some.inj hfound
      rw [StoredObject.store_value] at hvalue
      split at hvalue
      · subst index
        obtain rfl := Option.some.inj hvalue
        exact ⟨_, Function.update_self .., byteOf_setByte word
          (Nat.mod_lt _ (by decide)) byte⟩
      · rename_i hne
        have hindex : index < object.size := by
          by_contra hout
          rw [object.bounded index (Nat.le_of_not_lt hout)] at hvalue
          cases hvalue
        exact (holds object hobject hvalue hindex).store hword (by omega) byte
    · rw [Function.update_of_ne heq] at hfound
      have hindex : index < found.size := by
        by_contra hout
        rw [found.bounded index (Nat.le_of_not_lt hout)] at hvalue
        cases hvalue
      refine (holds found hfound hvalue hindex).store hword ?_ byte
      exact fun hsame => heq (represents.place_inj keeps hfound hobject
        hindex hoffset hsame)

theorem Implements.load (implements : Implements image before memory)
    {pointer offset : Nat} {byte : BitVec 8} {heap : HeapState}
    (hlive : pointer ∈ before.live)
    (hinside : offset < recordedSize image before.heap pointer)
    (hrun : (loadByte image (pointer + offset)).run before.heap =
      .ok (byte, heap)) :
    heap = before.heap ∧
      ObjectStep memory (.load pointer offset byte) memory := by
  obtain ⟨represents, layout, keeps⟩ := implements
  obtain ⟨object, hobject⟩ := (represents.live pointer).mp hlive
  have hoffset := hinside
  rw [represents.size pointer object hobject] at hoffset
  obtain ⟨chunk, hholds, rfl⟩ := keeps.held pointer hlive
  rw [(keeps.recordedSize hholds).2] at hinside
  obtain ⟨word, _, _, hload⟩ := keeps.loadByte_eq hholds hinside
  rw [hrun] at hload
  injection hload with heq
  injection heq with _ hheap
  refine ⟨hheap, .load hobject hoffset ?_⟩
  intro known hknown
  rw [represents.bytes _ object offset known hobject hknown] at hrun
  injection hrun with heq
  injection heq with heq _
  exact heq.symm

/-- The heap follows the memory of objects, step by step. -/
theorem clientRuns_follows {memory : MemoryState} {ram : Nat → BitVec 64}
    (hstart : (initHeap image).run (bootHeap memory ram) =
      .ok ((), start)) :
    System.Follows (clientRuns image start) (ClientSafely image)
      (objectMemories Nat (BitVec 8)) System.unguarded some
      (Implements image) where
  initial := by
    rintro run rfl
    obtain ⟨layout, keeps, _⟩ := keeps_of_initHeap hstart
    refine ⟨fun _ => none, rfl, ⟨?_, nofun, nofun⟩, layout, keeps⟩
    intro pointer
    simp
  silent := by
    intro before event after other _ _ _ hlabel
    cases hlabel
  visible := by
    intro before event after other named implements safely step hlabel
    obtain rfl := Option.some.inj hlabel
    cases step with
    | allocate h =>
        obtain ⟨next, hstep, hnext⟩ := implements.allocate safely h
        exact ⟨next, trivial, hstep, hnext⟩
    | release hlive h =>
        obtain ⟨object, hobject⟩ := (implements.live _).mp hlive
        exact ⟨_, trivial, .release hobject,
          implements.release hlive safely h⟩
    | store hlive hinside h =>
        obtain ⟨next, hstep, hnext⟩ := implements.store hlive hinside h
        exact ⟨next, trivial, hstep, hnext⟩
    | load hlive hinside h =>
        obtain ⟨rfl, hstep⟩ := implements.load hlive hinside h
        exact ⟨other, trivial, hstep, implements⟩

end

/-- Every trace of the heap is a trace of a memory of separate objects: its
clients see objects that are as large as they asked for, and load what they
stored last. -/
theorem clientTrace_isObjectTrace {platform : Platform}
    {image : KernelImage platform} {memory : MemoryState}
    {ram : Nat → BitVec 64} {start : HeapState} {run : HeapRun}
    {events : List (ObjectEvent Nat (BitVec 8))}
    (hstart : (initHeap image).run (bootHeap memory ram) = .ok ((), start))
    (trace : (clientRuns image start).Trace (ClientSafely image) events
      run) :
    ∃ objects, (objectMemories Nat (BitVec 8)).Trace System.unguarded events
        objects ∧ Represents image run objects := by
  obtain ⟨objects, htrace, implements⟩ :=
    (clientRuns_follows hstart).trace trace
  rw [List.filterMap_some] at htrace
  exact ⟨objects, htrace, implements.toRepresents⟩

/-- A byte is stored in an allocation. -/
theorem clientTrace_oneStored :
    ∃ start run events,
      (initHeap smallImage).run (bootHeap bootMemory fun _ => 0) =
        .ok ((), start) ∧
      (clientRuns smallImage start).Trace (ClientSafely smallImage) events
        run ∧
      events.length = 2 ∧
      ∃ objects, (objectMemories Nat (BitVec 8)).Trace System.unguarded
        events objects ∧ Represents smallImage run objects := by
  obtain ⟨start, booted, hstart, staged₀, _⟩ :=
    staged_start smallImage bootMemory fun _ => 0
  obtain ⟨run₁, step₁, staged₁⟩ := @Staged.kmalloc _ _ _ _ _ [] []
    (newChunk 0) _ _ 64 staged₀ (by decide) rfl nofun (by decide) (by decide)
  obtain ⟨run₂, step₂, _⟩ := @Staged.store _ _ _ _ _
    ⟨0x80000000, 64, false⟩ _ _ staged₁ (by decide) rfl (by decide)
    0x8000001D (by decide) (by decide) (by decide) 7
  cases step₁ with
  | kmalloc hmalloc =>
      cases step₂ with
      | store hlive hplace hstore =>
          obtain ⟨offset, hoffset⟩ := Nat.exists_eq_add_of_le hplace.1
          rw [hoffset] at hplace hstore
          have trace : (clientRuns smallImage start).Trace
              (ClientSafely smallImage) [_, _] _ :=
            .step (.step (.initial rfl) (by
                change 64 ≤ 2 ^ 64 - 8
                decide) (ClientStep.allocate hmalloc))
              (by trivial) (ClientStep.store hlive
                (Nat.lt_of_add_lt_add_left hplace.2) hstore)
          exact ⟨start, _, _, hstart, trace, rfl,
            clientTrace_isObjectTrace hstart trace⟩

end Planetoid.Memory
