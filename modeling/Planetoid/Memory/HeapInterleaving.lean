import Planetoid.Memory.HeapSettled

namespace Planetoid.Memory

open Planetoid Program VirtualMemory KernelHeapAllocator

/-! The heap that tasks and the timer interrupt share, one access at a time. -/

/-- Who calls the heap: a task, or the interrupt that cleans up a terminated
task. -/
inductive Caller where
  | task (id : Nat)
  | interrupt
  deriving DecidableEq, Repr

inductive HeapCall where
  | kmalloc (size : Nat)
  | kfree (pointer : Nat)

/-- A call and what is left of its program, which ends with the result of
`kmalloc`. -/
structure PendingCall where
  call : HeapCall
  rest : HeapProgram Nat

structure SharedHeap where
  heap : HeapState
  /-- The live allocations with the sizes that were asked for, rounded. -/
  live : List (Nat × Nat)
  current : Nat
  pending : Caller → Option PendingCall

inductive SharedEvent where
  | begin (caller : Caller) (call : HeapCall)
  | access (caller : Caller)
  | finish (caller : Caller)
  | store (address : Nat) (byte : BitVec 8)
  | preempt (next : Nat)

namespace SharedHeap

/-- The interrupt can come at any time, and no task runs before it is over. -/
def Runs (state : SharedHeap) : Caller → Prop
  | .interrupt => True
  | .task id => state.current = id ∧ state.pending .interrupt = none

def setPending (state : SharedHeap) (caller : Caller)
    (call : Option PendingCall) : SharedHeap :=
  { state with pending := Function.update state.pending caller call }

def Idle (state : SharedHeap) : Prop := ∀ caller, state.pending caller = none

end SharedHeap

section

variable {platform : Platform} (image : KernelImage platform)

def HeapCall.program (budget : Nat) : HeapCall → HeapProgram Nat
  | .kmalloc size => KernelHeapAllocator.kmalloc image budget size
  | .kfree pointer => do
    KernelHeapAllocator.kfree image budget pointer
    pure 0

/-- The live allocations when a call begins: a freed one is given up. -/
def HeapCall.given (live : List (Nat × Nat)) : HeapCall → List (Nat × Nat)
  | .kmalloc _ => live
  | .kfree pointer => live.eraseP fun pair => pair.1 == pointer

def HeapCall.taken (live : List (Nat × Nat)) (result : Nat) :
    HeapCall → List (Nat × Nat)
  | .kmalloc size =>
    if result = 0 then live else (result, alignSize size) :: live
  | .kfree _ => live

/-- Tasks make any calls, the interrupt frees; a pointer that is freed is
live. -/
def HeapCall.Legal (live : List (Nat × Nat)) (caller : Caller) :
    HeapCall → Prop
  | .kmalloc _ => caller ≠ .interrupt
  | .kfree pointer => pointer ∈ live.map Prod.fst

inductive SharedStep : SharedHeap → SharedEvent → SharedHeap → Prop
  | begin {before : SharedHeap} {caller : Caller} {call : HeapCall}
      (budget : Nat) (runs : before.Runs caller)
      (hidle : before.pending caller = none)
      (legal : call.Legal before.live caller) :
      SharedStep before (.begin caller call)
        { before.setPending caller (some ⟨call, call.program image budget⟩)
          with live := call.given before.live }
  | access {before : SharedHeap} {caller : Caller} {call : HeapCall}
      {rest next : HeapProgram Nat} {heap : HeapState}
      (runs : before.Runs caller)
      (hcall : before.pending caller = some ⟨call, rest⟩)
      (h : Program.Step (rest, before.heap) (next, heap)) :
      SharedStep before (.access caller)
        { before.setPending caller (some ⟨call, next⟩) with heap := heap }
  | finish {before : SharedHeap} {caller : Caller} {call : HeapCall}
      {result : Nat} (runs : before.Runs caller)
      (hcall : before.pending caller = some ⟨call, .ret result⟩) :
      SharedStep before (.finish caller)
        { before.setPending caller none with
          live := call.taken before.live result }
  | store {before : SharedHeap} {heap : HeapState} {pair : Nat × Nat}
      {address : Nat} {byte : BitVec 8} (hlive : pair ∈ before.live)
      (hlow : pair.1 ≤ address) (hhigh : address < pair.1 + pair.2)
      (h : (storeByte image address byte).run before.heap = .ok ((), heap)) :
      SharedStep before (.store address byte) { before with heap := heap }
  | preempt {before : SharedHeap} (next : Nat)
      (hidle : before.pending .interrupt = none) :
      SharedStep before (.preempt next) { before with current := next }

def sharedRuns (start : HeapState) : System SharedHeap SharedEvent where
  initial := fun state =>
    state.heap = start ∧ state.live = [] ∧ state.Idle
  step := SharedStep image

/-- A call begins only while no call is in progress, and no block of the list
that begins at a page is freed with `large` set. -/
def CallsApart (state : SharedHeap) : SharedEvent → Prop
  | .begin _ call => state.Idle ∧ ∀ pointer, call = .kfree pointer →
      FreesSafely image ⟨state.heap, state.live.map Prod.fst⟩ (.kfree pointer)
  | _ => True

structure SharedSafe (state : SharedHeap) : Prop where
  disjoint : state.live.Pairwise AllocationsApart
  tiled : state.Idle → ∃ blocks, TilesPages image state.heap blocks

end

section

variable {platform : Platform} {image : KernelImage platform}
  {contents : Contents} {start : MemoryState}
  {before after state : SharedHeap} {event : SharedEvent} {caller : Caller}
  {call : HeapCall} {origin heap : HeapState} {live : List (Nat × Nat)}
  {layout : Layout}

/-- A call that began in `origin`, which has come to `undisturbed` by its own
accesses. -/
structure Underway (image : KernelImage platform) (start : MemoryState)
    (call : HeapCall) (live : List (Nat × Nat)) (origin undisturbed : HeapState)
    (rest : HeapProgram Nat) : Prop where
  memory : HasMemory image start origin
  begun : ∃ budget,
    Steps (call.program image budget, origin) (rest, undisturbed)
  overlooks : rest.Overlooks (clients image origin (call.given live))
    (fun _ _ => True) undisturbed

/-- At most one call is in progress. Since it began, clients have stored into
their allocations, and nothing else has changed the heap but the call. -/
inductive SharedKeeps (image : KernelImage platform) (start : MemoryState)
    (state : SharedHeap) : Prop
  | idle {layout : Layout} (hidle : state.Idle)
      (memory : HasMemory image start state.heap)
      (settled : Settled image state.heap state.live layout)
  | busy {layout : Layout} {caller : Caller} {call : HeapCall}
      {rest : HeapProgram Nat} {origin undisturbed : HeapState}
      {live : List (Nat × Nat)}
      (hcall : state.pending caller = some ⟨call, rest⟩)
      (hothers : ∀ other, other ≠ caller → state.pending other = none)
      (hlive : state.live = call.given live)
      (settled : Settled image origin live layout)
      (legal : call.Legal live caller)
      (safely : ∀ pointer, call = .kfree pointer →
        FreesSafely image ⟨origin, live.map Prod.fst⟩ (.kfree pointer))
      (underway : Underway image start call live origin undisturbed rest)
      (same : SameButClients image origin (call.given live) undisturbed
        state.heap)

theorem map_given_kfree (live : List (Nat × Nat)) (pointer : Nat) :
    (HeapCall.given live (.kfree pointer)).map Prod.fst =
      (live.map Prod.fst).erase pointer := by
  unfold HeapCall.given
  rw [List.erase_eq_eraseP]
  induction live with
  | nil => rfl
  | cons first rest ih =>
      by_cases heq : first.1 = pointer
      · simp [heq]
      · have hne : ¬ pointer = first.1 := fun h => heq h.symm
        simp [heq, hne, ih]

theorem given_sublist (call : HeapCall) (live : List (Nat × Nat)) :
    (call.given live).Sublist live := by
  cases call with
  | kmalloc size => exact List.Sublist.refl live
  | kfree pointer => exact List.eraseP_sublist

theorem sublist_taken (call : HeapCall) (live : List (Nat × Nat))
    (result : Nat) : live.Sublist (call.taken live result) := by
  cases call with
  | kmalloc size =>
      simp only [HeapCall.taken]
      split
      · exact List.Sublist.refl live
      · exact List.sublist_cons_self _ live
  | kfree pointer => exact List.Sublist.refl live

theorem SharedKeeps.safe (keeps : SharedKeeps image start state) :
    SharedSafe image state := by
  cases keeps with
  | idle hidle _ settled =>
      exact ⟨settled.disjoint, fun _ => ⟨_, settled.keeps.arranged.tilesPages
        settled.keeps.coalesced⟩⟩
  | busy hcall _ hlive settled =>
      refine ⟨?_, ?_⟩
      · rw [hlive]
        exact settled.disjoint.sublist (given_sublist _ _)
      · intro hidle
        rw [hidle] at hcall
        cases hcall

/-! A call that nothing but clients has disturbed. -/

theorem Settled.kmalloc (settled : Settled image origin live layout)
    {budget size result : Nat} {heap : HeapState}
    (h : (KernelHeapAllocator.kmalloc image budget size).run origin =
      .ok (result, heap)) :
    ∃ next, Settled image heap (HeapCall.taken live result (.kmalloc size))
      next := by
  obtain ⟨_, _, next, hreturns, served⟩ :=
    kmalloc_returns settled.keeps.arranged size
  have heq := hreturns.unique h
  injection heq with hresult hheap
  subst hresult hheap
  obtain ⟨hkeeps, _⟩ := settled.keeps.kmalloc served
  refine ⟨next, ?_⟩
  simp only [HeapCall.taken]
  rcases served.result with ⟨hzero, hsame⟩ | ⟨hne, takes⟩
  · rw [if_pos hzero] at hkeeps ⊢
    rw [hsame] at hkeeps ⊢
    exact ⟨hkeeps, settled.sizes⟩
  · rw [if_neg hne] at hkeeps ⊢
    obtain ⟨chunk, hpayload, hsize, hholds⟩ := takes.added
    refine ⟨hkeeps, ?_⟩
    intro pair hmem
    rcases List.mem_cons.mp hmem with rfl | hold
    · exact ⟨chunk, (hholds chunk).mpr (.inr rfl), hpayload, hsize⟩
    · obtain ⟨other, hother, hpair⟩ := settled.sizes pair hold
      exact ⟨other, (hholds other).mpr (.inl hother), hpair⟩

theorem Settled.kfree (settled : Settled image origin live layout)
    {budget pointer : Nat} {heap : HeapState}
    (hlive : pointer ∈ live.map Prod.fst)
    (safely : FreesSafely image ⟨origin, live.map Prod.fst⟩ (.kfree pointer))
    (h : (KernelHeapAllocator.kfree image budget pointer).run origin =
      .ok ((), heap)) :
    ∃ next, Settled image heap (HeapCall.given live (.kfree pointer)) next := by
  have step := @HeapStep.kfree _ image ⟨origin, live.map Prod.fst⟩ _ _ _ hlive h
  rw [← map_given_kfree] at step
  obtain ⟨next, hkeeps, _, hkept⟩ := HeapStep.keeps settled.keeps step safely
  refine ⟨next, hkeeps, ?_⟩
  intro pair hmem
  obtain ⟨chunk, hholds, hpayload, hsize⟩ :=
    settled.sizes pair ((given_sublist _ _).subset hmem)
  refine ⟨chunk, hkept chunk hholds ?_, hpayload, hsize⟩
  rw [hpayload]
  exact List.mem_map_of_mem hmem

theorem Underway.ended {result : Nat}
    (underway : Underway image start call live origin heap (.ret result))
    (hstatic : start.static image = Contents.initial image contents)
    (settled : Settled image origin live layout)
    (legal : call.Legal live caller)
    (safely : ∀ pointer, call = .kfree pointer →
      FreesSafely image ⟨origin, live.map Prod.fst⟩ (.kfree pointer)) :
    HasMemory image start heap ∧
      ∃ next, Settled image heap (call.taken (call.given live) result)
        next := by
  obtain ⟨memory, ⟨budget, steps⟩, _⟩ := underway
  have hrun := steps.run_eq.symm
  cases call with
  | kmalloc size =>
      exact ⟨(ends_kmalloc hstatic budget size memory).of_run hrun,
        settled.kmalloc hrun⟩
  | kfree pointer =>
      obtain ⟨_, _, hfree, hend⟩ := run_bind_eq_ok.mp hrun
      cases hend
      exact ⟨(ends_kfree hstatic budget pointer memory).of_run hfree,
        settled.kfree legal (safely pointer rfl) hfree⟩

/-- The pages that `kfree` of a large block frees have no other client. -/
theorem Settled.freed_pages (settled : Settled image origin live layout)
    {chunk : Chunk} (hholds : layout.Holds chunk)
    (safely : FreesSafely image ⟨origin, live.map Prod.fst⟩
      (.kfree chunk.payload)) {flags word : BitVec 64}
    (hflags : origin.view image (chunk.address + 8) = some flags)
    (hset : (byteOf flags 1 != 0) = true)
    (hword : origin.view image chunk.address = some word) {i page : Nat}
    (hi : i < pageCount word.toNat)
    (heq : chunk.address + i * pageSize = pageAddress page) (entry : Nat) :
    ¬ clientPins image origin (HeapCall.given live (.kfree chunk.payload))
      page entry := by
  have remaining := settled.sublist
    (given_sublist (.kfree chunk.payload) live)
  rcases hholds with ⟨hblock, _⟩ | hlarge
  · -- a block of the list with `large` set does not begin at a page
    have hload := run_loadLarge hflags
    rw [hset] at hload
    have hfinds : FindsLarge image origin chunk.payload := by
      unfold FindsLarge
      rw [Chunk.payload_sub]
      exact hload
    have hpage := safely chunk.payload rfl
      (settled.keeps.listed.mpr ⟨chunk, hblock, (Chunk.payload_sub _).symm⟩)
      hfinds
    have haligned := pageAddress_mod page
    rw [Chunk.payload_sub] at hpage
    unfold pageSize at *
    omega
  · have large := settled.arranged.large chunk hlarge
    obtain ⟨size, hsize, heq'⟩ := large.header.size
    rw [hword] at hsize
    cases hsize
    have hbound : chunk.size + sizeofBlock < 2 ^ 64 := by
      have hfinish := large.finish_lt
      unfold Chunk.finish at hfinish
      omega
    rw [heq', pageCount_eq hbound] at hi
    apply remaining.not_clientPins hlarge
    · rw [map_given_kfree]
      exact settled.keeps.nodup.not_mem_erase
    · intro place hlow hhigh
      unfold Chunk.Spans
      have hpages : (i + 1) * pageSize ≤ pagesFor chunk.size * pageSize :=
        Nat.mul_le_mul_right _ hi
      unfold pageSize at *
      omega

/-- A call reads nothing that clients store. -/
theorem Settled.overlooks (settled : Settled image origin live layout)
    (hstatic : start.static image = Contents.initial image contents)
    (memory : HasMemory image start origin) (legal : call.Legal live caller)
    (safely : ∀ pointer, call = .kfree pointer →
      FreesSafely image ⟨origin, live.map Prod.fst⟩ (.kfree pointer))
    (budget : Nat) :
    (call.program image budget).Overlooks
      (clients image origin (call.given live)) (fun _ _ => True) origin := by
  have remaining := settled.sublist (given_sublist call live)
  have serving := remaining.serving memory
  cases call with
  | kmalloc size =>
      exact overlooks_kmalloc hstatic serving remaining.blocksApart
        (linked_listed origin) budget size
  | kfree pointer =>
      obtain ⟨chunk, hholds, rfl⟩ := settled.keeps.held pointer legal
      refine overlooks_bind (overlooks_kfree hstatic serving
        remaining.blocksApart (linked_listed origin)
        (remaining.headerApart hholds.mem) ?_ ?_ budget).ended ?_
      · intro flags hflags hclear
        rcases hholds.mem with hblock | hlarge
        · exact settled.keeps.listed.mpr ⟨chunk, hblock, rfl⟩
        · obtain ⟨set, hset, hlarge⟩ :=
            (settled.arranged.large chunk hlarge).flag
          rw [hflags] at hset
          cases hset
          rw [hclear] at hlarge
          cases hlarge
      · intro flags word hflags hset hword i hi page entry heq
        exact settled.freed_pages hholds (safely _ rfl) hflags hset hword hi
          heq entry
      · rintro _ last ⟨_, halways, _⟩
        exact overlooks_pure halways trivial

theorem SharedStep.keeps
    (hstatic : start.static image = Contents.initial image contents)
    (keeps : SharedKeeps image start before)
    (step : SharedStep image before event after)
    (apart : CallsApart image before event) :
    SharedKeeps image start after := by
  cases step with
  | begin budget runs hidle legal =>
      rename_i caller call
      cases keeps with
      | idle hall memory settled =>
          refine @SharedKeeps.busy _ image _ _ _ caller call _ _ _ _
            (Function.update_self ..) ?_ rfl settled legal apart.2
            ⟨memory, ⟨budget, .refl⟩,
              settled.overlooks hstatic memory legal apart.2 budget⟩
            (SameButClients.refl _)
          intro other hne
          exact (Function.update_of_ne hne ..).trans (hall other)
      | busy hcall =>
          rw [apart.1] at hcall
          cases hcall
  | access runs hcall h =>
      rename_i caller _ _ _ _
      cases keeps with
      | idle hall =>
          rw [hall caller] at hcall
          cases hcall
      | busy hbusy hothers hlive settled legal safely underway same =>
          rename_i owner _ _ _ _ _
          obtain rfl : caller = owner := by
            by_contra hne
            rw [hothers caller hne] at hcall
            cases hcall
          rw [hbusy] at hcall
          cases hcall
          obtain ⟨memory, ⟨budget, steps⟩, overlooks⟩ := underway
          obtain ⟨reached, hstep, hrest, hsame⟩ := overlooks.step same h
          refine .busy (Function.update_self ..) ?_ hlive settled legal safely
            ⟨memory, ⟨budget, steps.tail hstep⟩, hrest⟩ hsame
          intro other hne
          exact (Function.update_of_ne hne ..).trans (hothers other hne)
  | finish runs hcall =>
      rename_i caller call result
      cases keeps with
      | idle hall =>
          rw [hall caller] at hcall
          cases hcall
      | busy hbusy hothers hlive settled legal safely underway same =>
          rename_i owner _ _ _ _ _
          obtain rfl : caller = owner := by
            by_contra hne
            rw [hothers caller hne] at hcall
            cases hcall
          rw [hbusy] at hcall
          cases hcall
          have hidle : ∀ other, Function.update before.pending caller none
              other = none := by
            intro other
            by_cases heq : other = caller
            · rw [heq]
              exact Function.update_self ..
            · exact (Function.update_of_ne heq ..).trans (hothers other heq)
          obtain ⟨memory, next, hnext⟩ :=
            underway.ended hstatic settled legal safely
          have pinned := underway.overlooks.always
          rw [← hlive] at same pinned hnext
          exact .idle hidle (same.hasMemory memory) (hnext.disturbed same pinned
            (sublist_taken call before.live result))
  | store hmem hlow hhigh h =>
      cases keeps with
      | idle hall memory settled =>
          have hclient := settled.clientWord hmem hlow hhigh
          have same := (SameButClients.refl before.heap).storeByte
            settled.pinned hclient (settled.poolWord hclient) h
          exact .idle hall (same.hasMemory memory)
            (settled.disturbed same settled.pinned (List.Sublist.refl _))
      | busy hcall hothers hlive settled legal safely underway same =>
          rename_i call _ _ _ live
          rw [hlive] at hmem
          have remaining := settled.sublist (given_sublist call live)
          have hclient := remaining.clientWord hmem hlow hhigh
          exact .busy hcall hothers hlive settled legal safely underway
            (same.storeByte underway.overlooks.always hclient
              (remaining.poolWord hclient) h)
  | preempt next hidle =>
      cases keeps with
      | idle hall memory settled => exact .idle hall memory settled
      | busy hcall hothers hlive settled legal safely underway same =>
          exact .busy hcall hothers hlive settled legal safely underway same

end

/-- Calls that do not overlap keep the allocations apart and the list whole,
while clients store at any time. -/
theorem sharedSafe_of_callsApart {platform : Platform}
    {image : KernelImage platform} {memory : MemoryState}
    {ram : Nat → BitVec 64} {start : HeapState} {state : SharedHeap}
    (hstart : (initHeap image).run (bootHeap memory ram) = .ok ((), start))
    (reachable : (sharedRuns image start).Reachable (CallsApart image)
      state) : SharedSafe image state := by
  obtain ⟨booted, hstatic, hmemory⟩ := hasMemory_start hstart
  have keeps : SharedKeeps image booted state := by
    apply reachable.holds
    · rintro initial ⟨hheap, hlive, hidle⟩
      obtain ⟨layout, hkeeps, _⟩ := keeps_of_initHeap hstart
      rw [← hheap] at hmemory hkeeps
      refine @SharedKeeps.idle _ _ _ _ layout hidle hmemory ⟨?_, ?_⟩
      · rw [hlive]
        exact hkeeps
      · rw [hlive]
        exact nofun
    · intro before event after keeps apart step
      exact SharedStep.keeps hstatic keeps step apart
  exact keeps.safe

/-! Two tasks in `kmalloc` at the same time. -/

section

variable {platform : Platform} {image : KernelImage platform}
  {start heap : HeapState} {guard : SharedHeap → SharedEvent → Prop}
  {state : SharedHeap} {caller : Caller} {call : HeapCall}

theorem SharedHeap.Runs.setPending (runs : state.Runs caller)
    (pending : Option PendingCall) :
    (state.setPending caller pending).Runs caller := by
  cases caller with
  | interrupt => trivial
  | task id =>
      have hne : Caller.interrupt ≠ .task id := nofun
      refine ⟨runs.1, ?_⟩
      rw [← runs.2]
      exact Function.update_of_ne hne pending state.pending

theorem reachable_accesses
    (reachable : (sharedRuns image start).Reachable guard state)
    (hguard : ∀ before, guard before (.access caller))
    (runs : state.Runs caller) {rest next : HeapProgram Nat}
    (hcall : state.pending caller = some ⟨call, rest⟩)
    (steps : Steps (rest, state.heap) (next, heap)) :
    (sharedRuns image start).Reachable guard
      { state.setPending caller (some ⟨call, next⟩) with heap := heap } := by
  suffices h : ∀ last, Steps (rest, state.heap) last →
      (sharedRuns image start).Reachable guard
        { state.setPending caller (some ⟨call, last.1⟩) with
          heap := last.2 } from h _ steps
  intro last steps
  induction steps with
  | refl =>
      have hsame : state.setPending caller (some ⟨call, rest⟩) = state := by
        unfold SharedHeap.setPending
        rw [← hcall, Function.update_eq_self]
      rw [hsame]
      exact reachable
  | tail _ step ih =>
      rename_i middle last _
      have hstep := @SharedStep.access _ image
        { state.setPending caller (some ⟨call, middle.1⟩) with
          heap := middle.2 } caller call middle.1 last.1 last.2
        (runs.setPending _) (Function.update_self ..) step
      have hlast : (state.setPending caller (some ⟨call, last.1⟩)).pending =
          Function.update (state.setPending caller
            (some ⟨call, middle.1⟩)).pending caller (some ⟨call, last.1⟩) :=
        (Function.update_idem ..).symm
      have hnext := ih.step (hguard _) hstep
      unfold SharedHeap.setPending at hnext
      rw [Function.update_idem] at hnext
      exact hnext

theorem reachable_begin
    (reachable : (sharedRuns image start).Reachable guard state)
    (hbegin : guard state (.begin caller call))
    (hguard : ∀ before, guard before (.access caller))
    (runs : state.Runs caller) (hidle : state.pending caller = none)
    (legal : call.Legal state.live caller) (budget : Nat)
    {next : HeapProgram Nat}
    (steps : Steps (call.program image budget, state.heap) (next, heap)) :
    (sharedRuns image start).Reachable guard
      { heap := heap, live := call.given state.live, current := state.current
        pending := Function.update state.pending caller
          (some ⟨call, next⟩) } := by
  have hbegun := reachable.step hbegin
    (SharedStep.begin budget runs hidle legal)
  have hreached := reachable_accesses hbegun hguard
    (runs.setPending (some ⟨call, call.program image budget⟩))
    (Function.update_self ..) steps
  unfold SharedHeap.setPending at hreached
  simp only [Function.update_idem] at hreached
  exact hreached

theorem reachable_finish
    (reachable : (sharedRuns image start).Reachable guard state)
    (hguard : ∀ before, guard before (.access caller))
    (hfinish : ∀ before, guard before (.finish caller))
    (runs : state.Runs caller) {rest : HeapProgram Nat} {result : Nat}
    (hcall : state.pending caller = some ⟨call, rest⟩)
    (h : rest.run state.heap = .ok (result, heap)) :
    (sharedRuns image start).Reachable guard
      { heap := heap, live := call.taken state.live result
        current := state.current
        pending := Function.update state.pending caller none } := by
  have hlast := reachable_accesses reachable hguard runs hcall (steps_ret h)
  have hended := hlast.step (hfinish _)
    (@SharedStep.finish _ image _ caller call result
      (runs.setPending (some ⟨call, .ret result⟩)) (Function.update_self ..))
  unfold SharedHeap.setPending at hended
  simp only [Function.update_idem] at hended
  exact hended

theorem reachable_call
    (reachable : (sharedRuns image start).Reachable guard state)
    (hbegin : guard state (.begin caller call))
    (hguard : ∀ before, guard before (.access caller))
    (hfinish : ∀ before, guard before (.finish caller))
    (runs : state.Runs caller) (hidle : state.pending caller = none)
    (legal : call.Legal state.live caller) {budget result : Nat}
    (h : (call.program image budget).run state.heap = .ok (result, heap))
    {live : List (Nat × Nat)}
    (hlive : call.taken (call.given state.live) result = live) :
    (sharedRuns image start).Reachable guard
      { state with heap := heap, live := live } := by
  have begun := reachable_begin reachable hbegin hguard runs hidle legal budget
    .refl
  have hended := reachable_finish begun hguard hfinish
    (runs.setPending (some ⟨call, call.program image budget⟩))
    (Function.update_self ..) h
  have hpending : Function.update (Function.update state.pending caller
      (some ⟨call, call.program image budget⟩)) caller none =
        state.pending := by
    rw [Function.update_idem, ← hidle, Function.update_eq_self]
  simp only [hpending, hlive] at hended
  exact hended

theorem reachable_preempt
    (reachable : (sharedRuns image start).Reachable (CallsApart image) state)
    (hidle : state.pending .interrupt = none) (next : Nat) :
    (sharedRuns image start).Reachable (CallsApart image)
      { state with current := next } :=
  reachable.step (show CallsApart image state (.preempt next) from trivial)
    (.preempt next hidle)

theorem reachable_kmalloc
    (reachable : (sharedRuns image start).Reachable (CallsApart image) state)
    (hidle : state.Idle) {budget size result : Nat}
    (h : (KernelHeapAllocator.kmalloc image budget size).run state.heap =
      .ok (result, heap)) (hne : result ≠ 0) :
    (sharedRuns image start).Reachable (CallsApart image)
      { state with heap := heap, live := (result, alignSize size) ::
        state.live } :=
  @reachable_call _ _ _ _ _ _ (.task state.current) (.kmalloc size) reachable
    ⟨hidle, nofun⟩ (fun _ => trivial) (fun _ => trivial)
    ⟨rfl, hidle .interrupt⟩ (hidle _) nofun _ _ h _ (if_neg hne)

theorem reachable_kfree
    (reachable : (sharedRuns image start).Reachable (CallsApart image) state)
    (hidle : state.Idle) {budget pointer : Nat}
    (hlive : pointer ∈ state.live.map Prod.fst)
    (safely : FreesSafely image ⟨state.heap, state.live.map Prod.fst⟩
      (.kfree pointer))
    (h : (KernelHeapAllocator.kfree image budget pointer).run state.heap =
      .ok ((), heap)) :
    (sharedRuns image start).Reachable (CallsApart image)
      { state with
        heap := heap
        live := state.live.eraseP fun pair => pair.1 == pointer } := by
  apply @reachable_call _ _ _ _ _ _ .interrupt (.kfree pointer) reachable
    ⟨hidle, ?_⟩ (fun _ => trivial) (fun _ => trivial) trivial (hidle _) hlive
    budget 0 (run_bind_ok h _) _ rfl
  rintro other heq
  cases heq
  exact safely

theorem Staged.steps_split {run : HeapRun} {memory : MemoryState}
    {blocks before rest : List Chunk} {chunk : Chunk} {live : List Nat}
    {bytes : List (Nat × BitVec 8)} {size : Nat}
    (staged : Staged image run memory blocks live bytes)
    (hsize : Small size) (hblocks : blocks = before ++ chunk :: rest)
    (hbefore : ∀ other ∈ before, ¬ Fits size other) (hfits : Fits size chunk)
    (hroom : chunk.size ≥ size + sizeofBlock + 8) :
    Steps (KernelHeapAllocator.kmalloc image (blocks.length + 1) size,
        run.heap)
      (splitBlock image chunk.address size >>= fun _ =>
        pure chunk.payload, run.heap) := by
  have header : Header (run.heap.view image) chunk (headPointer rest 0) := by
    have headers := staged.arranged.headers
    simp only [hblocks] at headers
    exact headers.header
  have hfound : firstFit size 0 blocks =
      (lastPointer 0 before, chunk.address) := by
    rw [hblocks]
    exact firstFit_append 0 hbefore hfits
  have hsearch := search_returns size blocks staged.arranged.headers 0
  rw [hfound] at hsearch
  have hsearched := hsearch.run_eq (Nat.lt_succ_self _)
  have hfree := header.run_loadFree
  rw [hfits.1] at hfree
  rw [kmalloc_of_small hsize]
  unfold allocateSmall
  refine .head (.access _ _ _) ?_
  change Steps (whileLoop Fault.budgetExhausted _ _
    (0, run.heap.firstBlock) >>= _, run.heap) _
  rw [staged.arranged.first]
  refine (steps_of_run hsearched _).trans ?_
  simp only
  rw [if_neg header.address_ne_zero]
  unfold allocateFromBlock
  rw [if_neg header.address_ne_zero]
  refine (steps_of_run hfree _).trans ?_
  simp only [Bool.not_true, Bool.false_eq_true, if_false]
  refine (steps_of_run header.run_loadSize _).trans ?_
  rw [if_neg (Nat.not_lt.mpr hfits.2)]
  refine (steps_of_run header.run_loadSize _).trans ?_
  rw [if_pos hroom]
  exact .refl

end

/-- Three allocations by two tasks, the second of which is preempted between
the tests of a block and the stores to it, while the first one stores into what
it has. The interrupt frees the first allocation. -/
theorem sharedSafe_twoLive :
    ∃ start middle stored state,
      (initHeap smallImage).run (bootHeap bootMemory fun _ => 0) =
        .ok ((), start) ∧
      (sharedRuns smallImage start).Reachable (CallsApart smallImage) middle ∧
      middle.pending (.task 1) ≠ none ∧
      SharedStep smallImage middle (.store (pageAddress 0 + 25) 1) stored ∧
      (sharedRuns smallImage start).Reachable (CallsApart smallImage) state ∧
      state.live = [(pageAddress 0 + 200, 64), (pageAddress 0 + 112, 64)] ∧
      SharedSafe smallImage state := by
  obtain ⟨start, booted, hstart, staged, _⟩ :=
    staged_start smallImage bootMemory fun _ => 0
  obtain ⟨heap₁, run₁, staged₁⟩ := @Staged.run_kmalloc _ _ _ _ _ [] []
    (newChunk 0) _ _ 64 staged (by decide) rfl nofun (by decide) (by decide)
  obtain ⟨heap₂, run₂, staged₂⟩ := @Staged.run_store _ _ _ _ _
    ⟨pageAddress 0, 64, false⟩ _ _ staged₁ (by decide) rfl
    (pageAddress 0 + 25) (by decide) (by decide) (by decide) 1
  obtain ⟨rest, found, again⟩ : ∃ rest : HeapProgram Nat,
      Steps (KernelHeapAllocator.kmalloc smallImage 3 64, heap₁)
        (rest, heap₁) ∧
      Steps (KernelHeapAllocator.kmalloc smallImage 3 64, heap₂)
        (rest, heap₂) :=
    ⟨_, @Staged.steps_split _ _ _ _ _ [⟨pageAddress 0, 64, false⟩] []
      ⟨pageAddress 0 + 88, 3984, true⟩ _ _ 64 staged₁ (by decide) rfl
      (by decide) (by decide) (by decide),
      @Staged.steps_split _ _ _ _ _ [⟨pageAddress 0, 64, false⟩] []
      ⟨pageAddress 0 + 88, 3984, true⟩ _ _ 64 staged₂ (by decide) rfl
      (by decide) (by decide) (by decide)⟩
  obtain ⟨heap₃, run₃, staged₃⟩ := @Staged.run_kmalloc _ _ _ _ _
    [⟨pageAddress 0, 64, false⟩] [] ⟨pageAddress 0 + 88, 3984, true⟩ _ _ 64
    staged₂ (by decide) rfl (by decide) (by decide) (by decide)
  obtain ⟨heap₄, run₄, staged₄⟩ := @Staged.run_kmalloc _ _ _ _ _
    [⟨pageAddress 0, 64, false⟩, ⟨pageAddress 0 + 88, 64, false⟩] []
    ⟨pageAddress 0 + 176, 3896, true⟩ _ _ 64 staged₃ (by decide) rfl
    (by decide) (by decide) (by decide)
  obtain ⟨heap₅, run₅, _⟩ := @Staged.run_kfree _ _ _ _ _ []
    [⟨pageAddress 0 + 88, 64, false⟩, ⟨pageAddress 0 + 176, 64, false⟩,
      ⟨pageAddress 0 + 264, 3808, true⟩] ⟨pageAddress 0, 64, false⟩ _ _ staged₄
    rfl (by decide) (by decide)
  have first : (sharedRuns smallImage start).Reachable (CallsApart smallImage)
      ⟨heap₁, [(pageAddress 0 + 24, 64)], 0, fun _ => none⟩ :=
    @reachable_kmalloc _ _ _ _ ⟨start, [], 0, fun _ => none⟩
      (.initial ⟨rfl, rfl, fun _ => rfl⟩) (fun _ => rfl) _ _ _ run₁
      (newChunk 0).payload_ne_zero
  have suspended : (sharedRuns smallImage start).Reachable
      (CallsApart smallImage)
      ⟨heap₁, [(pageAddress 0 + 24, 64)], 0, Function.update (fun _ => none)
        (.task 1) (some ⟨.kmalloc 64, rest⟩)⟩ :=
    reachable_preempt (@reachable_begin _ _ _ _ _ _ (.task 1) (.kmalloc 64)
      (reachable_preempt first rfl 1) ⟨fun _ => rfl, nofun⟩ (fun _ => trivial)
      ⟨rfl, rfl⟩ rfl nofun 3 _ found) rfl 0
  have step := @SharedStep.store _ smallImage ⟨heap₁,
    [(pageAddress 0 + 24, 64)], 0, Function.update (fun _ => none) (.task 1)
      (some ⟨.kmalloc 64, rest⟩)⟩ _ (pageAddress 0 + 24, 64)
    (pageAddress 0 + 25) 1 (List.mem_singleton_self _) (by decide) (by decide)
    run₂
  have stored := suspended.step
    (show CallsApart smallImage _ (.store (pageAddress 0 + 25) 1) from trivial)
    step
  have second : (sharedRuns smallImage start).Reachable
      (CallsApart smallImage)
      ⟨heap₃, [(pageAddress 0 + 112, 64), (pageAddress 0 + 24, 64)], 1,
        fun _ => none⟩ := by
    have ended := @reachable_finish _ _ _ _ _ _ (.task 1) (.kmalloc 64)
      (reachable_preempt stored rfl 1) (fun _ => trivial) (fun _ => trivial)
      ⟨rfl, rfl⟩ _ _ rfl (again.run_eq.trans run₃)
    rw [Function.update_idem, Function.update_eq_self] at ended
    exact ended
  have third : (sharedRuns smallImage start).Reachable (CallsApart smallImage)
      ⟨heap₄, [(pageAddress 0 + 200, 64), (pageAddress 0 + 112, 64),
        (pageAddress 0 + 24, 64)], 1, fun _ => none⟩ :=
    reachable_kmalloc second (fun _ => rfl) run₄
      (Chunk.payload_ne_zero ⟨pageAddress 0 + 176, 3896, true⟩)
  have hlive : pageAddress 0 + 24 ∈ [pageAddress 0 + 200, pageAddress 0 + 112,
      pageAddress 0 + 24] := by
    decide
  have listed := @Staged.freesListed _ smallImage _ _ _
    ⟨pageAddress 0, 64, false⟩ _ _ staged₄ (by decide) (by decide)
  have last := reachable_kfree third (fun _ => rfl) hlive listed.safely run₅
  exact ⟨start, _, _, _, hstart, suspended, nofun, step, last, rfl,
    sharedSafe_of_callsApart hstart last⟩

/-- A task is interrupted after it has found a free block. Another task
allocates the block, and the first one takes it too. -/
theorem sharedSafe_fails_for_overlap :
    ∃ start state, (initHeap smallImage).run (bootHeap bootMemory fun _ => 0) =
        .ok ((), start) ∧
      (sharedRuns smallImage start).Reachable System.unguarded state ∧
      ¬ SharedSafe smallImage state := by
  obtain ⟨start, booted, hstart, staged, _⟩ :=
    staged_start smallImage bootMemory fun _ => 0
  have found := @Staged.steps_split _ _ _ _ _ [] [] (newChunk 0) _ _ 64 staged
    (by decide) rfl nofun (by decide) (by decide)
  obtain ⟨run, step, allocated⟩ := @Staged.kmalloc _ _ _ _ _ [] []
    (newChunk 0) _ _ 64 staged (by decide) rfl nofun (by decide) (by decide)
  obtain ⟨budget, hrun⟩ : ∃ budget,
      (KernelHeapAllocator.kmalloc smallImage budget 64).run start =
        .ok ((newChunk 0).payload, run.heap) := by
    cases step with
    | kmalloc h =>
        rename_i result
        have hlive := allocated.live
        by_cases hzero : result = 0
        · rw [if_pos hzero] at hlive
          cases hlive
        · rw [if_neg hzero] at hlive
          obtain rfl := (List.cons.inj hlive).1
          exact ⟨_, h⟩
  -- the first task goes on with the block that is no longer free
  obtain ⟨taken, last, _⟩ := allocated.arranged.headers
  obtain ⟨rest, hrest, _⟩ := last.size
  obtain ⟨flags, hflags, _⟩ := last.free
  obtain ⟨next, hnext, _⟩ := last.next
  obtain ⟨after, hsplit, _⟩ := @run_splitBlock _ smallImage run.heap
    ⟨pageAddress 0, 64, false⟩ _ allocated.arranged.sound taken 64 _ (by
      intro offset hoffset hmod
      have hcases : offset = 0 ∨ offset = 8 ∨ offset = 16 := by omega
      rcases hcases with rfl | rfl | rfl
      · exact ⟨rest, hrest⟩
      · exact ⟨flags, hflags⟩
      · exact ⟨next, hnext⟩) rfl
  have initial : (sharedRuns smallImage start).Reachable System.unguarded
      ⟨start, [], 0, fun _ => none⟩ := .initial ⟨rfl, rfl, fun _ => rfl⟩
  have begun := @reachable_begin _ _ _ _ _ _ (.task 0) (.kmalloc 64) initial
    trivial (fun _ => trivial) ⟨rfl, rfl⟩ rfl nofun _ _ found
  have switched := begun.step trivial (SharedStep.preempt 1 rfl)
  have second := @reachable_begin _ _ _ _ _ _ (.task 1) (.kmalloc 64) switched
    trivial (fun _ => trivial) ⟨rfl, rfl⟩ rfl nofun budget _ .refl
  have served := @reachable_finish _ _ _ _ _ _ (.task 1) (.kmalloc 64)
    second (fun _ => trivial) (fun _ => trivial) ⟨rfl, rfl⟩ _ _ rfl hrun
  have back := served.step trivial (SharedStep.preempt 0 rfl)
  have ended := @reachable_finish _ _ _ _ _ _ (.task 0) _ back
    (fun _ => trivial) (fun _ => trivial) ⟨rfl, rfl⟩ _ _ rfl
    (run_bind_ok hsplit _)
  refine ⟨start, _, hstart, ended, ?_⟩
  intro safe
  exact (List.rel_of_pairwise_cons safe.disjoint
    (List.mem_singleton.mpr rfl)).1 rfl

end Planetoid.Memory
