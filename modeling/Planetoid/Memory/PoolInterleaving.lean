import Planetoid.Memory.FreeFrames
import Planetoid.Memory.PoolRequests

namespace Planetoid.Memory

open Planetoid Program Mmu TableTree VirtualMemory Arch

/-! The pool one access at a time, while the hardware caches translations. -/

def MemoryState.fill (state : MemoryState) (virtualAddress address : Nat) :
    MemoryState :=
  { state with
    tlb := Function.update state.tlb (virtualAddress >>> 12) (some address) }

theorem MemoryState.tlb_fill (state : MemoryState)
    (virtualAddress address : Nat) :
    (state.fill virtualAddress address).tlb (virtualAddress >>> 12) =
      some address := Function.update_self ..

/-- The memory, and what is left of the operation in progress. -/
structure SteppedPool where
  memory : MemoryState
  pending : Option (Vm Unit)

inductive SteppedEvent where
  | begin (operation : PoolOperation)
  | access
  | finish
  | cache

section

variable {platform : Platform} (image : KernelImage platform)

inductive SteppedStep : SteppedPool → SteppedEvent → SteppedPool → Prop
  | begin (memory : MemoryState) (operation : PoolOperation) :
      SteppedStep ⟨memory, none⟩ (.begin operation)
        ⟨memory, some (operation.program image)⟩
  | access {program next : Vm Unit} {before after : MemoryState}
      (h : Program.Step (program, before) (next, after)) :
      SteppedStep ⟨before, some program⟩ .access ⟨after, some next⟩
  | finish (memory : MemoryState) :
      SteppedStep ⟨memory, some (.ret ())⟩ .finish ⟨memory, none⟩
  | cache {before after : MemoryState} {pending : Option (Vm Unit)}
      (h : Caches image before after) :
      SteppedStep ⟨before, pending⟩ .cache ⟨after, pending⟩

def steppedRuns (start : MemoryState) :
    System SteppedPool SteppedEvent where
  initial := fun state => state = ⟨start, none⟩
  step := SteppedStep image

/-- No address of the pool has a cached translation to `frame`. -/
def Uncached (platform : Platform) (memory : MemoryState) (frame : Nat) :
    Prop :=
  ∀ virtualAddress, virtualMemoryStart ≤ virtualAddress →
    virtualAddress < virtualMemoryEnd →
    memory.tlb (virtualAddress >>> 12) ≠ some (platform.frameAddress frame)

/-- A free frame is not cached, and what is cached of a frame that backs a page
or is a page table is the current translation. -/
structure TlbSafe (memory : MemoryState) : Prop where
  free : ∀ frame, memory.used frame = false → Uncached platform memory frame
  linked : ∀ page frame, page < virtualPageCount →
    memory.tlb (pageAddress page >>> 12) = some (platform.frameAddress frame) →
    ¬ Detached image memory frame → MapsTo image memory page frame

/-- An access writes entries of a table, or goes on by what it reads there. -/
def Dereferences : Vm Unit → Nat → Prop
  | .access update next, table =>
      (∃ state : MemoryState, (update state).tables table ≠
        state.tables table) ∨
      ∃ (state : MemoryState) (entries : Nat → Nat),
        next { state with
          tables := Function.update state.tables table entries } ≠ next state
  | _, _ => False

/-- Every page table is in the memory that is mapped one-to-one, also the next
one to be allocated, which can be written there. -/
structure TablesReachable (state : SteppedPool) : Prop where
  linked : ∀ node table, tableAt image state.memory node = some table →
    InRam platform table
  allocated : ∀ table after,
    (allocatePageTable platform).run state.memory = .ok (some table, after) →
    InRam platform table ∧ ∃ translation,
      hardwareWalk image state.memory table = some translation ∧
      translation.address = table ∧ readOnly translation.entry = false
  dereferenced : ∀ program table, state.pending = some program →
    Dereferences program table → InRam platform table
  identity : ∀ address, InRam platform address →
    ∃ translation, hardwareWalk image state.memory address =
        some translation ∧ translation.address = address

end

section

variable {platform : Platform} {image : KernelImage platform}
  {contents : Contents} {boot start memory : MemoryState}
  {state : SteppedPool}

def SteppedPool.Operating (image : KernelImage platform)
    (start : MemoryState) (state : SteppedPool) : Prop :=
  match state.pending with
  | none => Resting image start noPins state.memory
  | some program => program.Guarded (poolEnvironment image noPins)
      (fun _ after => Resting image start noPins after) state.memory

theorem resting_start
    (hstart : (initMemory image).run boot = .ok ((), start)) :
    Resting image start noPins start ∧
      start.static image = Contents.initial image (boot.static image) := by
  obtain ⟨initial, hrun, sound, hcount, hreserved, hstatic, htlb, _⟩ :=
    run_initMemory image boot
  cases hrun.symm.trans hstart
  refine ⟨⟨?_, ?_, ?_, nofun⟩, hstatic⟩
  · have hcore : start.core = start := by
      unfold MemoryState.core
      rw [← htlb]
    rw [hcore]
    exact sound
  · have fixed := fixed_initial hstatic hcount hreserved
    exact ⟨fixed.second, fixed.block, fixed.leaf, fixed.tables, fixed.low⟩
  · intro page address _ h
    unfold cachedAt at h
    rw [htlb] at h
    cases h

theorem SteppedStep.operating
    (hstatic : start.static image = Contents.initial image contents)
    {before after : SteppedPool} {event : SteppedEvent}
    (operating : before.Operating image start)
    (h : SteppedStep image before event after) :
    after.Operating image start := by
  cases h with
  | begin memory operation => exact operation.guarded hstatic operating
  | access h => exact Guarded.step operating h
  | finish memory => exact (operating _ (Caches.refl memory)).2
  | @cache before after pending h =>
      cases pending with
      | none => exact Resting.rely operating h
      | some program => exact Guarded.rely operating h

theorem operating_of_reachable
    (hstart : (initMemory image).run boot = .ok ((), start))
    (reachable : (steppedRuns image start).Reachable System.unguarded state) :
    state.Operating image start ∧ Kept image noPins state.memory := by
  obtain ⟨resting, hstatic⟩ := resting_start hstart
  have operating : state.Operating image start := by
    apply reachable.holds
    · rintro _ rfl
      exact resting
    · exact fun _ _ _ hbefore _ h => SteppedStep.operating hstatic hbefore h
  refine ⟨operating, ?_⟩
  obtain ⟨memory, pending⟩ := state
  cases pending with
  | none => exact (Steady.within operating).kept hstatic
  | some program => exact Guarded.invariant operating

theorem page_of_poolAddress {virtualAddress : Nat}
    (hlow : virtualMemoryStart ≤ virtualAddress)
    (hhigh : virtualAddress < virtualMemoryEnd) :
    ∃ page, page < virtualPageCount ∧
      virtualAddress >>> 12 = pageAddress page >>> 12 := by
  rw [virtualPageCount_eq]
  unfold virtualMemoryEnd at hhigh
  unfold virtualMemoryStart at hlow
  refine ⟨(virtualAddress - 0x80000000) / 4096, by omega, ?_⟩
  unfold pageAddress virtualMemoryStart pageSize
  rw [Nat.shiftRight_eq_div_pow, Nat.shiftRight_eq_div_pow]
  omega

theorem Kept.tlbSafe (kept : Kept image noPins memory) :
    TlbSafe image memory where
  free := by
    intro frame hfree virtualAddress hlow hhigh h
    obtain ⟨page, hpage, hsame⟩ := page_of_poolAddress hlow hhigh
    rw [hsame] at h
    obtain ⟨other, _, haddress, hused, _⟩ := kept.cached page _ hpage h
    rw [platform.frameAddress_injective haddress, hused] at hfree
    cases hfree
  linked := by
    intro page frame hpage h hlinked
    obtain ⟨other, _, haddress, _, hmaps⟩ := kept.cached page _ hpage h
    rw [platform.frameAddress_injective haddress] at hlinked ⊢
    rcases hmaps with hmaps | ⟨_, hdetached⟩
    · exact hmaps
    · exact absurd hdetached hlinked

/-- No step but one of the hardware caches a translation. -/
theorem SteppedStep.tlb {before after : SteppedPool} {event : SteppedEvent}
    (operating : before.Operating image start)
    (h : SteppedStep image before event after)
    (hevent : event ≠ .cache) (page : Nat) :
    after.memory.tlb page = before.memory.tlb page ∨
      after.memory.tlb page = none := by
  cases h with
  | begin memory operation => exact .inl rfl
  | access h =>
      cases h with
      | access update next =>
          have guarded := operating _ (Caches.refl _)
          exact (guarded.2.1.writes _).2 page
  | finish memory => exact .inl rfl
  | cache h => exact absurd rfl hevent

end

/-- While the hardware caches translations at any time: what is cached of the
pool leads to no free frame, nor to a frame that is used for anything else than
the page. The access that frees a frame and the one that takes it again leave
nothing cached of it. -/
theorem tlbSafe_of_reachable {platform : Platform}
    {image : KernelImage platform} {boot start : MemoryState}
    {state : SteppedPool}
    (hstart : (initMemory image).run boot = .ok ((), start))
    (reachable : (steppedRuns image start).Reachable System.unguarded state) :
    TlbSafe image state.memory ∧
      ∀ event after frame, SteppedStep image state event after →
        after.memory.used frame ≠ state.memory.used frame →
        Uncached platform after.memory frame := by
  obtain ⟨operating, kept⟩ := operating_of_reachable hstart reachable
  refine ⟨kept.tlbSafe, ?_⟩
  intro event after frame hstep hchanged
  obtain ⟨_, afterKept⟩ :=
    operating_of_reachable hstart (reachable.step trivial hstep)
  cases hfree : after.memory.used frame with
  | false => exact afterKept.tlbSafe.free frame hfree
  | true =>
      have hbefore : state.memory.used frame = false := by
        rw [hfree] at hchanged
        exact Bool.eq_false_iff.mpr fun h => hchanged h.symm
      have hevent : event ≠ .cache := by
        rintro rfl
        cases hstep with
        | cache h =>
            have hsame := congrArg
              (fun current : MemoryState => current.used frame) h.core
            exact hchanged hsame
      intro virtualAddress hlow hhigh hcached
      rcases hstep.tlb operating hevent (virtualAddress >>> 12) with
        hsame | hnone
      · rw [hsame] at hcached
        exact kept.tlbSafe.free frame hbefore virtualAddress hlow hhigh hcached
      · rw [hnone] at hcached
        cases hcached

section

variable {platform : Platform} {image : KernelImage platform}
  {boot start memory : MemoryState} {state : SteppedPool}

theorem run_allocatePage_start
    (hstart : (initMemory image).run boot = .ok ((), start)) :
    ∃ after, (PoolOperation.allocatePage.program image).run start =
        .ok ((), after) ∧ after.virtualBitmap.test 0 = true := by
  obtain ⟨initial, first, _, hrun, hfirst, filled, _⟩ :=
    allocatePage_twice image boot
  cases hrun.symm.trans hstart
  refine ⟨first, run_bind_ok hfirst _, ?_⟩
  rw [filled.bit, if_pos rfl]

theorem reachable_steps {first last : Vm Unit × MemoryState}
    (reachable : (steppedRuns image start).Reachable System.unguarded
      ⟨first.2, some first.1⟩)
    (steps : Program.Steps first last) :
    (steppedRuns image start).Reachable System.unguarded
      ⟨last.2, some last.1⟩ := by
  induction steps with
  | refl => exact reachable
  | tail _ step ih => exact .step ih trivial (.access step)

theorem reachable_operation {before after : MemoryState}
    (reachable : (steppedRuns image start).Reachable System.unguarded
      ⟨before, none⟩) {operation : PoolOperation}
    (h : (operation.program image).run before = .ok ((), after)) :
    (steppedRuns image start).Reachable System.unguarded ⟨after, none⟩ := by
  have hsteps := steps_of_run h (pure : Unit → Vm Unit)
  have hbind : ∀ program : Vm Unit, program >>= pure = program := by
    intro program
    change program.bind _ = program
    induction program with
    | ret value => rfl
    | fail fault => rfl
    | access update next ih =>
        change access update (fun state => (next state).bind _) = _
        rw [funext ih]
  rw [hbind] at hsteps
  have hbegin : (steppedRuns image start).Reachable System.unguarded
      ⟨before, some (operation.program image)⟩ :=
    .step reachable trivial (.begin before operation)
  exact .step (reachable_steps hbegin hsteps) trivial (.finish after)

theorem caches_of_walk {virtualAddress : Nat} {translation : Translation}
    (hlt : virtualAddress < 2 ^ 39)
    (hwalk : hardwareWalk image memory virtualAddress = some translation) :
    Caches image memory (memory.fill virtualAddress
      (translation.address - virtualAddress % pageSize)) := by
  refine ⟨rfl, ?_⟩
  intro page
  by_cases heq : page = virtualAddress >>> 12
  · subst page
    exact .inr (.inr ⟨virtualAddress, translation, hlt, rfl, hwalk,
      Function.update_self ..⟩)
  · exact .inl (Function.update_of_ne heq ..)

end

/-- The hardware caches the translation of a page, which is freed then. -/
theorem tlbSafe_smallImage :
    ∃ start cached last, (initMemory smallImage).run bootMemory =
        .ok ((), start) ∧
      (steppedRuns smallImage start).Reachable System.unguarded
        ⟨cached, none⟩ ∧
      cached.tlb (virtualMemoryStart >>> 12) ≠ none ∧
      (freePage smallImage virtualMemoryStart).run cached =
        .ok (true, last) ∧
      (steppedRuns smallImage start).Reachable System.unguarded
        ⟨last, none⟩ ∧
      last.tlb (virtualMemoryStart >>> 12) = none ∧
      TlbSafe smallImage last := by
  obtain ⟨start, hstart, _⟩ := run_initMemory smallImage bootMemory
  obtain ⟨after, hrun, hused⟩ := run_allocatePage_start hstart
  have reached := reachable_operation (.initial rfl) hrun
  have resting : Resting smallImage start noPins after :=
    (operating_of_reachable hstart reached).1
  obtain ⟨frame, hmapped, _⟩ := resting.used_page (by decide) hused
  obtain ⟨translation, hwalk⟩ : ∃ translation,
      hardwareWalk smallImage after virtualMemoryStart = some translation := by
    have hwalk := @Paging.poolWalk _ smallImage after
      (Steady.within resting).paging 0 (by decide) virtualMemoryStart
      (by decide) rfl
    rw [show poolLeaf smallImage after 0 = poolDescriptor .virt frame from
      hmapped, if_pos (by rw [← land_type]; exact poolDescriptor_type frame)]
      at hwalk
    exact ⟨_, hwalk⟩
  have hcached : (steppedRuns smallImage start).Reachable System.unguarded
      ⟨after.fill virtualMemoryStart
        (translation.address - virtualMemoryStart % pageSize), none⟩ :=
    reached.step trivial (.cache (caches_of_walk (by decide) hwalk))
  have cached : Resting smallImage start noPins _ :=
    (operating_of_reachable hstart hcached).1
  have hfree := @run_freePage _ smallImage _ cached.sound.of_core 0 (by decide)
  have hstill : (after.fill virtualMemoryStart (translation.address -
      virtualMemoryStart % pageSize)).virtualBitmap.test 0 = true := hused
  rw [hstill, if_pos rfl] at hfree
  have emptied := emptyEffect_filled cached.sound.of_core (by decide) hstill
  have hlast := @reachable_operation _ _ _ _ _ hcached
    (.freePage (pageAddress 0)) (run_bind_ok hfree _)
  have last : Resting smallImage start noPins _ :=
    (operating_of_reachable hstart hlast).1
  refine ⟨start, _, _, hstart, hcached, ?_, hfree, hlast, ?_,
    (tlbSafe_of_reachable hstart hlast).1⟩
  · intro hnone
    exact Option.some_ne_none _ ((MemoryState.tlb_fill ..).symm.trans hnone)
  · -- the entry of a page that is free is not cached
    have hleaf := leaf_of_free emptied.sound (by decide)
      ((emptied.bit 0).trans (if_pos rfl))
    refine Option.eq_none_iff_forall_ne_some.mpr fun address hcache => ?_
    rcases (Steady.cached last) 0 address (by decide) hcache with
      ⟨hne, _⟩ | ⟨_, hwindow, _⟩
    · exact hne hleaf
    · cases hwindow

section

variable {platform : Platform} {image : KernelImage platform}
  {boot start memory : MemoryState} {state : SteppedPool}

theorem nextFrame_of_allocatePageTable {table : Nat} {after : MemoryState}
    (h : (allocatePageTable platform).run memory = .ok (some table, after)) :
    ∃ frame, memory.nextFrame = some frame ∧
      table = platform.frameAddress frame := by
  unfold allocatePageTable at h
  obtain ⟨address, claimed, hallocate, hrest⟩ := run_bind_eq_ok.mp h
  rw [PhysicalMemory.run_allocateFrame] at hallocate
  unfold PhysicalMemory.allocateEffect at hallocate
  cases hnext : memory.nextFrame with
  | none =>
      rw [hnext] at hallocate
      cases hallocate
      rw [if_pos rfl] at hrest
      cases hrest
  | some frame =>
      rw [hnext] at hallocate
      cases hallocate
      refine ⟨frame, rfl, ?_⟩
      split at hrest
      · cases hrest
      · obtain ⟨_, cleared, _, hlast⟩ := run_bind_eq_ok.mp hrest
        cases hlast
        rfl

theorem inRam_of_dereferences {update : MemoryState → MemoryState}
    {next : MemoryState → Vm Unit} {table : Nat}
    (allowed : Allowed (poolEnvironment image noPins) update next)
    (h : Dereferences (.access update next) table) :
    InRam platform table := by
  by_contra hout
  rcases h with ⟨before, hwrites⟩ | ⟨before, entries, hreads⟩
  · exact hwrites ((allowed.writes before).1 table hout)
  · apply hreads
    apply allowed.next
    refine ⟨rfl, rfl, rfl, ?_⟩
    intro other hother
    apply Function.update_of_ne
    rintro rfl
    exact hout hother

end

/-- In every state between two accesses, all page tables are in the memory that
is mapped one-to-one, and so are those that the next access uses. -/
theorem tablesReachable_of_reachable {platform : Platform}
    {image : KernelImage platform} {boot start : MemoryState}
    {state : SteppedPool}
    (hstart : (initMemory image).run boot = .ok ((), start))
    (reachable : (steppedRuns image start).Reachable System.unguarded state) :
    TablesReachable image state := by
  obtain ⟨operating, kept⟩ := operating_of_reachable hstart reachable
  refine ⟨kept.tables, ?_, ?_, kept.identity⟩
  · intro table after h
    obtain ⟨frame, hnext, rfl⟩ := nextFrame_of_allocatePageTable h
    exact kept.frames frame hnext
  · intro program table hpending hused
    unfold SteppedPool.Operating at operating
    rw [hpending] at operating
    cases program with
    | ret value => exact absurd hused id
    | fail fault => exact absurd hused id
    | access update next =>
        have guarded := operating _ (Caches.refl _)
        exact inRam_of_dereferences guarded.2.1 hused

/-- After the initialisation, and in the first access of `free_page`. -/
theorem tablesReachable_smallImage :
    ∃ start state, (initMemory smallImage).run bootMemory = .ok ((), start) ∧
      (steppedRuns smallImage start).Reachable System.unguarded state ∧
      state.pending ≠ none ∧ TablesReachable smallImage state := by
  obtain ⟨start, hstart, _⟩ := run_initMemory smallImage bootMemory
  obtain ⟨after, hrun, _⟩ := run_allocatePage_start hstart
  have reached := (reachable_operation (.initial rfl) hrun).step trivial
    (.begin after (.freePage virtualMemoryStart))
  exact ⟨start, _, hstart, reached, Option.some_ne_none _,
    tablesReachable_of_reachable hstart reached⟩

end Planetoid.Memory
