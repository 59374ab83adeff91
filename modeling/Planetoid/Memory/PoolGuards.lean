import Planetoid.Memory.PoolSteady

namespace Planetoid.Memory

open Planetoid Program Mmu TableTree VirtualMemory

/-! The accesses of the functions of `physical_memory.cpp` and `mmu.cpp`. -/

structure Permitted (platform : Platform)
    (update : MemoryState → MemoryState) : Prop where
  similar : ∀ first second, Similar platform first second →
    Similar platform (update first) (update second)
  core : ∀ first second : MemoryState, second.core = first.core →
    (update second).core = (update first).core
  writes : ∀ state table, ¬ InRam platform table →
    (update state).tables table = state.tables table
  tlb : ∀ state page, (update state).tlb page = state.tlb page ∨
    (update state).tlb page = none

theorem permitted_physical (platform : Platform) (index : Nat)
    (byte : BitVec 8) :
    Permitted platform fun state => { state with
      physicalBitmap := Function.update state.physicalBitmap index byte } where
  similar := by
    intro first second h
    refine ⟨?_, h.frameCount, h.virtualBitmap, h.tables⟩
    simp only [h.physicalBitmap]
  core := by
    intro first second h
    have hsame := congrArg (fun state : MemoryState => { state with
      physicalBitmap := Function.update state.physicalBitmap index byte }) h
    exact hsame
  writes := fun _ _ _ => rfl
  tlb := fun _ _ => .inl rfl

theorem permitted_virtual (platform : Platform) (index : Nat)
    (byte : BitVec 8) :
    Permitted platform fun state => { state with
      virtualBitmap := Function.update state.virtualBitmap index byte } where
  similar := by
    intro first second h
    refine ⟨h.physicalBitmap, h.frameCount, ?_, h.tables⟩
    simp only [h.virtualBitmap]
  core := by
    intro first second h
    have hsame := congrArg (fun state : MemoryState => { state with
      virtualBitmap := Function.update state.virtualBitmap index byte }) h
    exact hsame
  writes := fun _ _ _ => rfl
  tlb := fun _ _ => .inl rfl

theorem permitted_setEntry {platform : Platform} {table : Nat}
    (h : InRam platform table) (index value : Nat) :
    Permitted platform fun state => state.withEntry table index value where
  similar := by
    intro first second hsame
    refine ⟨hsame.physicalBitmap, hsame.frameCount, hsame.virtualBitmap, ?_⟩
    intro other hother
    unfold MemoryState.withEntry
    simp only [Function.update_apply, hsame.tables table h,
      hsame.tables other hother]
  core := by
    intro first second hcore
    have hsame := congrArg (fun state : MemoryState =>
      state.withEntry table index value) hcore
    exact hsame
  writes := by
    intro state other hother
    unfold MemoryState.withEntry
    simp only
    apply Function.update_of_ne
    rintro rfl
    exact hother h
  tlb := fun _ _ => .inl rfl

theorem permitted_flush (platform : Platform) (virtualAddress : Nat) :
    Permitted platform fun state => state.flush virtualAddress where
  similar := fun _ _ h =>
    ⟨h.physicalBitmap, h.frameCount, h.virtualBitmap, h.tables⟩
  core := fun _ _ h => h
  writes := fun _ _ _ => rfl
  tlb := by
    intro state page
    unfold MemoryState.flush
    simp only [Function.update_apply]
    split
    · exact .inr rfl
    · exact .inl rfl

theorem agree_core {image : KernelImage platform} {pins : Pins}
    (state : MemoryState) :
    (poolEnvironment image pins).agree state.core state := rfl

section

variable {platform : Platform} {image : KernelImage platform}
  {contents : Contents} {start state : MemoryState} {held : Option Nat}
  {pins : Pins} {window : Option (Nat × Nat)} {bitmap : Bitmap} {α : Type}
  (hstatic : start.static image = Contents.initial image contents)

include hstatic

theorem guarded_return (within : Within image start pins held window state)
    {post : α → MemoryState → Prop} {value : α}
    (h : ∀ current, Caches image state current → post value current) :
    (pure value : Vm α).Guarded (poolEnvironment image pins) post state :=
  guarded_pure fun current rely =>
    ⟨(within.rely rely).kept hstatic, h current rely⟩

theorem guarded_read (within : Within image start pins held window state)
    {view : MemoryState → α}
    (hview : ∀ first second, Similar platform first second →
      view second = view first) :
    (read view : Vm α).Guarded (poolEnvironment image pins)
      (fun value after => value = view state ∧ Caches image state after)
      state := by
  intro current rely
  have hsame : Similar platform state current := similar_of_core rely.core
  refine ⟨(within.rely rely).kept hstatic, ⟨?_, fun _ _ h => h,
    fun _ _ h => h, fun _ => ⟨fun _ _ => rfl, fun _ => .inl rfl⟩⟩, ?_⟩
  · intro first second h
    rw [hview first second h]
  · intro last hlast
    have hrely := rely.trans hlast
    exact ⟨(within.rely hrely).kept hstatic, hview state current hsame,
      hrely⟩

theorem guarded_write (within : Within image start pins held window state)
    {update : MemoryState → MemoryState} (permitted : Permitted platform update)
    (h : ∀ current, Caches image state current →
      ∃ held window, Within image start pins held window (update current)) :
    (write update : Vm Unit).Guarded (poolEnvironment image pins)
      (fun _ after => ∃ current, Caches image state current ∧
        Caches image (update current) after) state := by
  intro current rely
  refine ⟨(within.rely rely).kept hstatic, ⟨fun _ _ _ => rfl,
    permitted.similar, permitted.core,
    fun before => ⟨permitted.writes before, permitted.tlb before⟩⟩, ?_⟩
  intro last hlast
  obtain ⟨_, _, hwithin⟩ := h current rely
  exact ⟨(hwithin.rely hlast).kept hstatic, current, rely, hlast⟩

theorem guarded_entry (within : Within image start pins held window state)
    {table : Nat} (h : InRam platform table) (index : Nat) :
    (entry table index).Guarded (poolEnvironment image pins)
      (fun value after => value = state.tables table index ∧
        Caches image state after) state := by
  apply guarded_read hstatic within
  intro first second hsame
  rw [hsame.tables table h]

/-! Frames. -/

theorem guarded_setFrame (within : Within image start pins held window state)
    (frame : Nat) (change : BitVec 8 → BitVec 8)
    (h : ∀ current, Caches image state current →
      ∃ held window, Within image start pins held window { current with
        physicalBitmap := Function.update current.physicalBitmap (frame / 8)
          (change (current.physicalBitmap (frame / 8))) }) :
    (do
      let byte ← read (·.physicalBitmap (frame / 8))
      write fun state => { state with
        physicalBitmap := Function.update state.physicalBitmap (frame / 8)
          (change byte) } : Vm Unit).Guarded (poolEnvironment image pins)
      (fun _ after => ∃ current, Caches image state current ∧
        Caches image { current with
          physicalBitmap := Function.update current.physicalBitmap (frame / 8)
            (change (current.physicalBitmap (frame / 8))) } after) state := by
  refine guarded_bind (guarded_read hstatic within
    (fun _ _ same => congrFun same.physicalBitmap _)) ?_
  rintro byte middle ⟨rfl, rely⟩
  have hbyte : ∀ current, Caches image middle current →
      current.physicalBitmap (frame / 8) =
        state.physicalBitmap (frame / 8) := by
    intro current hcurrent
    have hsame : Similar platform state current :=
      similar_of_core (rely.trans hcurrent).core
    exact congrFun hsame.physicalBitmap _
  refine (guarded_write hstatic (within.rely rely)
    (permitted_physical platform (frame / 8)
      (change (state.physicalBitmap (frame / 8)))) ?_).weaken ?_
  · intro current hcurrent
    have hwithin := h current (rely.trans hcurrent)
    rw [hbyte current hcurrent] at hwithin
    exact hwithin
  · rintro _ after ⟨current, hcurrent, hafter⟩
    refine ⟨current, rely.trans hcurrent, ?_⟩
    rw [hbyte current hcurrent]
    exact hafter

theorem guarded_allocateFrame
    (steady : Steady image start pins held bitmap state) :
    (PhysicalMemory.allocateFrame platform).Guarded (poolEnvironment image pins)
      (fun value after => value =
          (PhysicalMemory.allocateEffect platform state.core).1 ∧
        after.core =
          (PhysicalMemory.allocateEffect platform state.core).2 ∧
        Within image start pins held none after) state := by
  have hloop : ∀ count middle, Caches image state middle →
      (forRange (fun frame _ => do
        if ← PhysicalMemory.isFrameUsed frame then
          pure (.inl ())
        else do
          PhysicalMemory.setFrameUsed frame
          pure (.inr (platform.physicalMemoryBase + frame * pageSize)))
        0 count () : Vm (Unit ⊕ Nat)).Guarded (poolEnvironment image pins)
          (fun _ after => Within image start pins held none after) middle := by
    intro count middle rely
    refine @guarded_forRange _ _ _ _ _ _
      (fun _ _ after => Caches image state after) _ _ _ _ ?_ ?_ ?_ _ rely
    · intro frame _ before _ hbefore
      have hwithin := steady.within.rely hbefore
      refine guarded_bind (guarded_read hstatic hwithin
        (fun _ _ same => ?_)) ?_
      · simp only [same.physicalBitmap]
      · rintro used middle ⟨_, hmiddle⟩
        have hrely := hbefore.trans hmiddle
        split
        · exact guarded_return hstatic (steady.within.rely hrely)
            fun current hcurrent => hrely.trans hcurrent
        · have hclaim : ∀ current, Caches image middle current →
              Within image start pins held none (current.claim frame) :=
            fun current hcurrent =>
              (steady.rely (hrely.trans hcurrent)).claim_within frame
          refine guarded_bind (guarded_setFrame hstatic
            (steady.within.rely hrely) frame (· ||| (1#8 <<< (frame % 8)))
            fun current hcurrent => ⟨_, _, hclaim current hcurrent⟩) ?_
          rintro _ after ⟨current, hcurrent, hafter⟩
          have hlast := (hclaim current hcurrent).rely hafter
          exact guarded_return hstatic hlast fun last h => hlast.rely h
    · intro _ before hbefore current hcurrent
      have hwithin := (steady.within.rely hbefore).rely hcurrent
      exact ⟨hwithin.kept hstatic, hwithin⟩
    · intro _ before hbefore current hcurrent
      have hwithin := hbefore.rely hcurrent
      exact ⟨hwithin.kept hstatic, hwithin⟩
  have hweak : (PhysicalMemory.allocateFrame platform).Guarded
      (poolEnvironment image pins)
      (fun _ after => Within image start pins held none after) state := by
    unfold PhysicalMemory.allocateFrame
    refine guarded_bind (guarded_read hstatic steady.within
      (fun _ _ same => same.frameCount)) ?_
    rintro count middle ⟨rfl, rely⟩
    refine guarded_bind (hloop _ middle rely) ?_
    intro result after hafter
    cases result with
    | inl _ =>
        exact guarded_return hstatic hafter fun last h => hafter.rely h
    | inr address =>
        exact guarded_return hstatic hafter fun last h => hafter.rely h
  refine (hweak.ends (agree_core state)
    (PhysicalMemory.run_allocateFrame platform state.core)).weaken ?_
  rintro value after ⟨hwithin, hvalue, hcore⟩
  refine ⟨hvalue, hcore.trans ?_, hwithin⟩
  unfold PhysicalMemory.allocateEffect
  cases state.core.nextFrame <;> rfl

theorem guarded_freeFrame {frame : Nat}
    (steady : Steady image start pins (some frame) bitmap state) :
    (PhysicalMemory.freeFrame platform
      (platform.frameAddress frame)).Guarded (poolEnvironment image pins)
        (fun _ after => Steady image start pins none bitmap after ∧
          after.core = (state.release frame).core) state := by
  have hbase : ¬ platform.frameAddress frame < platform.physicalMemoryBase :=
    Nat.not_lt.mpr (Nat.le_add_right ..)
  have haligned : ¬ platform.frameAddress frame % pageSize ≠ 0 :=
    not_not.mpr (platform.frameAddress_mod frame)
  have hlt : frame < state.frameCount :=
    (steady.sound.held frame rfl).1.bounded
  unfold PhysicalMemory.freeFrame
  rw [if_neg hbase, if_neg haligned]
  refine guarded_bind (guarded_read hstatic steady.within
    (fun _ _ same => same.frameCount)) ?_
  rintro count middle ⟨rfl, rely⟩
  rw [platform.getFrameNumber_frameAddress, if_neg (Nat.not_le.mpr hlt)]
  have hrelease : ∀ current, Caches image middle current →
      Steady image start pins none bitmap (current.release frame) := by
    intro current hcurrent
    have hsteady := steady.rely (rely.trans hcurrent)
    exact hsteady.release rfl hsteady.cached
  refine (guarded_setFrame hstatic (steady.within.rely rely) frame
    (· &&& ~~~(1#8 <<< (frame % 8)))
    fun current hcurrent => ⟨_, _, (hrelease current hcurrent).within⟩).weaken
    ?_
  rintro _ after ⟨current, hcurrent, hafter⟩
  have hcore := congrArg (fun current : MemoryState =>
    current.release frame) (rely.trans hcurrent).core
  exact ⟨(hrelease current hcurrent).rely hafter, hafter.core.trans hcore⟩

/-! Tables. -/

theorem guarded_setEntry (within : Within image start pins held window state)
    {table : Nat} (hin : InRam platform table) (index value : Nat)
    (h : ∀ current, Caches image state current →
      ∃ held window,
        Within image start pins held window
          (current.withEntry table index value)) :
    (setEntry table index value).Guarded (poolEnvironment image pins)
      (fun _ after => ∃ current, Caches image state current ∧
        Caches image (current.withEntry table index value) after) state :=
  guarded_write hstatic within (permitted_setEntry hin index value) h

theorem guarded_allocatePageTable
    (steady : Steady image start pins held bitmap state) :
    (allocatePageTable platform).Guarded (poolEnvironment image pins)
      (fun value after =>
        (match state.core.nextFrame with
          | none => value = none ∧ after.core = state.core
          | some frame => value = some (platform.frameAddress frame) ∧
            after.core = (state.core.claim frame).clearTable
              (platform.frameAddress frame)) ∧
        Near image (state.core.withBitmap bitmap) after.core ∧
        Cached image none after) state := by
  let base := state.core.withBitmap bitmap
  have hsteady : ∀ current, Near image base current.core →
      Cached image none current → Within image start pins held none current :=
    fun current near cached => ⟨⟨base, steady.sound, steady.fixed, near⟩,
      cached, nofun, near.pinned steady.pinned⟩
  have hrely : ∀ current after, Near image base current.core →
      Cached image none current → Caches image current after →
      Near image base after.core ∧ Cached image none after := by
    intro current after near cached rely
    have hwithin := (hsteady current near cached).rely rely
    refine ⟨?_, hwithin.cached⟩
    rw [rely.core]
    exact near
  have hreturn : ∀ (value : Option Nat) current, Near image base current.core →
      Cached image none current →
      (pure value : Vm (Option Nat)).Guarded (poolEnvironment image pins)
        (fun _ after => Near image base after.core ∧
          Cached image none after) current :=
    fun value current near cached =>
      guarded_return hstatic (hsteady current near cached)
        fun after rely => hrely current after near cached rely
  have hweak : (allocatePageTable platform).Guarded (poolEnvironment image pins)
      (fun _ after => Near image base after.core ∧
        Cached image none after) state := by
    unfold allocatePageTable
    refine guarded_bind (guarded_allocateFrame hstatic steady) ?_
    rintro value middle ⟨hvalue, hcore, hwithin⟩
    unfold PhysicalMemory.allocateEffect at hvalue hcore
    cases hnext : state.core.nextFrame with
    | none =>
        rw [hnext] at hvalue hcore
        simp only at hvalue hcore
        rw [if_pos hvalue]
        apply hreturn none middle ?_ hwithin.cached
        rw [hcore]
        exact Near.of_bitmap ..
    | some frame =>
        rw [hnext] at hvalue hcore
        simp only at hvalue hcore
        have hpositive := steady.core_paging.positive frame
          (MemoryState.nextFrame_lt hnext) (MemoryState.nextFrame_free hnext)
        have hlow : InRam platform (platform.frameAddress frame) :=
          frameAddress_inRam_of_low (steady.next_low hnext)
        have hfresh := @Paging.fresh _ _ _ steady.sound.paging frame hnext
        rw [hvalue, if_neg hpositive]
        have hclear := @guarded_forEach _ _ (poolEnvironment image pins) middle
          (fun _ current => Near image base current.core ∧
            Cached image none current)
          (fun i => setEntry (platform.frameAddress frame) i 0) 0 512 (by
            rintro index before hindex ⟨near, cached⟩
            rw [Nat.zero_add]
            have hset : ∀ current, Caches image before current →
                Near image base (current.withEntry
                  (platform.frameAddress frame) index 0).core ∧
                Cached image none (current.withEntry
                  (platform.frameAddress frame) index 0) := by
              intro current rely
              obtain ⟨hnear, hcached⟩ := hrely before current near cached rely
              have hafter := hnear.withEntry hfresh ⟨index, hindex⟩ 0
              exact ⟨hafter,
                hcached.congr rfl (hafter.leafAt.trans hnear.leafAt.symm)⟩
            refine (guarded_setEntry hstatic (hsteady before near cached) hlow
              index 0 fun current rely =>
                ⟨_, _, hsteady _ (hset current rely).1
                  (hset current rely).2⟩).weaken ?_
            rintro _ after ⟨current, rely, hafter⟩
            exact hrely _ after (hset current rely).1 (hset current rely).2
              hafter) (by
            rintro before ⟨near, cached⟩ current rely
            have hafter := hrely before current near cached rely
            exact ⟨(hsteady current hafter.1 hafter.2).kept hstatic,
              hafter⟩) (by
            refine ⟨?_, hwithin.cached⟩
            rw [hcore]
            exact near_claim state.core bitmap frame)
        refine guarded_bind hclear ?_
        rintro _ after ⟨near, cached⟩
        exact hreturn _ after near cached
  refine (hweak.ends (agree_core state)
    (run_allocatePageTable steady.core_paging)).weaken ?_
  rintro value after ⟨hpost, hvalue, hcore⟩
  refine ⟨?_, hpost⟩
  cases hnext : state.core.nextFrame with
  | none =>
      rw [hnext] at hvalue hcore
      exact ⟨hvalue, hcore⟩
  | some frame =>
      rw [hnext] at hvalue hcore
      exact ⟨hvalue, hcore⟩

end

end Planetoid.Memory
