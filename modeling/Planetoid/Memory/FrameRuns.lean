import Mathlib.Algebra.Order.BigOperators.Group.Finset
import Mathlib.Order.Interval.Finset.Nat
import Planetoid.Base.Runs
import Planetoid.Memory.PoolInvariant

namespace Planetoid.Memory

open Planetoid Program PhysicalMemory

/-! Runs of the frame allocator after `PhysicalMemory::init` with any memory
map. -/

section

variable (platform : Platform)

structure Placement where
  map : MemoryMap
  kernelStart : Nat
  kernelEnd : Nat
  few : map.length ≤ 16
  aligned : ∀ region ∈ map,
    region.base % pageSize = 0 ∧ region.size % pageSize = 0
  above : ∀ region ∈ map, platform.physicalMemoryBase ≤ region.base
  /-- The bitmap has a bit for each frame of a region. -/
  reach : ∀ region ∈ map, region.base + region.size ≤
    platform.physicalMemoryBase + 8 * bitmapSize * pageSize
  disjoint : map.Pairwise fun first second =>
    first.base + first.size ≤ second.base ∨
      second.base + second.size ≤ first.base
  nonempty : kernelStart < kernelEnd
  inside : ∀ place, kernelStart ≤ place → place < kernelEnd →
    ∃ region ∈ map, region.base ≤ place ∧ place < region.base + region.size

def UsableFrame (map : MemoryMap) (address : Nat) : Prop :=
  address % pageSize = 0 ∧ ∃ region ∈ map, region.type = .usable ∧
    region.base ≤ address ∧ address + pageSize ≤ region.base + region.size

def OutsideImage (kernelStart kernelEnd address : Nat) : Prop :=
  address + pageSize ≤ kernelStart ∨ kernelEnd ≤ address

inductive FrameEvent where
  | allocate
  | free (address : Nat)

structure FrameRun where
  memory : MemoryState
  held : List Nat

inductive FrameStep : FrameRun → FrameEvent → FrameRun → Prop
  | allocate {before : FrameRun} {memory : MemoryState} {address : Nat}
      (h : (allocateFrame platform).run before.memory =
        .ok (address, memory)) :
      FrameStep before .allocate ⟨memory,
        if address = 0 then before.held else address :: before.held⟩
  | free {before : FrameRun} {memory : MemoryState} {address : Nat}
      (hheld : address ∈ before.held)
      (h : (freeFrame platform address).run before.memory =
        .ok ((), memory)) :
      FrameStep before (.free address) ⟨memory, before.held.erase address⟩

def frameRuns (start : MemoryState) : System FrameRun FrameEvent where
  initial := fun run => run = ⟨start, []⟩
  step := FrameStep platform

/-- The frames that are held are frames of usable regions, each once. -/
structure HoldsFrames (placement : Placement platform) (run : FrameRun) :
    Prop where
  usable : ∀ address ∈ run.held, UsableFrame placement.map address
  outside : ∀ address ∈ run.held,
    OutsideImage placement.kernelStart placement.kernelEnd address
  nodup : run.held.Nodup
  returned : ∀ address after,
    (allocateFrame platform).run run.memory = .ok (address, after) →
    address ≠ 0 → UsableFrame placement.map address ∧
      OutsideImage placement.kernelStart placement.kernelEnd address ∧
      address ∉ run.held

def ExhaustsFrames (run : FrameRun) (frames : Nat → Prop) : Prop :=
  ∀ after, (allocateFrame platform).run run.memory = .ok (0, after) →
    ∀ address, frames address → address ∈ run.held

/-- The frames that `allocate_frame` can find. On the Pi `init` reserves what
lies below the kernel. -/
def FindableFrame (placement : Placement platform) (address : Nat) : Prop :=
  UsableFrame placement.map address ∧
    OutsideImage placement.kernelStart placement.kernelEnd address ∧
    (platform = .pi5 → placement.kernelStart ≤ address) ∧
    getFrameNumber platform address < usableCount placement.map

end

section

variable {platform : Platform} {placement : Placement platform}
  {region : MemoryRegion} {frame address : Nat} {map : MemoryMap}

theorem inRegion_iff (haligned : region.base % pageSize = 0 ∧
      region.size % pageSize = 0)
    (habove : platform.physicalMemoryBase ≤ region.base) :
    InRegion platform region frame ↔ region.type = .usable ∧
      region.base ≤ platform.frameAddress frame ∧
      platform.frameAddress frame + pageSize ≤ region.base + region.size := by
  unfold InRegion regionFirst regionCount getFrameNumber
  apply and_congr_right'
  unfold Platform.frameAddress pageSize at *
  cases platform with
  | virt =>
      unfold Platform.physicalMemoryBase at *
      simp only at *
      omega
  | pi5 =>
      unfold Platform.physicalMemoryBase at *
      simp only at *
      omega

theorem Placement.usableFrame_iff (placement : Placement platform) :
    UsableFrame placement.map (platform.frameAddress frame) ↔
      ∃ region ∈ placement.map, InRegion platform region frame := by
  unfold UsableFrame
  simp only [platform.frameAddress_mod frame, true_and]
  constructor
  · rintro ⟨region, hmem, h⟩
    exact ⟨region, hmem, (inRegion_iff (placement.aligned region hmem)
      (placement.above region hmem)).mpr h⟩
  · rintro ⟨region, hmem, h⟩
    exact ⟨region, hmem, (inRegion_iff (placement.aligned region hmem)
      (placement.above region hmem)).mp h⟩

theorem Placement.base_le (placement : Placement platform) :
    platform.physicalMemoryBase ≤ placement.kernelStart := by
  obtain ⟨region, hmem, hlow, _⟩ :=
    placement.inside placement.kernelStart (Nat.le_refl _) placement.nonempty
  exact Nat.le_trans (placement.above region hmem) hlow

/-- The frames that `init` leaves free. -/
theorem Placement.initiallyUsed_iff (placement : Placement platform) :
    ¬ InitiallyUsed platform placement.map placement.kernelStart
        placement.kernelEnd frame ↔
      UsableFrame placement.map (platform.frameAddress frame) ∧
        OutsideImage placement.kernelStart placement.kernelEnd
          (platform.frameAddress frame) ∧
        (platform = .pi5 →
          placement.kernelStart ≤ platform.frameAddress frame) := by
  rw [placement.usableFrame_iff]
  unfold InitiallyUsed OutsideImage
  constructor
  · intro h
    refine ⟨?_, ?_, ?_⟩
    · by_contra hnone
      exact h (.inl fun region hmem hin => hnone ⟨region, hmem, hin⟩)
    · by_contra hin
      exact h (.inr (.inr ⟨by omega, by omega⟩))
    · intro hpi
      by_contra hlow
      exact h (.inr (.inl ⟨hpi, Nat.lt_of_not_le hlow⟩))
  · rintro ⟨⟨region, hmem, hin⟩, houtside, hlow⟩ (h | h | h)
    · exact h region hmem hin
    · exact Nat.not_le.mpr h.2 (hlow h.1)
    · omega

theorem frames_of_disjoint
    (haligned : ∀ region ∈ map,
      region.base % pageSize = 0 ∧ region.size % pageSize = 0)
    (habove : ∀ region ∈ map, platform.physicalMemoryBase ≤ region.base)
    (disjoint : map.Pairwise fun first second =>
      first.base + first.size ≤ second.base ∨
        second.base + second.size ≤ first.base) :
    ∃ frames : Finset Nat,
      (∀ frame, frame ∈ frames ↔ ∃ region ∈ map,
        InRegion platform region frame) ∧
      frames.card = usableCount map := by
  induction map with
  | nil => exact ⟨∅, by simp, rfl⟩
  | cons first rest ih =>
      rw [List.forall_mem_cons] at haligned habove
      rw [List.pairwise_cons] at disjoint
      obtain ⟨frames, hframes, hcard⟩ :=
        ih haligned.2 habove.2 disjoint.2
      by_cases husable : first.type = .usable
      · have hfirst : ∀ frame, frame ∈ Finset.Ico (regionFirst platform first)
            (regionFirst platform first + regionCount first) ↔
              InRegion platform first frame := by
          intro frame
          rw [Finset.mem_Ico]
          exact (and_iff_right husable).symm
        have hapart : Disjoint (Finset.Ico (regionFirst platform first)
            (regionFirst platform first + regionCount first)) frames := by
          rw [Finset.disjoint_left]
          intro frame hin hother
          obtain ⟨region, hmem, hregion⟩ := (hframes frame).mp hother
          have h := (inRegion_iff haligned.1 habove.1).mp ((hfirst frame).mp hin)
          have h' := (inRegion_iff (haligned.2 region hmem)
            (habove.2 region hmem)).mp hregion
          have hends := disjoint.1 region hmem
          unfold pageSize at h h'
          omega
        refine ⟨Finset.Ico (regionFirst platform first)
          (regionFirst platform first + regionCount first) ∪ frames, ?_, ?_⟩
        · intro frame
          rw [Finset.mem_union, hfirst, hframes]
          simp
        · rw [Finset.card_union_of_disjoint hapart, hcard, Nat.card_Ico,
            usableCount, if_pos husable, Nat.add_sub_cancel_left]
      · refine ⟨frames, ?_, ?_⟩
        · intro frame
          rw [hframes]
          simp [InRegion, husable]
        · rw [usableCount, if_neg husable, Nat.zero_add, hcard]

theorem Placement.usableCount_le (placement : Placement platform) :
    usableCount placement.map ≤ 8 * bitmapSize := by
  obtain ⟨frames, hframes, hcard⟩ :=
    @frames_of_disjoint platform _ placement.aligned placement.above
      placement.disjoint
  rw [← hcard, ← Finset.card_range (8 * bitmapSize)]
  apply Finset.card_le_card
  intro frame hmem
  obtain ⟨region, hregion, hin⟩ := (hframes frame).mp hmem
  have h := (inRegion_iff (placement.aligned region hregion)
    (placement.above region hregion)).mp hin
  have hreach := placement.reach region hregion
  rw [Finset.mem_range]
  unfold Platform.frameAddress pageSize at *
  omega

end

section

variable {platform : Platform} {placement : Placement platform}
  {memory start : MemoryState} {before after run : FrameRun}
  {event : FrameEvent} {frame : Nat}

structure FrameRun.Keeps (placement : Placement platform) (run : FrameRun) :
    Prop where
  count : run.memory.frameCount = usableCount placement.map
  bits : ∀ frame, frame < 8 * bitmapSize →
    (run.memory.used frame = true ↔
      InitiallyUsed platform placement.map placement.kernelStart
        placement.kernelEnd frame ∨ platform.frameAddress frame ∈ run.held)
  held : ∀ address ∈ run.held, ∃ frame, frame < usableCount placement.map ∧
    address = platform.frameAddress frame ∧
    ¬ InitiallyUsed platform placement.map placement.kernelStart
      placement.kernelEnd frame
  nodup : run.held.Nodup

theorem Placement.address_ne_zero (h : ¬ InitiallyUsed platform placement.map
      placement.kernelStart placement.kernelEnd frame) :
    platform.frameAddress frame ≠ 0 := by
  obtain ⟨_, houtside, hlow⟩ := placement.initiallyUsed_iff.mp h
  have hnonempty := placement.nonempty
  intro hzero
  rw [hzero] at houtside hlow
  cases platform with
  | virt =>
      unfold Platform.frameAddress Platform.physicalMemoryBase at hzero
      simp only at hzero
      omega
  | pi5 =>
      have hstart := hlow rfl
      unfold OutsideImage pageSize at houtside
      omega

theorem FrameRun.Keeps.next (keeps : run.Keeps placement)
    (h : run.memory.nextFrame = some frame) :
    frame < usableCount placement.map ∧
      ¬ InitiallyUsed platform placement.map placement.kernelStart
        placement.kernelEnd frame ∧
      platform.frameAddress frame ∉ run.held := by
  have hlt := MemoryState.nextFrame_lt h
  rw [keeps.count] at hlt
  have hfree := MemoryState.nextFrame_free h
  have hbits := keeps.bits frame
    (Nat.lt_of_lt_of_le hlt placement.usableCount_le)
  rw [hfree] at hbits
  simp only [Bool.false_eq_true, false_iff, not_or] at hbits
  exact ⟨hlt, hbits⟩

/-- A frame that is not held is found, or one before it. -/
theorem FrameRun.Keeps.succeeds (keeps : run.Keeps placement)
    (hlt : frame < usableCount placement.map)
    (hinitial : ¬ InitiallyUsed platform placement.map placement.kernelStart
      placement.kernelEnd frame)
    (hheld : platform.frameAddress frame ∉ run.held) :
    ∃ found, run.memory.nextFrame = some found ∧
      (allocateFrame platform).run run.memory =
        .ok (platform.frameAddress found, run.memory.claim found) := by
  rw [run_allocateFrame]
  unfold allocateEffect
  cases hnext : run.memory.nextFrame with
  | some found => exact ⟨found, rfl, rfl⟩
  | none =>
      unfold MemoryState.nextFrame at hnext
      rw [List.find?_eq_none] at hnext
      have hused := hnext frame (by
        rw [keeps.count]
        simpa using hlt)
      simp only [Bool.not_eq_true, Bool.not_eq_false'] at hused
      have hbits := (keeps.bits frame
        (Nat.lt_of_lt_of_le hlt placement.usableCount_le)).mp hused
      exact absurd hbits (not_or.mpr ⟨hinitial, hheld⟩)

theorem FrameRun.Keeps.fails (keeps : run.Keeps placement)
    (h : ∀ frame, frame < usableCount placement.map →
      InitiallyUsed platform placement.map placement.kernelStart
        placement.kernelEnd frame ∨ platform.frameAddress frame ∈ run.held) :
    (allocateFrame platform).run run.memory = .ok (0, run.memory) := by
  rw [run_allocateFrame]
  unfold allocateEffect
  cases hnext : run.memory.nextFrame with
  | none => rfl
  | some frame =>
      obtain ⟨hlt, hinitial, hheld⟩ := keeps.next hnext
      exact absurd (h frame hlt) (not_or.mpr ⟨hinitial, hheld⟩)

theorem FrameStep.keeps (keeps : before.Keeps placement)
    (step : FrameStep platform before event after) :
    after.Keeps placement := by
  cases step with
  | allocate h =>
      rw [run_allocateFrame] at h
      unfold allocateEffect at h
      cases hnext : before.memory.nextFrame with
      | none =>
          rw [hnext] at h
          cases h
          rw [if_pos rfl]
          exact keeps
      | some frame =>
          rw [hnext] at h
          cases h
          obtain ⟨hlt, hinitial, hheld⟩ := keeps.next hnext
          rw [if_neg (Placement.address_ne_zero hinitial)]
          refine ⟨keeps.count, ?_, ?_, List.nodup_cons.mpr
            ⟨hheld, keeps.nodup⟩⟩
          · intro other hother
            rw [MemoryState.used_claim, Bool.or_eq_true, decide_eq_true_eq,
              keeps.bits other hother, List.mem_cons]
            have hsame : other = frame ↔ platform.frameAddress other =
                platform.frameAddress frame :=
              ⟨congrArg _, platform.frameAddress_injective⟩
            rw [hsame]
            exact or_left_comm
          · rw [List.forall_mem_cons]
            exact ⟨⟨frame, hlt, rfl, hinitial⟩, keeps.held⟩
  | free hheld h =>
      obtain ⟨frame, hlt, rfl, hinitial⟩ := keeps.held _ hheld
      rw [run_freeFrame platform (keeps.count ▸ hlt)] at h
      cases h
      refine ⟨keeps.count, ?_, ?_, keeps.nodup.erase _⟩
      · intro other hother
        rw [MemoryState.used_release, Bool.and_eq_true, Bool.not_eq_true',
          decide_eq_false_iff_not, keeps.bits other hother,
          keeps.nodup.mem_erase_iff]
        constructor
        · rintro ⟨hne, h | h⟩
          · exact .inl h
          · refine .inr ⟨?_, h⟩
            intro heq
            exact hne (platform.frameAddress_injective heq)
        · rintro (h | ⟨hne, h⟩)
          · refine ⟨?_, .inl h⟩
            rintro rfl
            exact hinitial h
          · refine ⟨?_, .inr h⟩
            rintro rfl
            exact hne rfl
      · intro address hmem
        exact keeps.held address (List.mem_of_mem_erase hmem)

theorem keeps_of_init
    (hstart : (init platform placement.map placement.kernelStart
      placement.kernelEnd).run memory = .ok ((), start)) :
    FrameRun.Keeps placement ⟨start, []⟩ := by
  obtain ⟨bitmap, hrun, hbits⟩ := run_init platform placement.map
    placement.base_le (Nat.le_of_lt placement.nonempty) memory
  cases hstart.symm.trans hrun
  refine ⟨rfl, ?_, nofun, List.nodup_nil⟩
  intro frame hframe
  rw [or_iff_left List.not_mem_nil]
  exact hbits frame hframe

theorem FrameRun.Keeps.holdsFrames (keeps : run.Keeps placement) :
    HoldsFrames platform placement run := by
  refine ⟨?_, ?_, keeps.nodup, ?_⟩
  · intro address hmem
    obtain ⟨frame, _, rfl, hinitial⟩ := keeps.held address hmem
    exact (placement.initiallyUsed_iff.mp hinitial).1
  · intro address hmem
    obtain ⟨frame, _, rfl, hinitial⟩ := keeps.held address hmem
    exact (placement.initiallyUsed_iff.mp hinitial).2.1
  · intro address after h hne
    rw [run_allocateFrame] at h
    unfold allocateEffect at h
    cases hnext : run.memory.nextFrame with
    | none =>
        rw [hnext] at h
        cases h
        exact absurd rfl hne
    | some frame =>
        rw [hnext] at h
        cases h
        obtain ⟨_, hinitial, hheld⟩ := keeps.next hnext
        obtain ⟨husable, houtside, _⟩ :=
          placement.initiallyUsed_iff.mp hinitial
        exact ⟨husable, houtside, hheld⟩

theorem FrameRun.Keeps.exhaustsFrames (keeps : run.Keeps placement) :
    ExhaustsFrames platform run (FindableFrame platform placement) := by
  rintro after h address ⟨husable, houtside, hlow, hnumber⟩
  have haddress : address =
      platform.frameAddress (getFrameNumber platform address) := by
    obtain ⟨haligned, region, hmem, _, hregion, _⟩ := husable
    have habove := placement.above region hmem
    unfold Platform.frameAddress getFrameNumber pageSize at *
    cases platform with
    | virt =>
        unfold Platform.physicalMemoryBase at *
        simp only at *
        omega
    | pi5 =>
        unfold Platform.physicalMemoryBase at *
        simp only at *
        omega
  generalize getFrameNumber platform address = frame at haddress hnumber
  subst haddress
  have hinitial := placement.initiallyUsed_iff.mpr ⟨husable, houtside, hlow⟩
  by_contra hheld
  obtain ⟨found, hnext, hrun⟩ := keeps.succeeds hnumber hinitial hheld
  rw [hrun] at h
  injection h with h
  exact absurd (congrArg Prod.fst h)
    (Placement.address_ne_zero (keeps.next hnext).2.1)

theorem keepsFrames_of_reachable
    (hstart : (init platform placement.map placement.kernelStart
      placement.kernelEnd).run memory = .ok ((), start))
    (reachable : (frameRuns platform start).Reachable System.unguarded run) :
    run.Keeps placement := by
  apply reachable.holds
  · rintro _ rfl
    exact keeps_of_init hstart
  · intro before event after hbefore _ step
    exact FrameStep.keeps hbefore step

end

/-! A kernel of one page, with usable pages before and behind it. -/

def smallPlacement : Placement .pi5 where
  map := [⟨0, 0x3000, .usable⟩]
  kernelStart := 0x1000
  kernelEnd := 0x2000
  few := by decide
  aligned := by decide
  above := by decide
  reach := by decide
  disjoint := List.pairwise_singleton ..
  nonempty := by decide
  inside := by
    intro place _ hhigh
    refine ⟨_, List.mem_singleton_self _, Nat.zero_le _, ?_⟩
    simp only
    omega

theorem initiallyUsed_small {frame : Nat} :
    ¬ InitiallyUsed .pi5 smallPlacement.map smallPlacement.kernelStart
        smallPlacement.kernelEnd frame ↔ frame = 2 := by
  rw [smallPlacement.initiallyUsed_iff]
  constructor
  · rintro ⟨⟨_, region, hmem, _, _, husable⟩, houtside, hlow⟩
    obtain rfl := List.mem_singleton.mp hmem
    replace hlow := hlow rfl
    unfold OutsideImage at houtside
    unfold smallPlacement at houtside hlow
    unfold Platform.frameAddress Platform.physicalMemoryBase pageSize at *
    simp only at *
    omega
  · rintro rfl
    exact ⟨⟨rfl, _, List.mem_singleton_self _, rfl, by decide, by decide⟩,
      .inr (by decide), fun _ => by decide⟩

theorem reached_small :
    ∃ start memory, (init .pi5 smallPlacement.map smallPlacement.kernelStart
        smallPlacement.kernelEnd).run bootMemory = .ok ((), start) ∧
      (frameRuns .pi5 start).Reachable System.unguarded
        ⟨memory, [0x2000]⟩ := by
  obtain ⟨bitmap, hstart, _⟩ := run_init .pi5 smallPlacement.map
    smallPlacement.base_le (Nat.le_of_lt smallPlacement.nonempty) bootMemory
  have keeps := keepsFrames_of_reachable hstart (.initial rfl)
  obtain ⟨found, hnext, hrun⟩ := keeps.succeeds (by decide : 2 < 3)
    (initiallyUsed_small.mpr rfl) List.not_mem_nil
  obtain rfl := initiallyUsed_small.mp (keeps.next hnext).2.1
  exact ⟨_, _, hstart, .step (.initial rfl) trivial (.allocate hrun)⟩

/-- In every run with any memory map, the frames that are held are usable, and
`allocate_frame` fails only when it can find no frame. -/
theorem framesHeld_of_reachable {platform : Platform}
    {placement : Placement platform} {memory start : MemoryState}
    {run : FrameRun}
    (hstart : (init platform placement.map placement.kernelStart
      placement.kernelEnd).run memory = .ok ((), start))
    (reachable : (frameRuns platform start).Reachable System.unguarded run) :
    HoldsFrames platform placement run ∧
      ExhaustsFrames platform run (FindableFrame platform placement) := by
  have keeps := keepsFrames_of_reachable hstart reachable
  exact ⟨keeps.holdsFrames, keeps.exhaustsFrames⟩

/-- The page behind the kernel is taken. -/
theorem framesHeld_small :
    ∃ start memory, (init .pi5 smallPlacement.map smallPlacement.kernelStart
        smallPlacement.kernelEnd).run bootMemory = .ok ((), start) ∧
      (frameRuns .pi5 start).Reachable System.unguarded
        ⟨memory, [0x2000]⟩ ∧
      HoldsFrames .pi5 smallPlacement ⟨memory, [0x2000]⟩ ∧
      ExhaustsFrames .pi5 ⟨memory, [0x2000]⟩
        (FindableFrame .pi5 smallPlacement) := by
  obtain ⟨start, memory, hstart, reached⟩ := reached_small
  exact ⟨start, memory, hstart, reached,
    framesHeld_of_reachable hstart reached⟩

/-- The page before the kernel is never taken. -/
theorem exhaustsFrames_fails_below_kernel :
    ∃ start run, (init .pi5 smallPlacement.map smallPlacement.kernelStart
        smallPlacement.kernelEnd).run bootMemory = .ok ((), start) ∧
      (frameRuns .pi5 start).Reachable System.unguarded run ∧
      ¬ ExhaustsFrames .pi5 run fun address =>
        UsableFrame smallPlacement.map address ∧
          OutsideImage smallPlacement.kernelStart smallPlacement.kernelEnd
            address := by
  obtain ⟨start, memory, hstart, reached⟩ := reached_small
  refine ⟨start, _, hstart, reached, ?_⟩
  intro exhausts
  have keeps := keepsFrames_of_reachable hstart reached
  have hfails := keeps.fails (by
    intro frame _
    by_cases h : frame = 2
    · subst h
      exact .inr (List.mem_singleton_self _)
    · exact .inl (not_not.mp fun hfree => h (initiallyUsed_small.mp hfree)))
  have hheld := exhausts _ hfails 0 ⟨⟨rfl, _, List.mem_singleton_self _, rfl,
    by decide, by decide⟩, .inl (by decide)⟩
  exact absurd (List.mem_singleton.mp hheld) (by decide)

def holedPlacement : Placement .virt where
  map := [⟨0x40000000, 0x1000, .reserved⟩, ⟨0x40001000, 0x2000, .usable⟩]
  kernelStart := 0x40001000
  kernelEnd := 0x40002000
  few := by decide
  aligned := by decide
  above := by decide
  reach := by decide
  disjoint := by decide
  nonempty := by decide
  inside := by
    intro place hlow hhigh
    refine ⟨_, List.mem_cons_of_mem _ (List.mem_singleton_self _), hlow, ?_⟩
    simp only
    omega

/-- `frame_count` is the number of the usable frames: the last one of them has
a number that is not below it when there is a hole before it. -/
theorem exhaustsFrames_fails_behind_hole :
    ∃ start, (init .virt holedPlacement.map holedPlacement.kernelStart
        holedPlacement.kernelEnd).run bootMemory = .ok ((), start) ∧
      ¬ ExhaustsFrames .virt ⟨start, []⟩ fun address =>
        UsableFrame holedPlacement.map address ∧
          OutsideImage holedPlacement.kernelStart holedPlacement.kernelEnd
            address := by
  obtain ⟨bitmap, hstart, _⟩ := run_init .virt holedPlacement.map
    holedPlacement.base_le (Nat.le_of_lt holedPlacement.nonempty) bootMemory
  refine ⟨_, hstart, ?_⟩
  intro exhausts
  have keeps := keepsFrames_of_reachable hstart (.initial rfl)
  have hused : ∀ frame, frame < 2 → InitiallyUsed .virt holedPlacement.map
      holedPlacement.kernelStart holedPlacement.kernelEnd frame := by
    intro frame hframe
    by_contra hfree
    obtain ⟨⟨_, region, hmem, htype, hlow, _⟩, houtside, _⟩ :=
      holedPlacement.initiallyUsed_iff.mp hfree
    unfold OutsideImage at houtside
    unfold holedPlacement at hmem houtside
    rcases List.mem_pair.mp hmem with rfl | rfl
    · cases htype
    · unfold Platform.frameAddress Platform.physicalMemoryBase pageSize at *
      simp only at *
      omega
  have hfails := keeps.fails fun frame hframe => .inl (hused frame hframe)
  have hheld := exhausts _ hfails 0x40002000 ⟨⟨rfl, _,
    List.mem_cons_of_mem _ (List.mem_singleton_self _), rfl, by decide,
    by decide⟩, .inr (by decide)⟩
  exact absurd hheld List.not_mem_nil

end Planetoid.Memory
