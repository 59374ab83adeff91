import Planetoid.Base.Interference
import Planetoid.Memory.IdentityMap
import Planetoid.Memory.PoolInvariant

namespace Planetoid.Memory

open Planetoid Program Mmu TableTree VirtualMemory Arch

/-! The accesses of the operations on the pool, between which the hardware
caches translations. -/

namespace MemoryState

def core (state : MemoryState) : MemoryState :=
  { state with tlb := fun _ => none }

def withBitmap (state : MemoryState) (bitmap : Bitmap) : MemoryState :=
  { state with virtualBitmap := bitmap }

end MemoryState

abbrev Pins := Nat → Nat → Prop

def noPins : Pins := fun _ _ => False

/-- States that differ in the TLB and in tables outside of the memory that is
mapped one-to-one. -/
structure Similar (platform : Platform) (first second : MemoryState) :
    Prop where
  physicalBitmap : second.physicalBitmap = first.physicalBitmap
  frameCount : second.frameCount = first.frameCount
  virtualBitmap : second.virtualBitmap = first.virtualBitmap
  tables : ∀ table, InRam platform table →
    second.tables table = first.tables table

section

variable {platform : Platform} (image : KernelImage platform)

/-- The TLB drops entries, and it caches what the walk of the tables gives. -/
structure Caches (before after : MemoryState) : Prop where
  core : after.core = before.core
  tlb : ∀ page, after.tlb page = before.tlb page ∨ after.tlb page = none ∨
    ∃ virtualAddress translation, virtualAddress < 2 ^ 39 ∧
      virtualAddress >>> 12 = page ∧
      hardwareWalk image before virtualAddress = some translation ∧
      after.tlb page = some (translation.address - virtualAddress % pageSize)

def cachedAt (state : MemoryState) (page : Nat) : Option Nat :=
  state.tlb (pageAddress page >>> 12)

/-- What is cached for the pool pages is in the tables, except that the entry
of a page that was just unmapped from a frame may be left. -/
def Cached (window : Option (Nat × Nat)) (state : MemoryState) : Prop :=
  ∀ page address, page < virtualPageCount →
    cachedAt state page = some address →
    (poolLeaf image state page ≠ 0 ∧
      poolLeaf image state page &&& addressMask = address) ∨
    ∃ frame, window = some (page, frame) ∧ poolLeaf image state page = 0 ∧
      address = platform.frameAddress frame

/-- A frame that backs no pool page and is no page table. -/
def Detached (state : MemoryState) (frame : Nat) : Prop :=
  (∀ page, page < virtualPageCount → ¬ MapsTo image state page frame) ∧
    ¬ TableFrame image state frame

def Pinned (pins : Pins) (state : MemoryState) : Prop :=
  ∀ page entry, pins page entry → page < virtualPageCount ∧ entry ≠ 0 ∧
    poolLeaf image state page = entry

structure Kept (pins : Pins) (state : MemoryState) : Prop where
  /-- A cached translation leads to a frame in use: the one that backs the page,
  or the one that backed it until now. -/
  cached : ∀ page address, page < virtualPageCount →
    cachedAt state page = some address →
    ∃ frame, frame < state.frameCount ∧
      address = platform.frameAddress frame ∧ state.used frame = true ∧
      (MapsTo image state page frame ∨
        poolLeaf image state page = 0 ∧ Detached image state frame)
  /-- The linked tables are in the memory that is mapped one-to-one. -/
  tables : ∀ node address, tableAt image state node = some address →
    InRam platform address
  /-- So is the next frame to be allocated, which can be written there. -/
  frames : ∀ frame, state.nextFrame = some frame →
    InRam platform (platform.frameAddress frame) ∧
    ∃ translation,
      hardwareWalk image state (platform.frameAddress frame) =
        some translation ∧
      translation.address = platform.frameAddress frame ∧
      readOnly translation.entry = false
  identity : ∀ address, InRam platform address →
    ∃ translation, hardwareWalk image state address = some translation ∧
      translation.address = address
  pinned : Pinned image pins state

end

section

variable {platform : Platform} {image : KernelImage platform}
  {contents : Contents} {start before state after : MemoryState}
  {held : Option Nat} {window : Option (Nat × Nat)} {pins : Pins}

theorem Caches.refl (state : MemoryState) : Caches image state state :=
  ⟨rfl, fun _ => .inl rfl⟩

theorem tables_of_core (h : after.core = state.core) :
    after.tables = state.tables := by
  have htables := congrArg MemoryState.tables h
  exact htables

theorem hardwareWalk_of_core (h : after.core = state.core) :
    hardwareWalk image after = hardwareWalk image state := by
  funext virtualAddress
  unfold hardwareWalk
  rw [tables_of_core h]

theorem poolLeaf_of_core (h : after.core = state.core) (page : Nat) :
    poolLeaf image after page = poolLeaf image state page := by
  have hleaf := congrArg (fun current => poolLeaf image current page) h
  exact hleaf

theorem Pinned.congr (pinned : Pinned image pins state)
    (hleaf : leafAt image after = leafAt image state) :
    Pinned image pins after := by
  intro page entry hpin
  obtain ⟨hpage, hne, hentry⟩ := pinned page entry hpin
  refine ⟨hpage, hne, ?_⟩
  rw [← hentry]
  exact congrFun (congrFun (congrFun hleaf _) _) _

theorem Pinned.of_core (pinned : Pinned image pins state)
    (h : after.core = state.core) : Pinned image pins after := by
  have hleaf := congrArg (leafAt image) h
  exact pinned.congr hleaf

theorem Pinned.not_pins (pinned : Pinned image pins state) {page : Nat}
    (hfree : poolLeaf image state page = 0) (entry : Nat) :
    ¬ pins page entry := by
  intro hpin
  obtain ⟨_, hne, hentry⟩ := pinned page entry hpin
  exact hne (hentry.symm.trans hfree)

theorem Pinned.sets (pinned : Pinned image pins state) {page value : Nat}
    (hleaf : ∀ other, other < virtualPageCount →
      poolLeaf image after other =
        if other = page then value else poolLeaf image state other)
    (hout : ∀ entry, ¬ pins page entry) : Pinned image pins after := by
  intro other entry hpin
  obtain ⟨hother, hne, hentry⟩ := pinned other entry hpin
  refine ⟨hother, hne, ?_⟩
  rw [hleaf other hother, if_neg, hentry]
  rintro rfl
  exact hout entry hpin

theorem Caches.trans {first second third : MemoryState}
    (left : Caches image first second) (right : Caches image second third) :
    Caches image first third := by
  refine ⟨right.core.trans left.core, ?_⟩
  intro page
  rcases right.tlb page with hsame | hnone |
    ⟨virtualAddress, translation, hlt, hpage, hwalk, hcached⟩
  · rw [hsame]
    exact left.tlb page
  · exact .inr (.inl hnone)
  · rw [hardwareWalk_of_core left.core] at hwalk
    exact .inr (.inr ⟨virtualAddress, translation, hlt, hpage, hwalk,
      hcached⟩)

theorem similar_of_core (h : after.core = state.core) :
    Similar platform state after := by
  have hphysical := congrArg MemoryState.physicalBitmap h
  have hcount := congrArg MemoryState.frameCount h
  have hvirtual := congrArg MemoryState.virtualBitmap h
  exact ⟨hphysical, hcount, hvirtual,
    fun table _ => congrFun (tables_of_core h) table⟩

/-- The hardware that caches translations, and the accesses of programs that
use tables in the memory that is mapped one-to-one. -/
def poolEnvironment (image : KernelImage platform) (pins : Pins) :
    Interference MemoryState where
  rely := Caches image
  agree := fun first second => second.core = first.core
  similar := Similar platform
  writes := fun before after =>
    (∀ table, ¬ InRam platform table →
      after.tables table = before.tables table) ∧
    ∀ page, after.tlb page = before.tlb page ∨ after.tlb page = none
  invariant := Kept image pins
  rely_refl := Caches.refl
  rely_trans := Caches.trans
  agree_equivalence := ⟨fun _ => rfl, Eq.symm, fun left right =>
    right.trans left⟩
  agree_of_rely := Caches.core
  similar_of_agree := similar_of_core

theorem Paging.poolBlock (paging : Paging image state) (j : Fin 512) :
    blockAt image state poolIndex j % 4 ≠ 1 := by
  unfold blockAt
  cases htable : tableAt image state (.second poolIndex) with
  | none => exact (by decide : (0 : Nat) % 4 ≠ 1)
  | some table =>
      intro hblock
      simp only at hblock
      have hne : state.entries table j ≠ 0 := by
        intro hzero
        rw [hzero] at hblock
        cases hblock
      obtain ⟨below, hbelow⟩ := paging.level2 table htable j hne
      rw [tableAt_third htable, child_eq, if_neg (by omega)] at hbelow
      cases hbelow

theorem Paging.poolWalk (paging : Paging image state) {page : Nat}
    (hpage : page < virtualPageCount) {virtualAddress : Nat}
    (hlt : virtualAddress < 2 ^ 39)
    (hsame : virtualAddress >>> 12 = pageAddress page >>> 12) :
    hardwareWalk image state virtualAddress =
      if poolLeaf image state page % 4 = 3 then
        some ⟨outputAddress (poolLeaf image state page) 12 +
          virtualAddress % pageSize, poolLeaf image state page, 3⟩
      else none := by
  have hpath : level1Of virtualAddress = level1Of (pageAddress page) ∧
      level2Of virtualAddress = level2Of (pageAddress page) ∧
      level3Of virtualAddress = level3Of (pageAddress page) := by
    apply path_eq_of_page
    rw [Nat.shiftRight_eq_div_pow, Nat.shiftRight_eq_div_pow] at hsame
    exact hsame
  have hpool : level1Of (pageAddress page) = poolIndex :=
    Fin.ext (level1Of_pageAddress hpage)
  rw [hardwareWalk_eq paging hlt, hpath.1, hpath.2.1, hpath.2.2,
    if_neg (by rw [hpool]; exact paging.poolBlock _)]
  rfl

theorem Cached.rely (cached : Cached image window state)
    (paging : Paging image state) (rely : Caches image state after) :
    Cached image window after := by
  intro page address hpage h
  rw [poolLeaf_of_core rely.core]
  rcases rely.tlb (pageAddress page >>> 12) with hsame | hnone |
    ⟨virtualAddress, translation, hlt, hkey, hwalk, hcached⟩
  · exact cached page address hpage (hsame.symm.trans h)
  · cases hnone.symm.trans h
  · left
    rw [paging.poolWalk hpage hlt hkey] at hwalk
    split at hwalk
    · rename_i htype
      obtain rfl := Option.some.inj hwalk
      have heq := Option.some.inj (hcached.symm.trans h)
      simp only [Nat.add_sub_cancel] at heq
      refine ⟨?_, ?_⟩
      · intro hzero
        rw [hzero] at htype
        cases htype
      · rw [land_addressMask_eq]
        exact heq
    · cases hwalk

/-- A state in the middle of an operation. While `window` is a page and the
frame that it had, the TLB may have an entry that the tables no longer have. -/
structure Within (image : KernelImage platform) (start : MemoryState)
    (pins : Pins) (held : Option Nat) (window : Option (Nat × Nat))
    (state : MemoryState) : Prop where
  base : ∃ sound, Sound image sound held ∧ Fixed image start sound ∧
    Near image sound state.core
  cached : Cached image window state
  window : ∀ page frame, window = some (page, frame) → held = some frame
  pinned : Pinned image pins state

theorem Within.paging (within : Within image start pins held window state) :
    Paging image state := by
  obtain ⟨base, sound, _, near⟩ := within.base
  have paging := near.toSameTables.paging sound.paging
  exact ⟨paging.tree, paging.tables, paging.level1, paging.level2,
    paging.positive, paging.bounded⟩

theorem Within.rely (within : Within image start pins held window state)
    (rely : Caches image state after) :
    Within image start pins held window after := by
  refine ⟨?_, within.cached.rely within.paging rely, within.window,
    within.pinned.of_core rely.core⟩
  rw [rely.core]
  exact within.base

theorem InRam.lt {address : Nat} (h : InRam platform address) :
    address < 2 ^ 39 := by
  obtain ⟨_, hhigh⟩ := h
  cases platform with
  | virt =>
      unfold Platform.physicalMemoryBase at hhigh
      simp only at hhigh
      omega
  | pi5 =>
      unfold Platform.physicalMemoryBase at hhigh
      simp only at hhigh
      omega

theorem Near.walk {base : MemoryState} (near : Near image base state.core)
    (paging : Paging image base) {address : Nat} (h : address < 2 ^ 39) :
    hardwareWalk image state address = hardwareWalk image base address := by
  have after := near.toSameTables.paging paging
  have hleaves : ∀ i j k, Memory.leafAt image state.core i j k =
      Memory.leafAt image base i j k :=
    fun i j k => congrFun (congrFun (congrFun near.leafAt i) j) k
  change hardwareWalk image state.core address = _
  rw [hardwareWalk_eq after h, hardwareWalk_eq paging h,
    near.toSameTables.blockAt, hleaves]

theorem Within.kept (within : Within image start pins held window state)
    (hstatic : start.static image = Contents.initial image contents) :
    Kept image pins state := by
  obtain ⟨base, sound, fixed, near⟩ := within.base
  have hleaf : ∀ page, poolLeaf image state page = poolLeaf image base page :=
    fun page => congrFun (congrFun (congrFun near.leafAt _) _) _
  have hunused : ∀ frame, state.used frame = false →
      base.used frame = false := by
    intro frame hfree
    cases hused : base.used frame with
    | false => rfl
    | true =>
        have hbefore : state.used frame = true := near.used frame hused
        rw [hbefore] at hfree
        cases hfree
  have hcount : state.frameCount = base.frameCount := near.frameCount
  refine ⟨?_, ?_, ?_, ?_, within.pinned⟩
  · intro page address hpage h
    rcases within.cached page address hpage h with ⟨hne, haddress⟩ |
      ⟨frame, hwindow, hzero, haddress⟩
    · rw [hleaf] at hne
      obtain ⟨frame, hmapped, loose⟩ := sound.entries page hpage hne
      have htarget : address = platform.frameAddress frame := by
        rw [← haddress, hleaf, show poolLeaf image base page =
          poolDescriptor platform frame from hmapped,
          poolDescriptor_address sound.paging loose.bounded]
      refine ⟨frame, ?_, htarget,
        near.used frame (sound.mapped_used hpage loose.bounded hmapped),
        .inl ⟨?_, ?_⟩⟩
      · rw [hcount]
        exact loose.bounded
      · rw [hleaf]
        exact hne
      · rw [haddress, htarget]
    · have hheld := within.window page frame hwindow
      obtain ⟨loose, hunmapped⟩ := sound.held frame hheld
      have hused := (sound.used_iff frame loose.bounded).mpr (.held hheld)
      refine ⟨frame, ?_, haddress, near.used frame hused,
        .inr ⟨hzero, ?_, ?_⟩⟩
      · rw [hcount]
        exact loose.bounded
      · rintro other hother ⟨hne, hmaps⟩
        rw [hleaf] at hne hmaps
        obtain ⟨target, hmapped, targetLoose⟩ :=
          sound.entries other hother hne
        have hsame : platform.frameAddress target =
            platform.frameAddress frame := by
          rw [← hmaps, show poolLeaf image base other =
            poolDescriptor platform target from hmapped,
            poolDescriptor_address sound.paging targetLoose.bounded]
        rw [platform.frameAddress_injective hsame] at hmapped
        exact hunmapped other hother hmapped
      · rintro ⟨node, hnode⟩
        exact loose.noTable node ((near.tableAt node).symm.trans hnode)
  · intro node address htable
    have hbase := (near.tableAt node).symm.trans htable
    obtain ⟨frame, hlt, rfl, hused⟩ := sound.paging.tables node address hbase
    exact frameAddress_inRam_of_low (fixed.low frame hlt hused)
  · intro frame hnext
    have hlow := nextFrame_low sound fixed near hnext
    refine ⟨frameAddress_inRam_of_low hlow, ?_⟩
    have hfree := hunused frame (MemoryState.nextFrame_free hnext)
    have hlt := MemoryState.nextFrame_lt hnext
    rw [hcount] at hlt
    have hreserved : ¬ Reserved image frame := by
      intro h
      rw [(sound.used_iff frame hlt).mpr (.reserved h)] at hfree
      cases hfree
    obtain ⟨translation, hwalk, haddress, hread, _⟩ := fixed.frameWalk
      sound.paging hstatic (Nat.lt_trans hlow (by decide)) hreserved
    refine ⟨translation, ?_, haddress, hread⟩
    rw [← hwalk]
    exact near.walk sound.paging (frameAddress_inRam_of_low hlow).lt
  · intro address hram
    obtain ⟨translation, hwalk, haddress, _⟩ :=
      fixed.identityWalk sound.paging hstatic hram
    refine ⟨translation, ?_, haddress⟩
    rw [← hwalk]
    exact near.walk sound.paging hram.lt

end

end Planetoid.Memory
