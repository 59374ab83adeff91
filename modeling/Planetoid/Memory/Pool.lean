import Planetoid.Memory.Mapping

namespace Planetoid.Memory

open Planetoid Program Mmu TableTree VirtualMemory

/-! The pages of the virtual pool and who owns each frame. -/

def pageAddress (page : Nat) : Nat := virtualMemoryStart + page * pageSize

theorem level1Of_pageAddress {page : Nat} (h : page < virtualPageCount) :
    (level1Of (pageAddress page)).val = 2 := by
  rw [virtualPageCount_eq] at h
  change getLevel1Index _ = _
  rw [getLevel1Index_eq, pageAddress, virtualMemoryStart, pageSize]
  omega

theorem level2Of_pageAddress {page : Nat} (h : page < virtualPageCount) :
    (level2Of (pageAddress page)).val = page / 512 := by
  rw [virtualPageCount_eq] at h
  change getLevel2Index _ = _
  rw [getLevel2Index_eq, pageAddress, virtualMemoryStart, pageSize]
  omega

theorem level3Of_pageAddress (page : Nat) :
    (level3Of (pageAddress page)).val = page % 512 := by
  change getLevel3Index _ = _
  rw [getLevel3Index_eq, pageAddress, virtualMemoryStart, pageSize]
  omega

theorem pageAddress_mod (page : Nat) : pageAddress page % pageSize = 0 := by
  unfold pageAddress virtualMemoryStart pageSize
  omega

theorem page_eq_of_indices {page other : Nat} (hpage : page < virtualPageCount)
    (hother : other < virtualPageCount)
    (h : level1Of (pageAddress other) = level1Of (pageAddress page) ∧
      level2Of (pageAddress other) = level2Of (pageAddress page) ∧
      level3Of (pageAddress other) = level3Of (pageAddress page)) :
    other = page := by
  have hsecond := congrArg Fin.val h.2.1
  have hthird := congrArg Fin.val h.2.2
  rw [level2Of_pageAddress hpage, level2Of_pageAddress hother] at hsecond
  rw [level3Of_pageAddress, level3Of_pageAddress] at hthird
  omega

section

variable {platform : Platform} (image : KernelImage platform)

def Reserved (frame : Nat) : Prop :=
  (image.kernelStart ≤ platform.frameAddress frame ∧
    platform.frameAddress frame < image.kernelEnd) ∨
  (platform = .pi5 ∧ platform.frameAddress frame < image.kernelStart)

def poolLeaf (state : MemoryState) (page : Nat) : Nat :=
  leafAt image state (level1Of (pageAddress page))
    (level2Of (pageAddress page)) (level3Of (pageAddress page))

def poolDescriptor (platform : Platform) (frame : Nat) : Nat :=
  makePageDescriptor .normal (platform.frameAddress frame) poolPermissions

def Mapped (state : MemoryState) (page frame : Nat) : Prop :=
  poolLeaf image state page = poolDescriptor platform frame

/-- Who uses a frame: the reserved frames, the pool pages, the page tables, and
a caller of `allocate_frame` that has not mapped or freed it yet. -/
inductive Owned (state : MemoryState) (held : Option Nat) (frame : Nat) : Prop
  | reserved (h : Reserved image frame)
  | mapped {page : Nat} (hpage : page < virtualPageCount)
      (h : Mapped image state page frame)
  | table {node : Node (Fin 512)}
      (h : tableAt image state node = some (platform.frameAddress frame))
  | held (h : held = some frame)

structure Loose (state : MemoryState) (frame : Nat) : Prop where
  bounded : frame < state.frameCount
  unreserved : ¬ Reserved image frame
  noTable : ∀ node, tableAt image state node ≠
    some (platform.frameAddress frame)

structure Sound (state : MemoryState) (held : Option Nat) : Prop where
  paging : Paging image state
  bits : ∀ page, page < virtualPageCount →
    (state.virtualBitmap.test page = true ↔ poolLeaf image state page ≠ 0)
  entries : ∀ page, page < virtualPageCount → poolLeaf image state page ≠ 0 →
    ∃ frame, Mapped image state page frame ∧ Loose image state frame
  unique : ∀ page other frame, page < virtualPageCount →
    other < virtualPageCount → Mapped image state page frame →
    Mapped image state other frame → page = other
  used_iff : ∀ frame, frame < state.frameCount →
    (state.used frame = true ↔ Owned image state held frame)
  held : ∀ frame, held = some frame → Loose image state frame ∧
    ∀ page, page < virtualPageCount → ¬ Mapped image state page frame

theorem frameAddress_ne_zero {frame : Nat} (h : ¬ Reserved image frame) :
    platform.frameAddress frame ≠ 0 := by
  intro hzero
  apply h
  cases platform with
  | virt =>
      unfold Platform.frameAddress Platform.physicalMemoryBase at hzero
      simp at hzero
  | pi5 =>
      refine .inr ⟨rfl, ?_⟩
      rw [hzero]
      have hwindow := image.inWindow.1
      unfold Platform.kernelBase at hwindow
      unfold KernelImage.kernelStart
      simp only at hwindow
      omega

end

section

variable {platform : Platform} {image : KernelImage platform}
  {state : MemoryState}

theorem poolDescriptor_address (paging : Paging image state) {frame : Nat}
    (h : frame < state.frameCount) :
    poolDescriptor platform frame &&& addressMask =
      platform.frameAddress frame :=
  makeNormalPageDescriptor_address (by decide)
    (frameAddress_addressable paging.bounded h)

theorem poolDescriptor_injective (paging : Paging image state)
    {first second : Nat} (hfirst : first < state.frameCount)
    (hsecond : second < state.frameCount)
    (h : poolDescriptor platform first = poolDescriptor platform second) :
    first = second := by
  apply platform.frameAddress_injective
  rw [← poolDescriptor_address paging hfirst, h,
    poolDescriptor_address paging hsecond]

theorem poolDescriptor_type (frame : Nat) :
    poolDescriptor platform frame &&& 0b11 = pageDescriptor :=
  makeNormalPageDescriptor_type (by decide) _

theorem poolDescriptor_ne_zero (frame : Nat) :
    poolDescriptor platform frame ≠ 0 :=
  ne_zero_of_type (poolDescriptor_type frame) (by decide)

theorem Sound.mapped_used {held : Option Nat} (sound : Sound image state held)
    {page frame : Nat} (hpage : page < virtualPageCount)
    (hframe : frame < state.frameCount)
    (h : Mapped image state page frame) : state.used frame = true :=
  (sound.used_iff frame hframe).mpr (.mapped hpage h)

theorem Sound.loose_of_free {held : Option Nat}
    (sound : Sound image state held) {frame : Nat}
    (h : state.nextFrame = some frame) : Loose image state frame ∧
      (∀ page, page < virtualPageCount → ¬ Mapped image state page frame) ∧
      held ≠ some frame := by
  have hlt := MemoryState.nextFrame_lt h
  have hfree : ¬ Owned image state held frame := by
    rw [← sound.used_iff frame hlt, MemoryState.nextFrame_free h]
    simp
  exact ⟨⟨hlt, fun hreserved => hfree (.reserved hreserved),
      fun node htable => hfree (.table htable)⟩,
    fun page hpage hmapped => hfree (.mapped hpage hmapped),
    fun hheld => hfree (.held hheld)⟩

theorem Sound.claim (sound : Sound image state none) {frame : Nat}
    (h : state.nextFrame = some frame) :
    Sound image (state.claim frame) (some frame) := by
  obtain ⟨loose, hunmapped, _⟩ := sound.loose_of_free h
  refine ⟨?_, sound.bits, ?_, sound.unique, ?_, ?_⟩
  · refine ⟨sound.paging.tree, ?_, sound.paging.level1, sound.paging.level2,
      ?_, sound.paging.bounded⟩
    · intro node table htable
      obtain ⟨other, hlt, heq, hused⟩ := sound.paging.tables node table htable
      refine ⟨other, hlt, heq, ?_⟩
      rw [MemoryState.used_claim, hused]
      simp
    · intro other hlt hfree
      rw [MemoryState.used_claim] at hfree
      simp only [Bool.or_eq_false_iff] at hfree
      exact sound.paging.positive other hlt hfree.2
  · intro page hpage hentry
    obtain ⟨other, hmapped, hloose⟩ := sound.entries page hpage hentry
    exact ⟨other, hmapped, hloose.bounded, hloose.unreserved, hloose.noTable⟩
  · intro other hlt
    rw [MemoryState.used_claim]
    have hold := sound.used_iff other hlt
    constructor
    · intro hused
      rcases Bool.or_eq_true_iff.mp hused with heq | hbefore
      · exact .held (by rw [of_decide_eq_true heq])
      · cases hold.mp hbefore with
        | reserved h => exact .reserved h
        | mapped hpage h => exact .mapped hpage h
        | table h => exact .table h
        | held h => cases h
    · intro howned
      cases howned with
      | reserved h => simp [hold.mpr (.reserved h)]
      | mapped hpage h => simp [hold.mpr (.mapped hpage h)]
      | table h => simp [hold.mpr (.table h)]
      | held h => simp [(Option.some.inj h).symm]
  · intro other hheld
    obtain rfl := Option.some.inj hheld
    exact ⟨⟨loose.bounded, loose.unreserved, loose.noTable⟩, hunmapped⟩

theorem Sound.grows {held : Option Nat} (sound : Sound image state held)
    {after : MemoryState} {place : Node (Fin 512)} {frame : Nat}
    (grows : Grows image state after place frame) :
    Sound image after held := by
  obtain ⟨loose, hunmapped, hnotHeld⟩ := sound.loose_of_free grows.next
  have hleaf : ∀ page, poolLeaf image after page = poolLeaf image state page :=
    fun page => by
      unfold poolLeaf
      rw [grows.leafAt]
  have hmapped : ∀ page other, Mapped image after page other ↔
      Mapped image state page other := by
    intro page other
    unfold Mapped
    rw [hleaf]
  have hloose : ∀ other, Loose image state other → other ≠ frame →
      Loose image after other := by
    intro other hother hne
    refine ⟨?_, hother.unreserved, ?_⟩
    · rw [grows.frameCount]
      exact hother.bounded
    · intro node htable
      rw [grows.tableAt] at htable
      split at htable
      · exact hne (platform.frameAddress_injective
          (Option.some.inj htable)).symm
      · exact hother.noTable node htable
  refine ⟨grows.paging sound.paging, ?_, ?_, ?_, ?_, ?_⟩
  · intro page hpage
    rw [grows.virtualBitmap, hleaf]
    exact sound.bits page hpage
  · intro page hpage hentry
    rw [hleaf] at hentry
    obtain ⟨other, hother, hotherLoose⟩ := sound.entries page hpage hentry
    refine ⟨other, (hmapped page other).mpr hother, hloose other hotherLoose ?_⟩
    rintro rfl
    exact hunmapped page hpage hother
  · intro page other mapped hpage hother hfirst hsecond
    exact sound.unique page other mapped hpage hother
      ((hmapped page mapped).mp hfirst) ((hmapped other mapped).mp hsecond)
  · intro other hlt
    rw [grows.frameCount] at hlt
    rw [grows.used]
    have hold := sound.used_iff other hlt
    constructor
    · intro hused
      rcases Bool.or_eq_true_iff.mp hused with heq | hbefore
      · refine @Owned.table _ image after held other place ?_
        rw [grows.tableAt, if_pos rfl, of_decide_eq_true heq]
      · cases hold.mp hbefore with
        | reserved h => exact .reserved h
        | mapped hpage h => exact .mapped hpage ((hmapped _ other).mpr h)
        | @table node h =>
            refine @Owned.table _ image after held other node ?_
            rw [grows.tableAt]
            split
            · rename_i heq
              rw [heq, grows.absent] at h
              cases h
            · exact h
        | held h => exact .held h
    · intro howned
      cases howned with
      | reserved h => simp [hold.mpr (.reserved h)]
      | mapped hpage h =>
          simp [hold.mpr (.mapped hpage ((hmapped _ other).mp h))]
      | @table node h =>
          rw [grows.tableAt] at h
          split at h
          · simp [platform.frameAddress_injective (Option.some.inj h)]
          · simp [hold.mpr (.table h)]
      | held h => simp [hold.mpr (.held h)]
  · intro other hheld
    obtain ⟨hother, hfree⟩ := sound.held other hheld
    refine ⟨hloose other hother ?_, fun page hpage h =>
      hfree page hpage ((hmapped page other).mp h)⟩
    rintro rfl
    exact hnotHeld hheld

theorem Sound.extends {held : Option Nat} (sound : Sound image state held)
    {after : MemoryState} (extended : Extends image state after) :
    Sound image after held := by
  induction extended with
  | refl => exact sound
  | step _ grows ih => exact ih.grows grows

theorem Sound.release {frame : Nat} (sound : Sound image state (some frame)) :
    Sound image (state.release frame) none := by
  obtain ⟨loose, hunmapped⟩ := sound.held frame rfl
  refine ⟨?_, sound.bits, ?_, sound.unique, ?_, nofun⟩
  · refine ⟨sound.paging.tree, ?_, sound.paging.level1, sound.paging.level2,
      ?_, sound.paging.bounded⟩
    · intro node table htable
      obtain ⟨other, hlt, rfl, hused⟩ := sound.paging.tables node table htable
      refine ⟨other, hlt, rfl, ?_⟩
      have hne : other ≠ frame := by
        rintro rfl
        exact loose.noTable node htable
      rw [MemoryState.used_release, hused]
      simp [hne]
    · intro other hlt hfree
      rw [MemoryState.used_release] at hfree
      by_cases heq : other = frame
      · subst other
        exact frameAddress_ne_zero image loose.unreserved
      · exact sound.paging.positive other hlt (by simpa [heq] using hfree)
  · intro page hpage hentry
    obtain ⟨other, hmapped, hloose⟩ := sound.entries page hpage hentry
    exact ⟨other, hmapped, hloose.bounded, hloose.unreserved, hloose.noTable⟩
  · intro other hlt
    rw [MemoryState.used_release]
    have hold := sound.used_iff other hlt
    by_cases heq : other = frame
    · subst other
      constructor
      · intro hused
        simp at hused
      · intro howned
        cases howned with
        | reserved h => exact absurd h loose.unreserved
        | mapped hpage h => exact absurd h (hunmapped _ hpage)
        | table h => exact absurd h (loose.noTable _)
        | held h => cases h
    · simp only [heq, decide_false, Bool.not_false, Bool.true_and]
      rw [hold]
      constructor
      · intro howned
        cases howned with
        | reserved h => exact .reserved h
        | mapped hpage h => exact .mapped hpage h
        | table h => exact .table h
        | held h => exact absurd (Option.some.inj h).symm heq
      · intro howned
        cases howned with
        | reserved h => exact .reserved h
        | mapped hpage h => exact .mapped hpage h
        | table h => exact .table h
        | held h => cases h

/-- `after` differs from `before` in the entry and the bit of one pool
page. -/
structure Sets (image : KernelImage platform) (before after : MemoryState)
    (page value : Nat) : Prop where
  tableAt : ∀ node, tableAt image after node = tableAt image before node
  level1 : ∀ i, after.entries image.level1Table i =
    before.entries image.level1Table i
  level2 : ∀ i table, Memory.tableAt image before (.second i) = some table →
    after.entries table = before.entries table
  leaf : ∀ other, other < virtualPageCount → poolLeaf image after other =
    if other = page then value else poolLeaf image before other
  bit : ∀ other, after.virtualBitmap.test other =
    if other = page then decide (value ≠ 0)
    else before.virtualBitmap.test other
  used : ∀ frame, after.used frame = before.used frame
  frameCount : after.frameCount = before.frameCount

section

variable {before after : MemoryState} {page value : Nat}

theorem Sets.sameTables (sets : Sets image before after page value) :
    SameTables image before after :=
  ⟨sets.tableAt, sets.level1, sets.level2,
    fun frame h => (sets.used frame).trans h, sets.frameCount⟩

theorem Sets.paging (sets : Sets image before after page value)
    (paging : Paging image before) : Paging image after :=
  sets.sameTables.paging paging

theorem Sets.loose (sets : Sets image before after page value) {frame : Nat}
    (h : Loose image before frame) : Loose image after frame where
  bounded := by
    rw [sets.frameCount]
    exact h.bounded
  unreserved := h.unreserved
  noTable := by
    intro node htable
    rw [sets.tableAt] at htable
    exact h.noTable node htable

theorem Sets.mapped_of_ne (sets : Sets image before after page value)
    {other : Nat} (hother : other < virtualPageCount) (hne : other ≠ page)
    (frame : Nat) : Mapped image after other frame ↔
      Mapped image before other frame := by
  unfold Mapped
  rw [sets.leaf other hother, if_neg hne]

theorem Sets.mapped_self (sets : Sets image before after page value)
    (hpage : page < virtualPageCount) (frame : Nat) :
    Mapped image after page frame ↔
      value = poolDescriptor platform frame := by
  unfold Mapped
  rw [sets.leaf page hpage, if_pos rfl]

theorem Sound.map {frame : Nat} (sound : Sound image before (some frame))
    (hpage : page < virtualPageCount)
    (hfree : poolLeaf image before page = 0)
    (sets : Sets image before after page (poolDescriptor platform frame)) :
    Sound image after none := by
  obtain ⟨loose, hunmapped⟩ := sound.held frame rfl
  have hvalue := @poolDescriptor_ne_zero platform frame
  have hself := sets.mapped_self hpage
  refine ⟨sets.paging sound.paging, ?_, ?_, ?_, ?_, nofun⟩
  · intro other hother
    rw [sets.bit, sets.leaf other hother]
    by_cases heq : other = page
    · simp [heq, hvalue]
    · rw [if_neg heq, if_neg heq]
      exact sound.bits other hother
  · intro other hother hentry
    by_cases heq : other = page
    · subst other
      exact ⟨frame, (hself frame).mpr rfl, sets.loose loose⟩
    · rw [sets.leaf other hother, if_neg heq] at hentry
      obtain ⟨mapped, hmapped, hloose⟩ := sound.entries other hother hentry
      exact ⟨mapped, (sets.mapped_of_ne hother heq mapped).mpr hmapped,
        sets.loose hloose⟩
  · have hother : ∀ other mapped, other < virtualPageCount →
        Mapped image after page mapped → Mapped image after other mapped →
        other = page := by
      intro other mapped hother hfirst hsecond
      by_contra hne
      have heq := (hself mapped).mp hfirst
      apply hunmapped other hother
      have hold := (sets.mapped_of_ne hother hne mapped).mp hsecond
      unfold Mapped at hold ⊢
      rw [hold, heq]
    intro first second mapped hfirst hsecond hmapped hsame
    by_cases heq : first = page
    · subst first
      exact (hother second mapped hsecond hmapped hsame).symm
    by_cases heq' : second = page
    · subst second
      exact hother first mapped hfirst hsame hmapped
    · exact sound.unique first second mapped hfirst hsecond
        ((sets.mapped_of_ne hfirst heq mapped).mp hmapped)
        ((sets.mapped_of_ne hsecond heq' mapped).mp hsame)
  · intro other hlt
    rw [sets.frameCount] at hlt
    rw [sets.used, sound.used_iff other hlt]
    constructor
    · intro howned
      cases howned with
      | reserved h => exact .reserved h
      | @mapped place hplace h =>
          have hne : place ≠ page := by
            rintro rfl
            unfold Mapped at h
            rw [hfree] at h
            exact poolDescriptor_ne_zero other h.symm
          exact .mapped hplace ((sets.mapped_of_ne hplace hne other).mpr h)
      | @table node h => exact .table ((sets.tableAt node).trans h)
      | held h =>
          obtain rfl := Option.some.inj h
          exact .mapped hpage ((hself frame).mpr rfl)
    · intro howned
      cases howned with
      | reserved h => exact .reserved h
      | @mapped place hplace h =>
          by_cases heq : place = page
          · subst place
            refine .held ?_
            rw [poolDescriptor_injective sound.paging loose.bounded hlt
              ((hself other).mp h)]
          · exact .mapped hplace
              ((sets.mapped_of_ne hplace heq other).mp h)
      | @table node h => exact .table ((sets.tableAt node).symm.trans h)
      | held h => cases h

theorem Sound.unmap {frame : Nat} (sound : Sound image before none)
    (hpage : page < virtualPageCount)
    (hmapped : Mapped image before page frame)
    (loose : Loose image before frame)
    (sets : Sets image before after page 0) :
    Sound image after (some frame) := by
  have hself : ∀ other, ¬ Mapped image after page other := by
    intro other h
    exact poolDescriptor_ne_zero other
      ((sets.mapped_self hpage other).mp h).symm
  refine ⟨sets.paging sound.paging, ?_, ?_, ?_, ?_, ?_⟩
  · intro other hother
    rw [sets.bit, sets.leaf other hother]
    by_cases heq : other = page
    · simp [heq]
    · rw [if_neg heq, if_neg heq]
      exact sound.bits other hother
  · intro other hother hentry
    by_cases heq : other = page
    · subst other
      rw [sets.leaf page hpage, if_pos rfl] at hentry
      exact absurd rfl hentry
    · rw [sets.leaf other hother, if_neg heq] at hentry
      obtain ⟨mapped, h, hloose⟩ := sound.entries other hother hentry
      exact ⟨mapped, (sets.mapped_of_ne hother heq mapped).mpr h,
        sets.loose hloose⟩
  · intro first second mapped hfirst hsecond h hsame
    have hne : first ≠ page := by
      rintro rfl
      exact hself mapped h
    have hne' : second ≠ page := by
      rintro rfl
      exact hself mapped hsame
    exact sound.unique first second mapped hfirst hsecond
      ((sets.mapped_of_ne hfirst hne mapped).mp h)
      ((sets.mapped_of_ne hsecond hne' mapped).mp hsame)
  · intro other hlt
    rw [sets.frameCount] at hlt
    rw [sets.used, sound.used_iff other hlt]
    constructor
    · intro howned
      cases howned with
      | reserved h => exact .reserved h
      | @mapped place hplace h =>
          by_cases heq : place = page
          · subst place
            refine .held ?_
            unfold Mapped at h hmapped
            rw [poolDescriptor_injective sound.paging loose.bounded hlt
              (hmapped.symm.trans h)]
          · exact .mapped hplace
              ((sets.mapped_of_ne hplace heq other).mpr h)
      | @table node h => exact .table ((sets.tableAt node).trans h)
      | held h => cases h
    · intro howned
      cases howned with
      | reserved h => exact .reserved h
      | @mapped place hplace h =>
          have hne : place ≠ page := by
            rintro rfl
            exact hself other h
          exact .mapped hplace ((sets.mapped_of_ne hplace hne other).mp h)
      | @table node h => exact .table ((sets.tableAt node).symm.trans h)
      | held h =>
          obtain rfl := Option.some.inj h
          exact .mapped hpage hmapped
  · intro other hheld
    obtain rfl := Option.some.inj hheld
    refine ⟨sets.loose loose, ?_⟩
    intro place hplace h
    by_cases heq : place = page
    · subst place
      exact hself frame h
    · exact heq (sound.unique place page frame hplace hpage
        ((sets.mapped_of_ne hplace heq frame).mp h) hmapped)

end

end

end Planetoid.Memory
