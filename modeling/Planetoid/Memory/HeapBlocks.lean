import Planetoid.Memory.HeapView

namespace Planetoid.Memory

open Planetoid KernelHeapAllocator

/-! Lists of blocks that tile pages. -/

structure Chunk where
  address : Nat
  size : Nat
  free : Bool
  deriving DecidableEq, Repr

namespace Chunk

def payload (chunk : Chunk) : Nat := chunk.address + sizeofBlock

def finish (chunk : Chunk) : Nat := chunk.address + sizeofBlock + chunk.size

def Covers (chunk : Chunk) (place : Nat) : Prop :=
  chunk.address ≤ place ∧ place < chunk.finish

def Apart (first second : Chunk) : Prop :=
  ∀ place, first.Covers place → ¬ second.Covers place

def extent (chunk : Chunk) : Nat := sizeofBlock + chunk.size

theorem Apart.symm {first second : Chunk} (h : first.Apart second) :
    second.Apart first :=
  fun place hsecond hfirst => h place hfirst hsecond

theorem covers_address (chunk : Chunk) : chunk.Covers chunk.address := by
  unfold Covers finish sizeofBlock
  omega

theorem Apart.address_ne {first second : Chunk} (h : first.Apart second) :
    first.address ≠ second.address := by
  intro heq
  apply h first.address first.covers_address
  rw [heq]
  exact second.covers_address

end Chunk

/-- What a list of blocks keeps: it fills `pages`, page by page, without
overlaps. -/
structure Tiling (pages : List Nat) (blocks : List Chunk) : Prop where
  aligned : ∀ chunk ∈ blocks,
    chunk.address % 8 = 0 ∧ chunk.size % 8 = 0
  inside : ∀ chunk ∈ blocks, ∀ place, chunk.Covers place →
    ∃ page ∈ pages, page ≤ place ∧ place < page + pageSize
  apart : blocks.Pairwise Chunk.Apart
  total : (blocks.map Chunk.extent).sum = pageSize * pages.length

section

variable {pages : List Nat} {blocks before after : List Chunk}

theorem Tiling.apart_of_split {chunk : Chunk}
    (tiling : Tiling pages (before ++ chunk :: after)) {other : Chunk}
    (h : other ∈ before ∨ other ∈ after) : chunk.Apart other := by
  have hpairwise := tiling.apart
  rw [List.pairwise_append, List.pairwise_cons] at hpairwise
  obtain ⟨_, ⟨hafter, _⟩, hcross⟩ := hpairwise
  rcases h with hbefore | hmem
  · exact (hcross other hbefore chunk (List.mem_cons_self ..)).symm
  · exact hafter other hmem

theorem Tiling.replace {old new : List Chunk}
    (tiling : Tiling pages (before ++ old ++ after))
    (haligned : ∀ chunk ∈ new, chunk.address % 8 = 0 ∧ chunk.size % 8 = 0)
    (hcovers : ∀ chunk ∈ new, ∀ place, chunk.Covers place →
      ∃ other ∈ old, other.Covers place)
    (hapart : new.Pairwise Chunk.Apart)
    (hextent : (new.map Chunk.extent).sum = (old.map Chunk.extent).sum) :
    Tiling pages (before ++ new ++ after) := by
  have hold : ∀ chunk, chunk ∈ before ∨ chunk ∈ old ∨ chunk ∈ after →
      chunk ∈ before ++ old ++ after := by
    intro chunk h
    simp only [List.mem_append]
    rcases h with h | h | h
    · exact .inl (.inl h)
    · exact .inl (.inr h)
    · exact .inr h
  have hpairwise := tiling.apart
  simp only [List.pairwise_append, List.mem_append] at hpairwise
  obtain ⟨⟨hbefore, _, hcross⟩, hafter, hout⟩ := hpairwise
  refine ⟨?_, ?_, ?_, ?_⟩
  · intro chunk hmem
    simp only [List.mem_append] at hmem
    rcases hmem with (h | h) | h
    · exact tiling.aligned chunk (hold chunk (.inl h))
    · exact haligned chunk h
    · exact tiling.aligned chunk (hold chunk (.inr (.inr h)))
  · intro chunk hmem place hplace
    simp only [List.mem_append] at hmem
    rcases hmem with (h | h) | h
    · exact tiling.inside chunk (hold chunk (.inl h)) place hplace
    · obtain ⟨other, hother, hin⟩ := hcovers chunk h place hplace
      exact tiling.inside other (hold other (.inr (.inl hother))) place hin
    · exact tiling.inside chunk (hold chunk (.inr (.inr h))) place hplace
  · simp only [List.pairwise_append, List.mem_append]
    refine ⟨⟨hbefore, hapart, ?_⟩, hafter, ?_⟩
    · intro first hfirst second hsecond place hin hnew
      obtain ⟨other, hother, hplace⟩ := hcovers second hsecond place hnew
      exact hcross first hfirst other hother place hin hplace
    · rintro first (hfirst | hfirst) second hsecond place hin hlast
      · exact hout first (.inl hfirst) second hsecond place hin hlast
      · obtain ⟨other, hother, hplace⟩ := hcovers first hfirst place hin
        exact hout other (.inr hother) second hsecond place hplace hlast
  · have htotal := tiling.total
    simp only [List.map_append, List.sum_append] at htotal ⊢
    omega

theorem Tiling.extend (tiling : Tiling pages blocks) {address : Nat}
    (haligned : address % 8 = 0)
    (hfresh : ∀ page ∈ pages, page + pageSize ≤ address ∨
      address + pageSize ≤ page) :
    Tiling (address :: pages)
      (blocks ++ [⟨address, pageSize - sizeofBlock, true⟩]) := by
  refine ⟨?_, ?_, ?_, ?_⟩
  · intro chunk hmem
    rw [List.mem_append, List.mem_singleton] at hmem
    rcases hmem with h | rfl
    · exact tiling.aligned chunk h
    · exact ⟨haligned, (by decide : (pageSize - sizeofBlock) % 8 = 0)⟩
  · intro chunk hmem place hplace
    rw [List.mem_append, List.mem_singleton] at hmem
    rcases hmem with h | rfl
    · obtain ⟨page, hpage, hin⟩ := tiling.inside chunk h place hplace
      exact ⟨page, List.mem_cons_of_mem _ hpage, hin⟩
    · unfold Chunk.Covers Chunk.finish sizeofBlock pageSize at hplace
      simp only at hplace
      refine ⟨address, List.mem_cons_self .., ?_⟩
      unfold pageSize
      omega
  · rw [List.pairwise_append]
    refine ⟨tiling.apart, List.pairwise_singleton .., ?_⟩
    intro chunk hchunk other hother place hfirst hsecond
    rw [List.mem_singleton] at hother
    subst hother
    obtain ⟨page, hpage, hlow, hhigh⟩ :=
      tiling.inside chunk hchunk place hfirst
    unfold Chunk.Covers Chunk.finish sizeofBlock at hsecond
    have hapart := hfresh page hpage
    unfold pageSize at *
    simp only at hsecond
    omega
  · have htotal := tiling.total
    simp only [List.map_append, List.sum_append, List.map_cons, List.map_nil,
      List.sum_cons, List.sum_nil, List.length_cons]
    unfold Chunk.extent sizeofBlock pageSize at *
    simp only at htotal ⊢
    omega

end

/-! The blocks that `allocate_from_block` and `kfree` leave. -/

def place (chunk : Chunk) (size : Nat) : List Chunk :=
  if chunk.size ≥ size + sizeofBlock + 8 then
    [⟨chunk.address, size, false⟩,
      ⟨chunk.address + sizeofBlock + size, chunk.size - size - sizeofBlock,
        true⟩]
  else
    [{ chunk with free := false }]

/-- The loop of `kfree` over the blocks behind the freed one. -/
def absorb (address gained : Nat) : List Chunk → Nat × List Chunk
  | [] => (gained, [])
  | chunk :: rest =>
    if chunk.free = true ∧ chunk.address = address + sizeofBlock + gained then
      absorb address (gained + sizeofBlock + chunk.size) rest
    else
      (gained, chunk :: rest)

def merged (chunk : Chunk) (behind : List Chunk) : Chunk :=
  ⟨chunk.address, (absorb chunk.address chunk.size behind).1, true⟩

/-- The last of the blocks before a freed one takes it over. -/
def mergeInto (before : List Chunk) (chunk : Chunk) : List Chunk :=
  match before.getLast? with
  | none => [chunk]
  | some previous =>
    if previous.free = true ∧ previous.finish = chunk.address then
      before.dropLast ++
        [{ previous with size := previous.size + chunk.extent }]
    else
      before ++ [chunk]

def release (before : List Chunk) (chunk : Chunk) (behind : List Chunk) :
    List Chunk :=
  mergeInto before (merged chunk behind) ++
    (absorb chunk.address chunk.size behind).2

section

variable {pages : List Nat} {before after : List Chunk} {chunk : Chunk}

theorem Tiling.place (tiling : Tiling pages (before ++ chunk :: after))
    {size : Nat} (haligned : size % 8 = 0) :
    Tiling pages (before ++ place chunk size ++ after) := by
  have hold : Tiling pages (before ++ [chunk] ++ after) := by
    rw [List.append_assoc]
    exact tiling
  have hchunk := tiling.aligned chunk (by simp)
  unfold Memory.place
  split
  · rename_i hfits
    refine hold.replace ?_ ?_ ?_ ?_
    · intro other hmem
      simp only [List.mem_cons, List.not_mem_nil, or_false] at hmem
      unfold sizeofBlock at *
      rcases hmem with rfl | rfl
      · exact ⟨hchunk.1, haligned⟩
      · simp only
        omega
    · intro other hmem spot hplace
      refine ⟨chunk, List.mem_singleton_self _, ?_⟩
      simp only [List.mem_cons, List.not_mem_nil, or_false] at hmem
      unfold Chunk.Covers Chunk.finish sizeofBlock at *
      rcases hmem with rfl | rfl
      · simp only at hplace
        omega
      · simp only at hplace
        omega
    · simp only [List.pairwise_cons, List.mem_singleton, forall_eq,
        List.not_mem_nil, false_imp_iff, implies_true, List.Pairwise.nil,
        and_true]
      intro spot hfirst hsecond
      unfold Chunk.Covers Chunk.finish sizeofBlock at *
      simp only at hfirst hsecond
      omega
    · simp only [List.map_cons, List.map_nil, List.sum_cons, List.sum_nil]
      unfold Chunk.extent sizeofBlock at *
      simp only
      omega
  · refine hold.replace ?_ ?_ (List.pairwise_singleton ..) rfl
    · intro other hmem
      rw [List.mem_singleton] at hmem
      subst hmem
      exact hchunk
    · intro other hmem spot hplace
      rw [List.mem_singleton] at hmem
      subst hmem
      exact ⟨chunk, List.mem_singleton_self _, hplace⟩

theorem absorb_spec (address gained : Nat) (blocks : List Chunk) :
    ∃ taken, blocks = taken ++ (absorb address gained blocks).2 ∧
      (∀ other ∈ taken, other.free = true) ∧
      (absorb address gained blocks).1 =
        gained + (taken.map Chunk.extent).sum ∧
      ∀ spot, address + sizeofBlock + gained ≤ spot →
        spot < address + sizeofBlock + (absorb address gained blocks).1 →
        ∃ other ∈ taken, other.Covers spot := by
  induction blocks generalizing gained with
  | nil =>
      refine ⟨[], rfl, by simp, rfl, ?_⟩
      intro spot hlow hhigh
      exact absurd hhigh (Nat.not_lt.mpr hlow)
  | cons first rest ih =>
      unfold absorb
      split
      · rename_i htaken
        obtain ⟨taken, hrest, hfree, hsum, hcovers⟩ :=
          ih (gained + sizeofBlock + first.size)
        refine ⟨first :: taken, by rw [List.cons_append, ← hrest], ?_, ?_, ?_⟩
        · intro other hmem
          rcases List.mem_cons.mp hmem with rfl | h
          · exact htaken.1
          · exact hfree other h
        · rw [hsum, List.map_cons, List.sum_cons, Chunk.extent]
          omega
        · intro spot hlow hhigh
          by_cases hfirst : spot < first.finish
          · refine ⟨first, List.mem_cons_self .., ?_, hfirst⟩
            rw [htaken.2]
            exact hlow
          · unfold Chunk.finish at hfirst
            obtain ⟨other, hmem, hin⟩ := hcovers spot (by omega) hhigh
            exact ⟨other, List.mem_cons_of_mem _ hmem, hin⟩
      · refine ⟨[], rfl, by simp, rfl, ?_⟩
        intro spot hlow hhigh
        exact absurd hhigh (Nat.not_lt.mpr hlow)

theorem Tiling.merged (tiling : Tiling pages (before ++ chunk :: after)) :
    Tiling pages (before ++ [merged chunk after] ++
      (absorb chunk.address chunk.size after).2) := by
  obtain ⟨taken, hsplit, _, hsum, hcovers⟩ :=
    absorb_spec chunk.address chunk.size after
  have hold : Tiling pages (before ++ (chunk :: taken) ++
      (absorb chunk.address chunk.size after).2) := by
    rw [List.append_assoc, List.cons_append, ← hsplit]
    exact tiling
  have htaken : ∀ other ∈ chunk :: taken,
      other.address % 8 = 0 ∧ other.size % 8 = 0 :=
    fun other hmem => hold.aligned other (by
      simp only [List.mem_append]
      exact .inl (.inr hmem))
  have haligned : ∀ blocks : List Chunk, (∀ other ∈ blocks,
      other.address % 8 = 0 ∧ other.size % 8 = 0) →
      (blocks.map Chunk.extent).sum % 8 = 0 := by
    intro blocks
    induction blocks with
    | nil => exact fun _ => rfl
    | cons first rest ih =>
        intro h
        have hfirst := (h first (List.mem_cons_self ..)).2
        have hrest := ih fun other hmem => h other (List.mem_cons_of_mem _ hmem)
        rw [List.map_cons, List.sum_cons, Chunk.extent]
        unfold sizeofBlock
        omega
  refine hold.replace ?_ ?_ (List.pairwise_singleton ..) ?_
  · intro other hmem
    rw [List.mem_singleton] at hmem
    subst hmem
    have hchunk := htaken chunk (List.mem_cons_self ..)
    have hrest := haligned taken fun other hmem =>
      htaken other (List.mem_cons_of_mem _ hmem)
    refine ⟨hchunk.1, ?_⟩
    unfold Memory.merged
    simp only
    omega
  · intro other hmem spot hplace
    rw [List.mem_singleton] at hmem
    subst hmem
    unfold Memory.merged Chunk.Covers Chunk.finish at hplace
    simp only at hplace
    by_cases hin : spot < chunk.finish
    · exact ⟨chunk, List.mem_cons_self .., hplace.1, hin⟩
    · unfold Chunk.finish at hin
      obtain ⟨other, hmem, hcover⟩ := hcovers spot (by omega) hplace.2
      exact ⟨other, List.mem_cons_of_mem _ hmem, hcover⟩
  · simp only [List.map_cons, List.map_nil, List.sum_cons, List.sum_nil,
      Chunk.extent, Memory.merged]
    rw [hsum]
    unfold Chunk.extent
    omega

theorem Tiling.mergeInto (tiling : Tiling pages (before ++ [chunk] ++ after)) :
    Tiling pages (mergeInto before chunk ++ after) := by
  unfold Memory.mergeInto
  cases hlast : before.getLast? with
  | none =>
      rw [List.getLast?_eq_none_iff] at hlast
      subst hlast
      exact tiling
  | some previous =>
      simp only
      split
      · rename_i hmerge
        obtain ⟨first, rfl⟩ := List.getLast?_eq_some_iff.mp hlast
        rw [List.dropLast_concat]
        have hold : Tiling pages (first ++ [previous, chunk] ++ after) := by
          simpa using tiling
        have hprevious := hold.aligned previous (by simp)
        have hchunk := hold.aligned chunk (by simp)
        refine hold.replace ?_ ?_ (List.pairwise_singleton ..) ?_
        · intro other hmem
          rw [List.mem_singleton] at hmem
          subst hmem
          refine ⟨hprevious.1, ?_⟩
          unfold Chunk.extent sizeofBlock
          simp only
          omega
        · intro other hmem spot hplace
          rw [List.mem_singleton] at hmem
          subst hmem
          unfold Chunk.Covers Chunk.finish Chunk.extent at hplace
          simp only at hplace
          have hadjacent := hmerge.2
          by_cases hin : spot < previous.finish
          · exact ⟨previous, by simp, hplace.1, hin⟩
          · refine ⟨chunk, by simp, by omega, ?_⟩
            unfold Chunk.finish at *
            omega
        · simp only [List.map_cons, List.map_nil, List.sum_cons,
            List.sum_nil, Chunk.extent]
          omega
      · exact tiling

theorem Tiling.release (tiling : Tiling pages (before ++ chunk :: after)) :
    Tiling pages (release before chunk after) :=
  tiling.merged.mergeInto

end

end Planetoid.Memory
