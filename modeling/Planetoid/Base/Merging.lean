import Mathlib.Data.List.Chain

namespace Planetoid

/-! Lists in which neighbours that adjoin each other are merged, and the list
that is left when all of them are. -/

structure Merging (α : Type) where
  Adjoins : α → α → Prop
  decide : DecidableRel Adjoins
  merge : α → α → α
  adjoins_left : ∀ {first second : α}, Adjoins first second → ∀ other,
    (Adjoins (merge first second) other ↔ Adjoins second other)
  adjoins_right : ∀ {first second : α}, Adjoins first second → ∀ other,
    (Adjoins other (merge first second) ↔ Adjoins other first)
  assoc : ∀ {first second third : α}, Adjoins first second →
    Adjoins second third →
    merge (merge first second) third = merge first (merge second third)

namespace Merging

variable {α : Type} (merging : Merging α) {first second : α}
  {front rest nodes : List α}

instance (first second : α) : Decidable (merging.Adjoins first second) :=
  merging.decide first second

/-- A list in which no neighbours are left to be merged. -/
def Merged (nodes : List α) : Prop :=
  nodes.IsChain fun first second => ¬ merging.Adjoins first second

def prepend (node : α) : List α → List α
  | [] => [node]
  | next :: rest =>
    if merging.Adjoins node next then merging.merge node next :: rest
    else node :: next :: rest

def normal (nodes : List α) : List α :=
  nodes.foldr merging.prepend []

variable {merging}

@[simp] theorem normal_nil : merging.normal [] = [] :=
  rfl

@[simp] theorem normal_cons :
    merging.normal (first :: rest) =
      merging.prepend first (merging.normal rest) :=
  rfl

theorem prepend_merge (h : merging.Adjoins first second) :
    merging.prepend (merging.merge first second) nodes =
      merging.prepend first (merging.prepend second nodes) := by
  cases nodes with
  | nil =>
      unfold prepend
      simp only
      rw [if_pos h]
  | cons next rest =>
      by_cases hnext : merging.Adjoins second next
      · have hleft := (merging.adjoins_left h next).mpr hnext
        have hright := (merging.adjoins_right hnext first).mpr h
        simp only [prepend, if_pos hnext, if_pos hleft, if_pos hright]
        rw [merging.assoc h hnext]
      · have hleft := fun hadjoins =>
          hnext ((merging.adjoins_left h next).mp hadjoins)
        simp only [prepend, if_neg hnext, if_neg hleft, if_pos h]

theorem normal_merge (h : merging.Adjoins first second) :
    merging.normal (front ++ merging.merge first second :: rest) =
      merging.normal (front ++ first :: second :: rest) := by
  induction front with
  | nil => exact prepend_merge h
  | cons node front ih =>
      rw [List.cons_append, List.cons_append, normal_cons, normal_cons, ih]

theorem Merged.normal_eq (merged : merging.Merged nodes) :
    merging.normal nodes = nodes := by
  induction nodes with
  | nil => rfl
  | cons node rest ih =>
      unfold Merged at merged
      rw [List.isChain_cons] at merged
      rw [normal_cons, ih merged.2]
      cases rest with
      | nil => rfl
      | cons next rest => exact if_neg (merged.1 next rfl)

theorem forall_normal {kept : α → Prop}
    (hmerge : ∀ {first second : α}, merging.Adjoins first second →
      kept first → kept (merging.merge first second))
    (h : ∀ node ∈ nodes, kept node) :
    ∀ node ∈ merging.normal nodes, kept node := by
  induction nodes with
  | nil => exact h
  | cons first rest ih =>
      rw [List.forall_mem_cons] at h
      replace ih := ih h.2
      rw [normal_cons]
      cases hrest : merging.normal rest with
      | nil => exact List.forall_mem_singleton.mpr h.1
      | cons next rest =>
          rw [hrest, List.forall_mem_cons] at ih
          unfold prepend
          simp only
          split
          · rename_i hadjoins
            exact List.forall_mem_cons.mpr ⟨hmerge hadjoins h.1, ih.2⟩
          · exact List.forall_mem_cons.mpr
              ⟨h.1, List.forall_mem_cons.mpr ih⟩

/-- A change of the nodes that keeps what is merged can come before or behind
the merging of the nodes. -/
theorem normal_map_normal {change : α → α}
    (hadjoins : ∀ {first second : α}, merging.Adjoins first second →
      merging.Adjoins (change first) (change second))
    (hmerge : ∀ {first second : α}, merging.Adjoins first second →
      change (merging.merge first second) =
        merging.merge (change first) (change second))
    (nodes : List α) :
    merging.normal ((merging.normal nodes).map change) =
      merging.normal (nodes.map change) := by
  induction nodes with
  | nil => rfl
  | cons node rest ih =>
      rw [normal_cons, List.map_cons, normal_cons, ← ih]
      cases merging.normal rest with
      | nil => rfl
      | cons next rest =>
          unfold prepend
          simp only
          split
          · rename_i h
            rw [List.map_cons, List.map_cons, hmerge h]
            exact prepend_merge (hadjoins h)
          · rfl

end Merging

end Planetoid
