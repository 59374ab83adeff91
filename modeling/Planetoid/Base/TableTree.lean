import Mathlib.Logic.Function.Basic
import Mathlib.Tactic.Common

namespace Planetoid.TableTree

/-! Trees of tables in a memory: the entries of the root table and of the
tables below it point to further tables, those of the tables of the third
level are the leaves. -/

/-- A place in the tree, by the indices of the entries that lead to it. -/
inductive Node (ι : Type) where
  | root
  | second (i : ι)
  | third (i j : ι)
  deriving DecidableEq

section

variable {α ι ε : Type} (child : ε → Option α) (root : α)

def tableOf (tables : α → ι → ε) : Node ι → Option α
  | .root => some root
  | .second i => child (tables root i)
  | .third i j => (child (tables root i)).bind fun table =>
      child (tables table j)

def IsTree (tables : α → ι → ε) : Prop :=
  ∀ first second table, tableOf child root tables first = some table →
    tableOf child root tables second = some table → first = second

/-- The leaf on a path, `empty` when there is no table. -/
def leaf (empty : ε) (tables : α → ι → ε) (i j k : ι) : ε :=
  match tableOf child root tables (.third i j) with
  | some table => tables table k
  | none => empty

variable {child root}

@[simp] theorem tableOf_root (tables : α → ι → ε) :
    tableOf child root tables .root = some root := rfl

theorem tableOf_congr {tables tables' : α → ι → ε}
    (hroot : ∀ i, tables' root i = tables root i)
    (hsecond : ∀ i table, child (tables root i) = some table →
      ∀ j, tables' table j = tables table j) (node : Node ι) :
    tableOf child root tables' node = tableOf child root tables node := by
  cases node with
  | root => rfl
  | second i => simp only [tableOf, hroot]
  | third i j =>
      simp only [tableOf, hroot]
      cases h : child (tables root i) with
      | none => rfl
      | some table => exact congrArg child (hsecond i table h j)

section

variable {tables : α → ι → ε} (tree : IsTree child root tables)

include tree

theorem IsTree.second_ne_root {i : ι} {table : α}
    (h : child (tables root i) = some table) : table ≠ root := by
  rintro rfl
  cases tree .root (.second i) table rfl h

theorem IsTree.third_ne_root {i j : ι} {table : α}
    (h : tableOf child root tables (.third i j) = some table) :
    table ≠ root := by
  rintro rfl
  cases tree .root (.third i j) table rfl h

theorem IsTree.third_ne_second {i j other : ι} {table second : α}
    (h : tableOf child root tables (.third i j) = some table)
    (hsecond : child (tables root other) = some second) : table ≠ second := by
  rintro rfl
  cases tree (.second other) (.third i j) table hsecond h

end

section

variable [DecidableEq ι]

/-- A tree stays one when a table that it does not have is attached. -/
theorem IsTree.of_attached {tables tables' : α → ι → ε} {place : Node ι}
    {fresh : α} (tree : IsTree child root tables)
    (hfresh : ∀ node, tableOf child root tables node ≠ some fresh)
    (h : ∀ node, tableOf child root tables' node =
      if node = place then some fresh else tableOf child root tables node) :
    IsTree child root tables' := by
  intro first second table hfirst hsecond
  rw [h] at hfirst hsecond
  by_cases heq : first = place
  · by_cases hother : second = place
    · exact heq.trans hother.symm
    · rw [if_pos heq] at hfirst
      rw [if_neg hother, ← hfirst] at hsecond
      exact absurd hsecond (hfresh second)
  · rw [if_neg heq] at hfirst
    by_cases hother : second = place
    · rw [if_pos hother, ← hfirst] at hsecond
      exact absurd hsecond.symm (hfresh first)
    · rw [if_neg hother] at hsecond
      exact tree first second table hfirst hsecond

end

variable [DecidableEq α] [DecidableEq ι]

def setEntry (tables : α → ι → ε) (table : α) (index : ι) (entry : ε) :
    α → ι → ε :=
  Function.update tables table (Function.update (tables table) index entry)

def attach (empty : ε) (tables : α → ι → ε) (table : α) (index : ι)
    (fresh : α) (pointer : ε) : α → ι → ε :=
  setEntry (Function.update tables fresh fun _ => empty) table index pointer

@[simp] theorem setEntry_self (tables : α → ι → ε) (table : α) (index : ι)
    (entry : ε) : setEntry tables table index entry table index = entry := by
  simp [setEntry]

theorem setEntry_of_ne {tables : α → ι → ε} {table other : α}
    (h : other ≠ table) (index : ι) (entry : ε) :
    setEntry tables table index entry other = tables other :=
  Function.update_of_ne h ..

theorem setEntry_of_index_ne {tables : α → ι → ε} {index other : ι}
    (h : other ≠ index) (table : α) (entry : ε) :
    setEntry tables table index entry table other = tables table other := by
  simp [setEntry, h]

theorem attach_apply (empty : ε) (tables : α → ι → ε) (table : α) (index : ι)
    (fresh : α) (pointer : ε) (other : α) (place : ι) :
    attach empty tables table index fresh pointer other place =
      if other = table ∧ place = index then pointer
      else if other = fresh then empty
      else tables other place := by
  unfold attach setEntry
  by_cases htable : other = table
  · subst other
    by_cases hindex : place = index
    · subst place
      simp
    · simp [hindex, Function.update_apply, ite_apply]
  · simp [htable, Function.update_apply, ite_apply]

section

variable {tables : α → ι → ε} (tree : IsTree child root tables)

include tree

/-- Setting a leaf moves no table. -/
theorem IsTree.tableOf_setLeaf {i j : ι} {table : α}
    (h : tableOf child root tables (.third i j) = some table) (k : ι)
    (entry : ε) (node : Node ι) :
    tableOf child root (setEntry tables table k entry) node =
      tableOf child root tables node := by
  apply tableOf_congr
  · intro other
    rw [setEntry_of_ne (tree.third_ne_root h).symm]
  · intro other second hsecond index
    rw [setEntry_of_ne (tree.third_ne_second h hsecond).symm]

theorem IsTree.leaf_setLeaf {empty : ε} {i j : ι} {table : α}
    (h : tableOf child root tables (.third i j) = some table) (k : ι)
    (entry : ε) (i' j' k' : ι) :
    leaf child root empty (setEntry tables table k entry) i' j' k' =
      if i' = i ∧ j' = j ∧ k' = k then entry
      else leaf child root empty tables i' j' k' := by
  unfold leaf
  rw [tree.tableOf_setLeaf h]
  cases hother : tableOf child root tables (.third i' j') with
  | none =>
      have hne : ¬ (i' = i ∧ j' = j ∧ k' = k) := by
        rintro ⟨rfl, rfl, _⟩
        rw [h] at hother
        cases hother
      rw [if_neg hne]
  | some other =>
      by_cases heq : other = table
      · subst other
        cases tree _ _ _ h hother
        by_cases hindex : k' = k
        · subst hindex
          simp
        · simp [hindex, setEntry_of_index_ne hindex]
      · have hne : ¬ (i' = i ∧ j' = j ∧ k' = k) := by
          rintro ⟨rfl, rfl, _⟩
          rw [h] at hother
          exact heq (Option.some.inj hother).symm
        rw [if_neg hne]
        simp only
        rw [setEntry_of_ne heq]

section

variable {empty pointer : ε} {fresh : α}
  (hfresh : ∀ node, tableOf child root tables node ≠ some fresh)
  (hempty : child empty = none) (hpointer : child pointer = some fresh)

include hfresh hempty hpointer

theorem IsTree.tableOf_attachSecond {i : ι}
    (hnone : child (tables root i) = none) (node : Node ι) :
    tableOf child root (attach empty tables root i fresh pointer) node =
      if node = .second i then some fresh
      else tableOf child root tables node := by
  have hroot : root ≠ fresh := fun h => hfresh .root (by simp [h])
  have hentry : ∀ other,
      attach empty tables root i fresh pointer root other =
        if other = i then pointer else tables root other := by
    intro other
    unfold attach
    by_cases heq : other = i
    · subst other
      simp
    · rw [setEntry_of_index_ne heq, Function.update_of_ne hroot, if_neg heq]
  have hbelow : ∀ table, table ≠ root →
      attach empty tables root i fresh pointer table =
        if table = fresh then fun _ => empty else tables table := by
    intro table hne
    unfold attach
    rw [setEntry_of_ne hne]
    by_cases heq : table = fresh
    · subst table
      simp
    · rw [Function.update_of_ne heq, if_neg heq]
  cases node with
  | root => rfl
  | second other =>
      simp only [tableOf, hentry]
      by_cases heq : other = i
      · subst other
        simp [hpointer]
      · simp [heq]
  | third first other =>
      simp only [tableOf, hentry]
      by_cases heq : first = i
      · subst first
        rw [if_pos rfl, hpointer, hnone]
        simp [hbelow fresh hroot.symm, hempty]
      · rw [if_neg heq]
        cases hsecond : child (tables root first) with
        | none => simp
        | some table =>
            have hne : table ≠ fresh := by
              rintro rfl
              exact hfresh (.second first) hsecond
            simp [hbelow table (tree.second_ne_root hsecond), hne]

omit hempty in
theorem IsTree.tableOf_attachThird {i j : ι} {table : α}
    (hsecond : child (tables root i) = some table)
    (hnone : child (tables table j) = none) (node : Node ι) :
    tableOf child root (attach empty tables table j fresh pointer) node =
      if node = .third i j then some fresh
      else tableOf child root tables node := by
  have hroot : root ≠ fresh := fun h => hfresh .root (by simp [h])
  have htable : table ≠ fresh := by
    rintro rfl
    exact hfresh (.second i) hsecond
  have hkept : ∀ other,
      attach empty tables table j fresh pointer root other =
        tables root other := by
    intro other
    unfold attach
    rw [setEntry_of_ne (tree.second_ne_root hsecond).symm,
      Function.update_of_ne hroot]
  have hbelow : ∀ first other, child (tables root first) = some other →
      ∀ index, attach empty tables table j fresh pointer other index =
        if first = i ∧ index = j then pointer else tables other index := by
    intro first other hother index
    unfold attach
    have hne : other ≠ fresh := by
      rintro rfl
      exact hfresh (.second first) hother
    by_cases heq : other = table
    · subst other
      cases tree (.second i) (.second first) table hsecond hother
      by_cases hindex : index = j
      · subst hindex
        simp
      · rw [setEntry_of_index_ne hindex, Function.update_of_ne hne]
        simp [hindex]
    · have hfirst : first ≠ i := by
        rintro rfl
        rw [hsecond] at hother
        exact heq (Option.some.inj hother).symm
      rw [setEntry_of_ne heq, Function.update_of_ne hne]
      simp [hfirst]
  cases node with
  | root => rfl
  | second other => simp [tableOf, hkept]
  | third first other =>
      simp only [tableOf, hkept]
      cases hother : child (tables root first) with
      | none =>
          have hne : first ≠ i := by
            rintro rfl
            rw [hsecond] at hother
            cases hother
          simp [hne]
      | some below =>
          simp only [Option.bind_some, hbelow first below hother]
          by_cases heq : first = i ∧ other = j
          · obtain ⟨rfl, rfl⟩ := heq
            simp [hpointer]
          · simp [heq]

omit hempty hpointer in
/-- Attaching a cleared table to the root or to a table of the second level
changes no leaf. -/
theorem IsTree.leaf_attach {table : α} {index : ι} {parent place : Node ι}
    (hparent : tableOf child root tables parent = some table)
    (habove : ∀ i j, parent ≠ .third i j)
    (hplace : ∀ node, tableOf child root
      (attach empty tables table index fresh pointer) node =
        if node = place then some fresh else tableOf child root tables node)
    (hnone : tableOf child root tables place = none)
    (i j k : ι) :
    leaf child root empty (attach empty tables table index fresh pointer)
      i j k = leaf child root empty tables i j k := by
  unfold leaf
  rw [hplace]
  by_cases heq : Node.third i j = place
  · have hne : fresh ≠ table := by
      rintro rfl
      exact hfresh parent hparent
    rw [if_pos heq, heq, hnone]
    simp [attach, setEntry_of_ne hne]
  · rw [if_neg heq]
    cases h : tableOf child root tables (.third i j) with
    | none => rfl
    | some other =>
        have hne : other ≠ table := by
          rintro rfl
          exact habove i j (tree _ _ _ hparent h)
        have hold : other ≠ fresh := by
          rintro rfl
          exact hfresh (.third i j) h
        simp [attach, setEntry_of_ne hne, hold]

end

end

end

end Planetoid.TableTree
