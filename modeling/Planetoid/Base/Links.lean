import Mathlib.Logic.Function.Basic
import Mathlib.Data.List.Basic
import Mathlib.Data.List.Nodup

namespace Planetoid

/-! Structures threaded through a link field: segments, null-terminated lists,
queues with a pointer to their last node and circular lists. -/

namespace Links

/-- Following `next` from `head` visits exactly `nodes` and arrives at
`finish`. -/
def Segment (next : α → Option α) : Option α → List α → Option α → Prop
  | head, [], finish => head = finish
  | head, node :: rest, finish =>
      head = some node ∧ Segment next (next node) rest finish

abbrev Linked (next : α → Option α) (head : Option α) (nodes : List α) : Prop :=
  Segment next head nodes none

/-- A null-terminated list together with a pointer to its last node. -/
structure Queue (next : α → Option α) (head tail : Option α)
    (nodes : List α) : Prop where
  linked : Linked next head nodes
  tail_eq : tail = nodes.getLast?

structure Ring (next : α → Option α) (head : Option α)
    (nodes : List α) : Prop where
  head_eq : head = nodes.head?
  closed : Segment next head nodes head

variable {next other : α → Option α} {head finish tail : Option α}
  {nodes front back : List α}

@[simp] theorem segment_nil : Segment next head [] finish ↔ head = finish :=
  Iff.rfl

@[simp] theorem segment_cons {node : α} :
    Segment next head (node :: nodes) finish ↔
      head = some node ∧ Segment next (next node) nodes finish :=
  Iff.rfl

theorem segment_append :
    Segment next head (front ++ back) finish ↔
      ∃ seam, Segment next head front seam ∧
        Segment next seam back finish := by
  induction front generalizing head with
  | nil => simp
  | cons node rest ih => simp [ih, and_assoc]

theorem segment_concat {last : α} :
    Segment next head (front ++ [last]) finish ↔
      Segment next head front (some last) ∧ next last = finish := by
  rw [segment_append]
  constructor
  · rintro ⟨_, hfront, rfl, hlast⟩
    exact ⟨hfront, hlast⟩
  · rintro ⟨hfront, hlast⟩
    exact ⟨_, hfront, rfl, hlast⟩

theorem Segment.congr (segment : Segment next head nodes finish)
    (h : ∀ node, node ∈ nodes → other node = next node) :
    Segment other head nodes finish := by
  induction nodes generalizing head with
  | nil => exact segment
  | cons node rest ih =>
      refine ⟨segment.1, ?_⟩
      rw [h node (by simp)]
      exact ih segment.2 fun later hlater => h later (by simp [hlater])

theorem Segment.head_eq (segment : Segment next head nodes finish)
    (hne : nodes ≠ []) : head = nodes.head? := by
  cases nodes with
  | nil => contradiction
  | cons node rest => exact segment.1

theorem Linked.head_eq (linked : Linked next head nodes) :
    head = nodes.head? := by
  cases nodes with
  | nil => exact linked
  | cons node rest => exact linked.1

theorem Linked.unique {first second : List α}
    (hfirst : Linked next head first) (hsecond : Linked next head second) :
    first = second := by
  induction first generalizing head second with
  | nil =>
      cases second with
      | nil => rfl
      | cons node rest => cases hfirst.symm.trans hsecond.1
  | cons node rest ih =>
      cases second with
      | nil => cases hsecond.symm.trans hfirst.1
      | cons node' rest' =>
          obtain rfl : node = node' :=
            Option.some.inj (hfirst.1.symm.trans hsecond.1)
          rw [ih hfirst.2 hsecond.2]

theorem Linked.nodup (linked : Linked next head nodes) : nodes.Nodup := by
  induction nodes generalizing head with
  | nil => exact List.nodup_nil
  | cons node rest ih =>
      refine List.nodup_cons.mpr ⟨?_, ih linked.2⟩
      intro hmem
      obtain ⟨front, back, rfl⟩ := List.append_of_mem hmem
      obtain ⟨seam, _, hback⟩ := segment_append.mp linked.2
      -- the list behind the second visit is the list behind the first
      have hsame := Linked.unique linked.2 hback.2
      have hlength := congrArg List.length hsame
      simp at hlength
      omega

theorem Queue.singleton {added : α} (hadded : next added = none) :
    Queue next (some added) (some added) [added] :=
  ⟨⟨rfl, hadded⟩, rfl⟩

section Update

variable [DecidableEq α] {start added removed last : α}

theorem segment_update_of_notMem {link : Option α} (hfresh : start ∉ nodes) :
    Segment (Function.update next start link) head nodes finish ↔
      Segment next head nodes finish := by
  have hsame : ∀ node, node ∈ nodes →
      Function.update next start link node = next node := by
    intro node hnode
    exact Function.update_of_ne (by rintro rfl; exact hfresh hnode) ..
  exact ⟨fun h => h.congr fun node hnode => (hsame node hnode).symm,
    fun h => h.congr hsame⟩

theorem Segment.insert (segment : Segment next (next start) nodes finish)
    (hstart : added ≠ start) (hadded : added ∉ nodes)
    (hfresh : start ∉ nodes) :
    Segment (Function.update (Function.update next added (next start)) start
      (some added)) (some added) (added :: nodes) finish := by
  refine ⟨rfl, ?_⟩
  rw [Function.update_of_ne hstart, Function.update_self,
    segment_update_of_notMem hfresh, segment_update_of_notMem hadded]
  exact segment

theorem Segment.redirect (segment : Segment next head (front ++ [last]) finish)
    (hfresh : last ∉ front) (target : Option α) :
    Segment (Function.update next last target) head (front ++ [last])
      target := by
  rw [segment_concat] at segment ⊢
  rw [segment_update_of_notMem hfresh]
  exact ⟨segment.1, Function.update_self ..⟩

theorem Queue.push (queue : Queue next head (some last) nodes)
    (hadded : added ∉ nodes) (hlink : next added = none) :
    Queue (Function.update next last (some added)) head (some added)
      (nodes ++ [added]) := by
  obtain ⟨front, rfl⟩ : ∃ front, nodes = front ++ [last] := by
    have htail := queue.tail_eq.symm
    rw [List.getLast?_eq_some_iff] at htail
    exact htail
  have hnodup := queue.linked.nodup
  have hlast : last ∉ front := by
    rw [List.nodup_append] at hnodup
    exact fun hmem => hnodup.2.2 last hmem last (by simp) rfl
  have hne : added ≠ last := by
    rintro rfl
    exact hadded (by simp)
  refine ⟨segment_concat.mpr ⟨queue.linked.redirect hlast _, ?_⟩, by simp⟩
  rw [Function.update_of_ne hne]
  exact hlink

end Update

theorem Queue.congr (queue : Queue next head tail nodes)
    (h : ∀ node, node ∈ nodes → other node = next node) :
    Queue other head tail nodes :=
  ⟨queue.linked.congr h, queue.tail_eq⟩

theorem Queue.head_eq (queue : Queue next head tail nodes) :
    head = nodes.head? :=
  Linked.head_eq queue.linked

theorem Queue.tail_eq_none (queue : Queue next head tail nodes) :
    tail = none ↔ nodes = [] := by
  rw [queue.tail_eq, List.getLast?_eq_none_iff]

theorem Queue.pop {first : α} (queue : Queue next head tail (first :: nodes)) :
    Queue next (next first) (if next first = none then none else tail)
      nodes := by
  refine ⟨queue.linked.2, ?_⟩
  have hhead := Linked.head_eq queue.linked.2
  cases nodes with
  | nil =>
      have hnone : next first = none := hhead
      simp [hnone]
  | cons second rest =>
      rw [hhead, if_neg (by simp), queue.tail_eq]
      simp

theorem ring_nil : Ring next none [] :=
  ⟨rfl, rfl⟩

theorem ring_cons {first : α} :
    Ring next (some first) (first :: nodes) ↔
      Segment next (next first) nodes (some first) :=
  ⟨fun ring => ring.closed.2, fun segment => ⟨rfl, rfl, segment⟩⟩

theorem Ring.congr (ring : Ring next head nodes)
    (h : ∀ node, node ∈ nodes → other node = next node) :
    Ring other head nodes :=
  ⟨ring.head_eq, ring.closed.congr h⟩

/-- A circular list can be entered at any of its nodes. -/
theorem Ring.rotate {node : α} (ring : Ring next head (front ++ node :: back)) :
    Ring next (some node) (node :: (back ++ front)) := by
  obtain ⟨seam, hfront, hseam, hback⟩ := segment_append.mp ring.closed
  subst hseam
  rw [ring_cons, segment_append]
  exact ⟨head, hback, hfront⟩

end Links

end Planetoid
