import Mathlib.Data.List.Nodup
import Planetoid.Task.Turns

namespace Planetoid.Task

open Planetoid Program Links Arch Scheduler

/-! How often a task is dispatched while another one is Ready. -/

def dispatched (before after : Option TaskRef) (counts : TaskRef → Nat) :
    TaskRef → Nat := fun other =>
  if after = some other ∧ before ≠ some other then counts other + 1
  else counts other

/-- An interval of a run after `start` through which `task` is a Ready task of
the ring: the history at its end, with the number of dispatches of every task
in it. -/
inductive Interval (guard : History → Operation → Prop) (task : TaskRef) :
    History → (TaskRef → Nat) → Prop
  | begin {history : History}
      (reachable : runs.Reachable (fun history operation =>
        operation.AddsFresh history) history)
      (started : history.started = true) (live : task ∈ history.live)
      (ready : isReady history.state task = true) :
      Interval guard task history fun _ => 0
  | step {before after : History} {counts : TaskRef → Nat}
      {operation : Operation} (interval : Interval guard task before counts)
      (fresh : operation.AddsFresh before) (meets : guard before operation)
      (transition : runs.step before operation after)
      (live : task ∈ after.live)
      (ready : isReady after.state task = true) :
      Interval guard task after
        (dispatched before.state.currentTask after.state.currentTask counts)

/-! The order in which a task reaches the others. -/

theorem mem_of_pair {front back : List TaskRef} {first second : TaskRef}
    (nodup : (front ++ first :: back).Nodup)
    (pair : [first, second].Sublist (front ++ first :: back)) :
    second ∈ back := by
  have hnodup := List.nodup_cons.mp (List.nodup_middle.mp nodup)
  rw [List.mem_append, not_or] at hnodup
  obtain ⟨left, right, heq, hleft, hright⟩ := List.sublist_append_iff.mp pair
  cases left with
  | nil =>
      rw [List.nil_append] at heq
      subst heq
      have hback : [second].Sublist back := by
        cases hright with
        | cons _ h =>
            exact absurd (h.subset List.mem_cons_self) hnodup.1.2
        | cons_cons _ h => exact h
      exact List.singleton_sublist.mp hback
  | cons node rest =>
      rw [List.cons_append] at heq
      obtain rfl : first = node := (List.cons.inj heq).1
      exact absurd (hleft.subset List.mem_cons_self) hnodup.1.1

theorem pair_of_mem {front back : List TaskRef} {first second : TaskRef}
    (h : second ∈ back) :
    [first, second].Sublist (front ++ first :: back) :=
  ((List.singleton_sublist.mpr h).cons_cons first).trans
    (List.sublist_append_right ..)

theorem rotation_nodup {ring : List TaskRef} {task : TaskRef}
    (nodup : ring.Nodup) (member : task ∈ ring) :
    (rotation ring task).Nodup := by
  obtain ⟨front, back, rfl⟩ := List.append_of_mem member
  have hsplit := List.nodup_cons.mp (List.nodup_middle.mp nodup)
  rw [rotation_eq_of_split fun h => hsplit.1 (by simp [h])]
  exact List.nodup_append_comm.mp hsplit.2

/-- The rest of the ring, as one task and as another one sees it. -/
theorem rotation_swap {ring : List TaskRef} {task current : TaskRef}
    (nodup : ring.Nodup) (member : task ∈ ring) (member' : current ∈ ring)
    (hne : current ≠ task) :
    ∃ front back, rotation ring task = front ++ current :: back ∧
      rotation ring current = back ++ task :: front := by
  obtain ⟨front, back, rfl⟩ := List.append_of_mem member
  have hnodup := List.nodup_cons.mp (List.nodup_middle.mp nodup)
  rw [List.mem_append, not_or] at hnodup
  have hdisjoint := List.disjoint_of_nodup_append hnodup.2
  rw [rotation_eq_of_split hnodup.1.1]
  have hcurrent : current ∈ front ∨ current ∈ back := by
    rw [List.mem_append, List.mem_cons] at member'
    tauto
  rcases hcurrent with hfront | hback
  · obtain ⟨left, right, rfl⟩ := List.append_of_mem hfront
    have hsplit := List.nodup_cons.mp (List.nodup_middle.mp
      hnodup.2.of_append_left)
    refine ⟨back ++ left, right, by simp, ?_⟩
    have hring : left ++ current :: right ++ task :: back =
        left ++ current :: (right ++ task :: back) := by
      simp
    rw [hring, rotation_eq_of_split (fun h => hsplit.1 (by simp [h]))]
    simp
  · have hfront : current ∉ front := fun h => hdisjoint h hback
    obtain ⟨left, right, rfl⟩ := List.append_of_mem hback
    have hsplit := List.nodup_cons.mp (List.nodup_middle.mp
      hnodup.2.of_append_right)
    refine ⟨left, right ++ front, by simp, ?_⟩
    have hring : front ++ task :: (left ++ current :: right) =
        (front ++ task :: left) ++ current :: right := by
      simp
    rw [hring, rotation_eq_of_split ?_]
    · simp
    · intro h
      rw [List.mem_append, List.mem_cons] at h
      rcases h with h | h | h
      · exact hfront h
      · exact hne h
      · exact hsplit.1 (by simp [h])

theorem rotation_erase {ring : List TaskRef} {task removed : TaskRef}
    (nodup : ring.Nodup) (member : task ∈ ring) (hne : removed ≠ task) :
    rotation (ring.erase removed) task =
      (rotation ring task).erase removed := by
  obtain ⟨front, back, rfl⟩ := List.append_of_mem member
  have hnodup := List.nodup_cons.mp (List.nodup_middle.mp nodup)
  rw [List.mem_append, not_or] at hnodup
  have hdisjoint := List.disjoint_of_nodup_append hnodup.2
  rw [rotation_eq_of_split hnodup.1.1]
  by_cases hfront : removed ∈ front
  · have hback : removed ∉ back := fun h => hdisjoint hfront h
    rw [List.erase_append_left _ hfront, List.erase_append_right _ hback,
      rotation_eq_of_split fun h => hnodup.1.1 (List.mem_of_mem_erase h)]
  · have htask : ¬ (task == removed) = true := by
      simpa using Ne.symm hne
    rw [List.erase_append_right _ hfront, List.erase_cons_tail htask,
      rotation_eq_of_split hnodup.1.1]
    by_cases hback : removed ∈ back
    · rw [List.erase_append_left _ hback]
    · rw [List.erase_of_not_mem hback, List.erase_of_not_mem
        (fun h => (List.mem_append.mp h).elim hback hfront)]

theorem erase_insertSecond {ring : List TaskRef} {task : TaskRef}
    (fresh : task ∉ ring) : (insertSecond task ring).erase task = ring := by
  cases ring with
  | nil => exact List.erase_cons_head ..
  | cons head rest =>
      have hne : ¬ (head == task) = true := by
        simp only [beq_iff_eq]
        rintro rfl
        exact fresh List.mem_cons_self
      change (head :: task :: rest).erase task = _
      rw [List.erase_cons_tail hne, List.erase_cons_head]

/-- While `task` is Ready, the tasks between the current one and it were not
dispatched, and no task was dispatched twice. -/
structure Unpassed (ring : List TaskRef) (current : Option TaskRef)
    (task : TaskRef) (counts : TaskRef → Nat) : Prop where
  once : ∀ other, counts other ≤ 1
  behind : ∀ node, current = some node → node ∈ ring → ∀ other,
    [node, other].Sublist (rotation ring task) → counts other = 0
  resting : ∀ node, current = some node → node ∉ ring →
    ∀ other, counts other = 0

section

variable {ready : TaskRef → Bool} {ring after : List TaskRef}
  {current next : Option TaskRef} {task : TaskRef} {counts : TaskRef → Nat}

theorem dispatched_same (before : Option TaskRef) :
    dispatched before before counts = counts := by
  funext other
  exact if_neg fun h => h.2 h.1

theorem Unpassed.dispatch {before node : TaskRef}
    (once : ∀ other, counts other ≤ 1) (hnode : counts node = 0)
    (member : node ∈ after)
    (behind : ∀ other, [node, other].Sublist (rotation after task) →
      other ≠ node ∧ counts other = 0) :
    Unpassed after (some node) task
      (dispatched (some before) (some node) counts) := by
  refine ⟨?_, ?_, ?_⟩
  · intro other
    unfold dispatched
    split
    · rename_i h
      obtain rfl : node = other := Option.some.inj h.1
      omega
    · exact once other
  · intro other hother _ last hpair
    obtain rfl : node = other := Option.some.inj hother
    obtain ⟨hne, hzero⟩ := behind last hpair
    unfold dispatched
    rw [if_neg fun h => hne (Option.some.inj h.1).symm, hzero]
  · intro other hother outside
    obtain rfl : node = other := Option.some.inj hother
    exact absurd member outside

/-- The search behind the current task stops at `task` at the latest. -/
theorem Unpassed.found {node found : TaskRef}
    (unpassed : Unpassed ring (some node) task counts) (nodup : ring.Nodup)
    (member : task ∈ ring) (hready : ready task = true)
    (member' : node ∈ ring) (hne : node ≠ task) (hfound : found ≠ task)
    (h : (rotation ring node).find? ready = some found) :
    counts found = 0 ∧ ∀ other,
      [found, other].Sublist (rotation ring task) →
      other ≠ found ∧ counts other = 0 := by
  obtain ⟨front, back, htask, hnode⟩ :=
    rotation_swap nodup member member' hne
  have hnodup := rotation_nodup nodup member
  have hback : found ∈ back := by
    rw [hnode, List.find?_append] at h
    cases hsearch : back.find? ready with
    | some other =>
        rw [hsearch] at h
        obtain rfl : other = found := Option.some.inj h
        exact List.mem_of_find?_eq_some hsearch
    | none =>
        rw [hsearch, Option.none_or, List.find?_cons, hready] at h
        exact absurd (Option.some.inj h).symm hfound
  refine ⟨unpassed.behind node rfl member' found ?_, ?_⟩
  · rw [htask]
    exact pair_of_mem hback
  · intro other hpair
    obtain ⟨left, right, rfl⟩ := List.append_of_mem hback
    have hsplit : rotation ring task =
        (front ++ node :: left) ++ found :: right := by
      rw [htask]
      simp
    rw [hsplit] at hpair hnodup
    have hmem := mem_of_pair hnodup hpair
    refine ⟨?_, unpassed.behind node rfl member' other ?_⟩
    · rintro rfl
      have hlast := List.nodup_cons.mp (List.nodup_middle.mp hnodup)
      exact hlast.1 (by simp [hmem])
    · rw [htask]
      apply pair_of_mem
      simp [hmem]

theorem Unpassed.turn (unpassed : Unpassed ring current task counts)
    (turn : Turn ready ring current after next) (nodup : ring.Nodup)
    (member : task ∈ ring) (hready : ready task = true)
    (hcurrent : current ≠ some task) (hnext : next ≠ some task)
    (fresh : ∀ other, other ∉ ring → other ∈ after → counts other = 0) :
    Unpassed after next task (dispatched current next counts) := by
  cases turn with
  | stay =>
      rw [dispatched_same]
      exact unpassed
  | insert outside =>
      rename_i added
      rw [dispatched_same]
      have hadded : added ≠ task := by
        rintro rfl
        exact outside member
      have hmem : ∀ other, other ∈ insertSecond added ring ↔
          other = added ∨ other ∈ ring := fun other => mem_insertSecond
      have nodup' : (insertSecond added ring).Nodup :=
        (insertSecond_perm added ring).nodup_iff.mpr
          (List.nodup_cons.mpr ⟨outside, nodup⟩)
      have hrotation := rotation_erase nodup' ((hmem task).mpr (.inr member))
        hadded
      rw [erase_insertSecond outside] at hrotation
      refine ⟨unpassed.once, ?_, ?_⟩
      · intro node hnode _ other hpair
        by_cases hring : node ∈ ring
        · by_cases heq : other = added
          · subst heq
            exact fresh other outside ((hmem other).mpr (.inl rfl))
          · apply unpassed.behind node hnode hring
            have hnodeNe : node ≠ added := by
              rintro rfl
              exact outside hring
            have herased := hpair.erase added
            rw [List.erase_of_not_mem (by simp [Ne.symm hnodeNe,
              Ne.symm heq])] at herased
            rw [hrotation]
            exact herased
        · exact unpassed.resting node hnode hring other
      · intro node hnode hout
        exact unpassed.resting node hnode
          fun h => hout ((hmem node).mpr (.inr h))
  | forward hmem hfound =>
      obtain ⟨hzero, hbehind⟩ := unpassed.found nodup member hready hmem
        (fun h => hcurrent (congrArg some h))
        (fun h => hnext (congrArg some h)) hfound
      exact Unpassed.dispatch unpassed.once hzero
        ((mem_rotation nodup hmem).mp (List.mem_of_find?_eq_some hfound)).1
        hbehind
  | retire hmem hfound =>
      rename_i node found
      have hne : node ≠ task := fun h => hcurrent (congrArg some h)
      obtain ⟨hzero, hbehind⟩ := unpassed.found nodup member hready hmem hne
        (fun h => hnext (congrArg some h)) hfound
      have hlast := (mem_rotation nodup hmem).mp
        (List.mem_of_find?_eq_some hfound)
      refine Unpassed.dispatch unpassed.once hzero
        ((List.mem_erase_of_ne hlast.2).mpr hlast.1) ?_
      intro other hpair
      rw [rotation_erase nodup member hne] at hpair
      exact hbehind other (hpair.trans List.erase_sublist)
  | toIdle hmem hmissing =>
      have hother := (mem_rotation nodup hmem).mpr
        ⟨member, fun h => hcurrent (congrArg some h.symm)⟩
      have hnone := List.find?_eq_none.mp hmissing task hother
      exact absurd hready hnone
  | fromIdle outside hfound =>
      rename_i idle found
      have hzero := unpassed.resting idle rfl outside
      refine Unpassed.dispatch unpassed.once (hzero found)
        (List.mem_of_find?_eq_some hfound) ?_
      intro other hpair
      refine ⟨?_, hzero other⟩
      rintro rfl
      have hpairNodup := (rotation_nodup nodup member).sublist hpair
      simp at hpairNodup

end

structure Waited (task : TaskRef) (history : History)
    (counts : TaskRef → Nat) (layout : Layout) : Prop where
  consistent : Consistent history layout
  started : history.started = true
  live : task ∈ history.live
  ready : isReady history.state task = true
  known : ∀ other, counts other ≠ 0 →
    other ∈ history.live ∨ other ∈ history.terminated
  unpassed : Unpassed layout.ring history.state.currentTask task counts

theorem Consistent.ready_ne_current {history : History} {layout : Layout}
    (consistent : Consistent history layout) {task : TaskRef}
    (live : task ∈ history.live) (ready : isReady history.state task = true) :
    history.state.currentTask ≠ some task := by
  intro hcurrent
  have hrunning := (consistent.wellFormed.running_iff task
    ((consistent.live_iff task).mpr live)).mpr hcurrent
  have hready : stateOf history.state task = .ready := isReady_iff.mp ready
  rw [hrunning] at hready
  cases hready

/-- The tasks of the past are those of the present and the terminated ones. -/
theorem Operation.record_known (operation : Operation) (history : History)
    (after : State) {task : TaskRef}
    (h : task ∈ history.live ∨ task ∈ history.terminated) :
    task ∈ (operation.record history after).live ∨
      task ∈ (operation.record history after).terminated := by
  cases operation with
  | addTask added => exact h.imp_left (List.mem_cons_of_mem _)
  | blockCurrent queue =>
      unfold Operation.record
      simp only
      split <;> exact h
  | terminateCurrent =>
      unfold Operation.record
      simp only
      split
      · exact h
      · rename_i current _
        by_cases heq : task = current
        · exact .inr (heq ▸ List.mem_cons_self)
        · exact h.imp (List.mem_erase_of_ne heq).mpr (List.mem_cons_of_mem _)
  | _ => exact h

theorem Operation.record_started (operation : Operation) (history : History)
    (after : State) (h : history.started = true) :
    (operation.record history after).started = true := by
  cases operation with
  | start => rfl
  | blockCurrent queue =>
      unfold Operation.record
      simp only
      split <;> exact h
  | terminateCurrent =>
      unfold Operation.record
      simp only
      split <;> exact h
  | _ => exact h

theorem Operation.record_fresh {operation : Operation} {history : History}
    {after : State} (fresh : operation.AddsFresh history) {task : TaskRef}
    (hold : task ∉ history.live)
    (hnew : task ∈ (operation.record history after).live) :
    task ∉ history.terminated := by
  cases operation with
  | addTask added =>
      rcases List.mem_cons.mp hnew with heq | hmem
      · rw [heq]
        exact fresh.1
      · exact absurd hmem hold
  | blockCurrent queue =>
      unfold Operation.record at hnew
      simp only at hnew
      split at hnew <;> exact absurd hnew hold
  | terminateCurrent =>
      unfold Operation.record at hnew
      simp only at hnew
      split at hnew
      · exact absurd hnew hold
      · exact absurd (List.mem_of_mem_erase hnew) hold
  | _ => exact absurd hnew hold

theorem interval_waited {task : TaskRef} {history : History}
    {counts : TaskRef → Nat}
    (interval : Interval (fun history operation =>
      operation.KeepsTurn history) task history counts) :
    ∃ layout, Waited task history counts layout := by
  induction interval with
  | begin reachable started live ready =>
      obtain ⟨layout, consistent⟩ := reachable_consistent reachable
      exact ⟨layout, consistent, started, live, ready,
        fun _ h => absurd rfl h, fun _ => Nat.zero_le _, fun _ _ _ _ _ => rfl,
        fun _ _ _ _ => rfl⟩
  | step interval fresh meets transition live ready ih =>
      obtain ⟨layout, waited⟩ := ih
      obtain ⟨issued, entry, budget, after, ended, rfl⟩ := transition
      rename_i before counts operation
      obtain ⟨next, consistent, turn⟩ := operation_turn waited.consistent
        issued fresh meets waited.started ended
      have hcurrent := waited.consistent.ready_ne_current waited.live
        waited.ready
      have hnext := consistent.ready_ne_current live ready
      rw [operation.record_state] at hnext
      have hzero : ∀ other, other ∉ before.live →
          other ∈ (operation.record before after).live → counts other = 0 := by
        intro other hold hnew
        by_contra hcount
        rcases waited.known other hcount with h | h
        · exact hold h
        · exact Operation.record_fresh fresh hold hnew h
      have unpassed := waited.unpassed.turn turn
        waited.consistent.wellFormed.ring_nodup
        ((waited.consistent.live_iff task).mpr waited.live) waited.ready
        hcurrent hnext (by
          intro other hold hnew
          exact hzero other
            (fun h => hold ((waited.consistent.live_iff other).mpr h))
            ((consistent.live_iff other).mp hnew))
      rw [← operation.record_state before after] at unpassed
      refine ⟨next, consistent, operation.record_started before after
        waited.started, live, ready, ?_, unpassed⟩
      intro other hcount
      by_cases hdispatched : (operation.record before after).state.currentTask
          = some other
      · by_cases hring : other ∈ next.ring
        · exact .inl ((consistent.live_iff other).mp hring)
        · have hresting := unpassed.resting other hdispatched hring other
          exact absurd hresting hcount
      · apply operation.record_known
        apply waited.known
        unfold dispatched at hcount
        rwa [if_neg fun h => hdispatched h.1] at hcount

/-- While a task of the ring is Ready, no task is dispatched twice, provided
that every `terminate_current` in the interval finds the task behind the
terminated one. -/
theorem interval_dispatches_once {task : TaskRef} {history : History}
    {counts : TaskRef → Nat}
    (interval : Interval (fun history operation =>
      operation.KeepsTurn history) task history counts) (other : TaskRef) :
    counts other ≤ 1 := by
  obtain ⟨_, waited⟩ := interval_waited interval
  exact waited.unpassed.once other

/-! A ring of four tasks in the order 2, 5, 4, 3. -/

/-- Task 2 runs, task 3 is the last one behind it. -/
def fourStarted : History :=
  ((((bootHistory.perform (.addTask 2)).perform (.addTask 3)).perform
    (.addTask 4)).perform (.addTask 5)).perform .start

theorem fourStarted_reachable :
    runs.Reachable (fun history operation => operation.AddsFresh history)
      fourStarted := by
  have first : runs.Reachable
      (fun history operation => operation.AddsFresh history)
      (bootHistory.perform (.addTask 2)) :=
    reachable_perform (.initial bootHistory_initial)
      ⟨List.not_mem_nil, by decide⟩ (List.not_mem_nil : 2 ∉ []) rfl
  have second : runs.Reachable
      (fun history operation => operation.AddsFresh history)
      ((bootHistory.perform (.addTask 2)).perform (.addTask 3)) :=
    reachable_perform first ⟨List.not_mem_nil, by decide⟩
      (by decide : 3 ∉ [2]) rfl
  have third : runs.Reachable
      (fun history operation => operation.AddsFresh history)
      (((bootHistory.perform (.addTask 2)).perform (.addTask 3)).perform
        (.addTask 4)) :=
    reachable_perform second ⟨List.not_mem_nil, by decide⟩
      (by decide : 4 ∉ [3, 2]) rfl
  have fourth : runs.Reachable
      (fun history operation => operation.AddsFresh history)
      ((((bootHistory.perform (.addTask 2)).perform (.addTask 3)).perform
        (.addTask 4)).perform (.addTask 5)) :=
    reachable_perform third ⟨List.not_mem_nil, by decide⟩
      (by decide : 5 ∉ [4, 3, 2]) rfl
  exact reachable_perform fourth trivial (rfl : false = false) rfl

theorem interval_perform {guard : History → Operation → Prop}
    {task : TaskRef} {history : History} {counts : TaskRef → Nat}
    {operation : Operation} (interval : Interval guard task history counts)
    (fresh : operation.AddsFresh history) (meets : guard history operation)
    (issued : operation.Issued history) {after : State}
    (ended : (operation.program bootEntry 4).run history.state =
      .ok ((), after)) (live : task ∈ (history.perform operation).live)
    (ready : isReady (history.perform operation).state task = true) :
    Interval guard task (history.perform operation)
      (dispatched history.state.currentTask
        (history.perform operation).state.currentTask counts) := by
  refine .step interval fresh meets
    ⟨issued, bootEntry, 4, after, ended, ?_⟩ live ready
  unfold History.perform
  rw [ended]

/-- A task at the head of the ring may terminate. -/
theorem keepsTurn_of_head {history : History}
    (hhead : history.state.currentTask = history.state.taskList) :
    Operation.terminateCurrent.KeepsTurn history := by
  intro tasks current ring _ hcurrent
  obtain ⟨rest, rfl⟩ := List.head?_eq_some_iff.mp
    (ring.head_eq.symm.trans (hhead.symm.trans hcurrent))
  simp [rotation]

/-- Task 2 terminates, and task 5 sleeps while tasks 4 and 3 are Ready. -/
theorem fourStarted_dispatches_once :
    ∃ history counts, Interval (fun history operation =>
        operation.KeepsTurn history) 3 history counts ∧
      history.terminated = [2] ∧ history.state.currentTask = some 4 ∧
      counts 5 = 1 ∧ counts 4 = 1 ∧ ∀ other, counts other ≤ 1 := by
  have start : Interval (fun history operation =>
      operation.KeepsTurn history) 3 fourStarted fun _ => 0 :=
    .begin fourStarted_reachable rfl (by decide : 3 ∈ [5, 4, 3, 2]) rfl
  have first := @interval_perform _ _ _ _ .terminateCurrent start trivial
    (keepsTurn_of_head rfl) ⟨2, rfl, (by decide : 2 ∈ [5, 4, 3, 2])⟩ _ rfl
    (by decide : 3 ∈ [5, 4, 3]) rfl
  have second := @interval_perform _ _ _ _ (.sleep 1) first trivial trivial
    ⟨5, rfl, (by decide : 5 ∈ [5, 4, 3])⟩ _ rfl
    (by decide : 3 ∈ [5, 4, 3]) rfl
  exact ⟨_, _, second, rfl, rfl, rfl, rfl, interval_dispatches_once second⟩

/-- Task 4 terminates, so that task 2 runs again and hands over to task 5 a
second time, while task 3 is Ready. -/
theorem terminateCurrent_overtakes_twice :
    ∃ history counts, Interval System.unguarded 3 history counts ∧
      counts 5 = 2 := by
  have start : Interval System.unguarded 3 fourStarted fun _ => 0 :=
    .begin fourStarted_reachable rfl (by decide : 3 ∈ [5, 4, 3, 2]) rfl
  have first := @interval_perform _ _ _ _ .yield start trivial trivial
    ⟨2, rfl, (by decide : 2 ∈ [5, 4, 3, 2])⟩ _ rfl
    (by decide : 3 ∈ [5, 4, 3, 2]) rfl
  have second := @interval_perform _ _ _ _ .yield first trivial trivial
    ⟨5, rfl, (by decide : 5 ∈ [5, 4, 3, 2])⟩ _ rfl
    (by decide : 3 ∈ [5, 4, 3, 2]) rfl
  have third := @interval_perform _ _ _ _ .terminateCurrent second trivial
    trivial ⟨4, rfl, (by decide : 4 ∈ [5, 4, 3, 2])⟩ _ rfl
    (by decide : 3 ∈ [5, 3, 2]) rfl
  have fourth := @interval_perform _ _ _ _ .yield third trivial trivial
    ⟨2, rfl, (by decide : 2 ∈ [5, 3, 2])⟩ _ rfl
    (by decide : 3 ∈ [5, 3, 2]) rfl
  exact ⟨_, _, fourth, rfl⟩

end Planetoid.Task
