import PbsLevel2.Proofs.Rotation
import PbsLevel2.Proofs.Substitution

/-!
# Array accesses of a preemption

Which entries `move_tasks` reads and writes, and which counters `no_id_is_duplicated` uses.
-/

namespace PbsLevel2

open Lib

/-! ## `move_tasks` -/

/-- The terminator ends both searches of a preemption, and no entry in front of it ends one. -/
structure TerminatedForBoth (p : PbsPlan) : Prop where
  terminated : Terminated p
  ending : ∀ e ∈ p.terminator, e.processId = -2
  live : ∀ t ∈ p.liveTasks, t.processId ≠ -2

instance (p : PbsPlan) : Decidable (TerminatedForBoth p) :=
  decidable_of_iff (Terminated p ∧ (∀ e ∈ p.terminator, e.processId = -2) ∧
      ∀ t ∈ p.liveTasks, t.processId ≠ -2)
    ⟨fun h => ⟨h.1, h.2.1, h.2.2⟩, fun h => ⟨h.1, h.2, h.3⟩⟩

section Move

variable {p : PbsPlan} {done todo tail blk ns post : List PbsTask} {cur n f : PbsTask} {b : Build}
  {insertionSlot stackSize : Nat}

theorem TerminatedForBoth.layout (h : TerminatedForBoth p)
    (hcur : p.liveTasks[p.curTask]? = some cur) (hindex : p.indexCurTask = p.curTask) :
    ∃ todo tail, Layout p (p.liveTasks.take p.curTask) (cur :: todo) tail := by
  obtain ⟨e, rest, htasks, hid⟩ := h.terminated.tail
  obtain ⟨hlt, hget⟩ := List.getElem?_eq_some_iff.1 hcur
  have hsplit : p.liveTasks =
      p.liveTasks.take p.curTask ++ cur :: p.liveTasks.drop (p.curTask + 1) := by
    rw [← hget, List.getElem_cons_drop, List.take_append_drop]
  have hlen : (p.liveTasks.take p.curTask).length = p.curTask := by
    rw [List.length_take]
    omega
  have hterminator : p.terminator = some e := by
    rw [PbsPlan.terminator, htasks, List.find?_append,
      List.find?_eq_none.2 fun t ht => by simpa using ne_of_mem_liveTasks ht, Option.none_or,
      List.find?_cons_of_pos (by simpa using hid)]
  refine ⟨p.liveTasks.drop (p.curTask + 1), e :: rest, ?_, ?_, ?_, hlen.symm, hindex.trans hlen.symm⟩
  · rw [← List.append_assoc, ← hsplit, htasks]
  · exact ⟨e, rest, rfl, hid, h.ending e hterminator⟩
  · intro t ht
    rw [← hsplit] at ht
    exact ⟨ne_of_mem_liveTasks ht, h.live t ht⟩

theorem exists_cut_of_found (hl : Layout p done (cur :: todo) tail)
    (hslot : findSlotToMoveTo b cur.processId p = .ok (some insertionSlot)) :
    ∃ blk n ns f post, Cut cur todo blk n ns f post := by
  rcases exists_cut_or_noSlot cur todo with hcut | hno
  · exact hcut
  · rw [findSlotToMoveTo_noSlot hl hno] at hslot
    cases hslot

/-- The shift reads `stack_size` entries ahead of the insertion slot, and leaves the array unless
these are entries of it. -/
theorem Cut.moveTasks_cases (hc : Cut cur todo blk n ns f post)
    (hl : Layout p done (cur :: todo) tail) :
    (done.length + ns.length + 2 * (blk.length + 1) ≤ maxNumberTasksInPlan ∧ ∃ q,
      moveTasks (done.length + (blk.length + 1) + ns.length) (blk.length + 1) p = .ok q) ∨
    (maxNumberTasksInPlan < done.length + ns.length + 2 * (blk.length + 1) ∧
      moveTasks (done.length + (blk.length + 1) + ns.length) (blk.length + 1) p =
        .error .outOfBounds) := by
  have htasks : p.tasks.toList = done ++ ((cur :: blk) ++ (n :: ns ++ f :: (post ++ tail))) := by
    rw [hl.tasks, hc.todo_eq]
    simp
  have hstack : 1 ≤ (cur :: blk).length := by simp
  by_cases hroom : done.length + ns.length + 2 * (blk.length + 1) ≤ maxNumberTasksInPlan
  · left
    exact ⟨hroom, _, moveTasks_joint htasks hl.cur hl.index hstack hroom⟩
  · right
    have hout := Nat.lt_of_not_le hroom
    exact ⟨hout, moveTasks_outOfBounds htasks hl.cur hl.index hstack hout⟩

/-- A move reads and writes entries of the array only, if and only if the insertion slot and the
size of the stack add up to at most its length. -/
theorem moveTasks_inside_iff (h : TerminatedForBoth p)
    (hcur : p.liveTasks[p.curTask]? = some cur) (hindex : p.indexCurTask = p.curTask)
    (hslot : findSlotToMoveTo b cur.processId p = .ok (some insertionSlot))
    (hsize : getStackSizePreemptedTasks p = .ok stackSize) :
    ((∃ q, moveTasks insertionSlot stackSize p = .ok q) ↔
      insertionSlot + stackSize ≤ maxNumberTasksInPlan) ∧
    (moveTasks insertionSlot stackSize p = .error .outOfBounds ↔
      maxNumberTasksInPlan < insertionSlot + stackSize) := by
  obtain ⟨todo, tail, hl⟩ := h.layout hcur hindex
  obtain ⟨blk, n, ns, f, post, hc⟩ := exists_cut_of_found hl hslot
  have hfound := findSlotToMoveTo_cut hl hc b
  have hcount := getStackSizePreemptedTasks_cut hl hc
  obtain rfl := Option.some.inj (Except.ok.inj (hslot.symm.trans hfound))
  obtain rfl := Except.ok.inj (hsize.symm.trans hcount)
  rcases hc.moveTasks_cases hl with ⟨hroom, q, hq⟩ | ⟨hout, hfault⟩
  · rw [hq]
    constructor
    · exact iff_of_true ⟨q, rfl⟩ (by omega)
    · exact iff_of_false (fun h => nomatch h) (by omega)
  · rw [hfault]
    constructor
    · exact iff_of_false (fun ⟨_, h⟩ => nomatch h) (by omega)
    · exact iff_of_true rfl (by omega)

end Move

/-- Task 0 moves past task 1 of another process, in front of task 2. -/
theorem moveTasks_inside_iff_alone : ∃ p q, findSlotToMoveTo .userland 0 p = .ok (some 1) ∧
    getStackSizePreemptedTasks p = .ok 1 ∧ moveTasks 1 1 p = .ok q := by
  obtain ⟨p, hp⟩ : ∃ p, p = planOfTasks []
    [{ taskId := 0 }, { taskId := 1, processId := 1, slotOwner := 1 },
      { taskId := 2, slotOwner := 2 }, endTask] := ⟨_, rfl⟩
  have hboth : TerminatedForBoth p := by
    rw [hp]
    decide +kernel
  have hcur : p.liveTasks[p.curTask]? = some { taskId := 0 } := by
    rw [hp]
    decide +kernel
  have hslot : findSlotToMoveTo .userland 0 p = .ok (some 1) := by
    rw [hp]
    decide +kernel
  have hsize : getStackSizePreemptedTasks p = .ok 1 := by
    rw [hp]
    decide +kernel
  have hindex : p.indexCurTask = p.curTask := by
    rw [hp]
    rfl
  obtain ⟨q, hq⟩ := (moveTasks_inside_iff hboth hcur hindex hslot hsize).1.2 (by decide)
  exact ⟨p, q, hslot, hsize, hq⟩

/-- 399 tasks: the first four of process 0 run in the slot of task 3, and task 398 is the next of
their process. -/
def stackedTasks : List PbsTask :=
  (List.range 4).map (fun i => { taskId := i, slotOwner := 3 }) ++
    (List.range 394).map (fun i => { taskId := i + 4, processId := 1, slotOwner := i + 4 }) ++
    [{ taskId := 398, slotOwner := 398 }]

/-- The four tasks move in front of task 398, and the shift reads entry 400. -/
theorem moveTasks_outside : ∃ p, TerminatedForBoth p ∧ p.liveTasks = stackedTasks ∧
    (∃ cur, p.liveTasks[p.curTask]? = some cur ∧ cur.taskId = 0 ∧ cur.processId = 0) ∧
    p.indexCurTask = p.curTask ∧ findSlotToMoveTo .userland 0 p = .ok (some 397) ∧
    getStackSizePreemptedTasks p = .ok 4 ∧ moveTasks 397 4 p = .error .outOfBounds := by
  refine ⟨planOfTasks [] (stackedTasks ++ [endTask]), ?_, ?_, ⟨{ slotOwner := 3 }, ?_, rfl, rfl⟩,
    rfl, ?_, ?_, eq_error_of_faultOf ?_⟩
  all_goals decide +kernel

/-! ## `no_id_is_duplicated` -/

/-- The check stays inside its table and decides whether the ids are distinct, if and only if every
id of 400 and more follows a repeated one. -/
theorem noIdIsDuplicated_decides_iff {p : PbsPlan} (h : Terminated p)
    (hids : ∀ t ∈ p.liveTasks, -1 ≤ t.taskId) :
    ((∃ r, noIdIsDuplicated p = .ok r ∧ (r = true ↔ (realIds p.liveTasks).Nodup)) ↔
      CountableUpToRepetition [] p.liveTasks) ∧
    (noIdIsDuplicated p = .error .outOfBounds ↔ ¬ CountableUpToRepetition [] p.liveTasks) := by
  obtain ⟨e, rest, htasks, hid⟩ := h.tail
  have hcases := noIdIsDuplicatedFrom_cases hid hids Counts.none rest
  rw [← htasks, List.nil_append] at hcases
  unfold noIdIsDuplicated
  rcases hcases with ⟨hnot, herror⟩ | ⟨hcountable, hok⟩
  · rw [herror]
    constructor
    · exact iff_of_false (fun ⟨_, h, _⟩ => nomatch h) hnot
    · exact iff_of_true rfl hnot
  · rw [hok]
    constructor
    · exact iff_of_true ⟨_, rfl, decide_eq_true_iff⟩ hcountable
    · exact iff_of_false (fun h => nomatch h) (fun h => h hcountable)

set_option maxRecDepth 4000 in
/-- Task 7 stands in the plan twice, and the id 400 behind it. -/
theorem noIdIsDuplicated_repeated : ∃ p,
    parsePlan "1;0,0;;;0,7,10,10;-1,-1,10,0;0,7,10,10;0,400,10,10;".toList zeroedPlan = .ok p ∧
      ∃ r, noIdIsDuplicated p = .ok r ∧ (r = true ↔ (realIds p.liveTasks).Nodup) := by
  obtain ⟨p, _, hp, _, hcheck⟩ :=
    @of_onRun .userland "1;0,0;;;0,7,10,10;-1,-1,10,0;0,7,10,10;0,400,10,10;".toList everyTick 0
      (fun p _ => decide (Terminated p ∧ (∀ t ∈ p.liveTasks, -1 ≤ t.taskId) ∧
        CountableUpToRepetition [] p.liveTasks)) (by decide +kernel)
  rw [decide_eq_true_eq] at hcheck
  obtain ⟨hterminated, hids, hcountable⟩ := hcheck
  exact ⟨p, hp, (noIdIsDuplicated_decides_iff hterminated hids).1.2 hcountable⟩

set_option maxRecDepth 4000 in
/-- The only id is 400, and the table has 400 counters. -/
theorem noIdIsDuplicated_outside : ∃ p,
    parsePlan "1;0,0;;;0,400,10,10;".toList zeroedPlan = .ok p ∧ p.numTasks = 1 ∧
      (∃ t, p.liveTasks = [t] ∧ t.taskId = 400) ∧ (realIds p.liveTasks).Nodup ∧
      noIdIsDuplicated p = .error .outOfBounds := by
  obtain ⟨p, _, hp, _, hcheck⟩ :=
    @of_onRun .userland "1;0,0;;;0,400,10,10;".toList everyTick 0
      (fun p _ => decide (p.numTasks = 1 ∧ p.liveTasks.map PbsTask.taskId = [400] ∧
        (realIds p.liveTasks).Nodup ∧ faultOf (noIdIsDuplicated p) = some .outOfBounds))
      (by decide +kernel)
  rw [decide_eq_true_eq] at hcheck
  obtain ⟨hcount, hlist, hdistinct, hfault⟩ := hcheck
  obtain ⟨t, hsingle, hid⟩ := List.map_eq_singleton_iff.1 hlist
  exact ⟨p, hp, hcount, ⟨t, hsingle, hid⟩, hdistinct, eq_error_of_faultOf hfault⟩

end PbsLevel2
