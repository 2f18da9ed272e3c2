import PbsLevel2.Proofs.Runs

/-!
# The order of the tasks of a process

A preemption that moves the whole run of tasks of the current process keeps the order of
the tasks of every process.  One that moves a part of the run lets the rest overtake it.
-/

namespace PbsLevel2

open Lib

/-- The entries in front of the terminator. -/
def PbsPlan.liveTasks (p : PbsPlan) : List PbsTask :=
  p.tasks.toList.takeWhile fun t => t.taskId ≠ -2

/-- The ids of the tasks of process `pid`, in the order of the task list. -/
def PbsPlan.idsOf (p : PbsPlan) (pid : Int) : List Int :=
  (p.liveTasks.filter (·.processId = pid)).map PbsTask.taskId

/-- If the search finds an insertion slot, then the stack that moves into it is the whole run
of tasks of the current process. -/
def movesWholeRun (b : Build) (p : PbsPlan) : Bool :=
  match p.readCurTask with
  | .error _ => true
  | .ok cur =>
      match findSlotToMoveTo b cur.processId p, getStackSizePreemptedTasks p with
      | .ok (some _), .ok stackSize =>
          stackSize = (ownRun cur (p.tasks.toList.drop p.curTask)).length
      | _, _ => true

section Order

variable {p : PbsPlan} {done todo tail : List PbsTask}

theorem Layout.liveTasks_eq (hl : Layout p done todo tail) : p.liveTasks = done ++ todo := by
  obtain ⟨t, rest, rfl, hid, _⟩ := hl.terminates
  have hlive : ∀ u ∈ done ++ todo, decide (u.taskId ≠ -2) = true := fun u hu => by
    simpa using (hl.live u hu).1
  rw [PbsPlan.liveTasks, hl.tasks, ← List.append_assoc, List.takeWhile_append_of_pos hlive,
    List.takeWhile_cons_of_neg (by simpa using hid), List.append_nil]

theorem Layout.idsOf_eq (hl : Layout p done todo tail) (pid : Int) :
    p.idsOf pid =
      ((agenda done todo).jobs.filter (·.processId = pid)).map Job.taskId := by
  rw [PbsPlan.idsOf, hl.liveTasks_eq, Agenda.jobs, agenda, ← List.map_append, List.filter_map,
    List.map_map]
  rfl

/-- A stack that is the whole run moves past other processes only. -/
theorem allowedAt_of_movesWholeRun {b : Build} (h : movesWholeRun b p = true) :
    AllowedAt (Agenda.PastOthers Job.processId) p := by
  intro done cur todo tail blk n ns f post hl hc
  rw [movesWholeRun, hl.readCurTask] at h
  dsimp only at h
  rw [findSlotToMoveTo_cut hl hc, getStackSizePreemptedTasks_cut hl hc] at h
  obtain ⟨keep, others, hgap, _, hkeep, hothers, hrun⟩ := hc.ownRun_eq tail
  rw [hl.drop_curTask, List.cons_append, hrun] at h
  obtain rfl : keep = [] := by
    apply List.eq_nil_of_length_eq_zero
    simpa using h
  rw [List.nil_append] at hgap
  intro a ha g hg
  obtain ⟨u, hu, rfl⟩ := List.mem_map.1 ha
  obtain ⟨v, hv, rfl⟩ := List.mem_map.1 hg
  have hpid : u.processId = cur.processId := by
    rcases List.mem_cons.1 hu with rfl | hu
    · rfl
    · exact (hc.stack u hu).2.1.symm
  have hne : v.processId ≠ cur.processId := hothers v (hgap ▸ hv)
  exact fun heq => hne (heq.trans hpid)

theorem upheld_true : Upheld fun _ => True where
  congr := fun _ _ => trivial
  credit := fun _ _ _ _ => trivial
  signal := fun _ _ _ => trivial
  finish := fun _ _ _ => trivial
  skip := fun _ _ => trivial
  bump := fun _ _ => trivial
  rotate := fun _ _ _ _ => trivial

theorem kept_true : Kept (fun _ => True) fun _ => True :=
  upheld_true.kept

end Order

/-- Runs whose preemptions move whole runs keep the order of the tasks of every process. -/
theorem idsOf_run {text : List Char} {b : Build} {pmu : Nat → Int} {s t : System} {k : Nat}
    (hparse : parsePlan text zeroedPlan = .ok s.plan) (hadmissible : Admissible s.plan)
    (hpmu : ∀ k, 0 ≤ pmu k)
    (hwhole : ∀ j < k, ∀ u p, runTicks b pmu s j = .ok u →
      preemptionPoint b (pmu j) u = .ok (some p) → movesWholeRun b p = true)
    (ht : runTicks b pmu s k = .ok t) (pid : Int) : t.plan.idsOf pid = s.plan.idsOf pid := by
  have hparsed := parsePlan_parsed hparse
  have hv := hparsed.valid hadmissible
  obtain ⟨a, ⟨done, todo, tail, hvt, rfl, _⟩, _, hmoves⟩ :=
    kept_true.run hpmu ⟨_, _, _, hv, rfl, trivial⟩ (hparsed.headReal hadmissible)
      (fun _ _ _ _ _ _ _ _ _ => trivial)
      (fun j hj u p hu hp => allowedAt_of_movesWholeRun (hwhole j hj u p hu hp)) ht
  rw [hvt.toLayout.idsOf_eq, hv.toLayout.idsOf_eq, hmoves.filter_client]

set_option maxRecDepth 4000 in
/-- Task 0 is preempted in front of task 1 of another process and task 2 of its own. -/
theorem idsOf_run_preempted :
    ∃ p t, parsePlan "2;0,0;1,0;;;0,0,1,90000000;1,1,1,1;0,2,1,1;".toList zeroedPlan = .ok p ∧
      runTicks .userland everyTick ⟨p, zeroedSignals⟩ 4 = .ok t ∧
      t.plan.liveTasks.map PbsTask.taskId = [1, 0, 2] ∧ t.plan.idsOf 0 = p.idsOf 0 := by
  obtain ⟨p, t, hp, ht, hcheck⟩ :=
    @of_onRun .userland "2;0,0;1,0;;;0,0,1,90000000;1,1,1,1;0,2,1,1;".toList everyTick 4
      (fun p t => decide (Admissible p) &&
        allTicks (atPoint preemptionPoint (movesWholeRun .userland) .userland) .userland everyTick
          ⟨p, zeroedSignals⟩ 4 &&
        decide (t.plan.liveTasks.map PbsTask.taskId = [1, 0, 2])) (by decide +kernel)
  simp only [Bool.and_eq_true, decide_eq_true_eq] at hcheck
  obtain ⟨⟨hadmissible, hwhole⟩, hlist⟩ := hcheck
  exact ⟨p, t, hp, ht, hlist, idsOf_run hp hadmissible everyTick_nonneg
    (fun j hj u q hu hq => of_atPoint (of_allTicks hwhole hj hu) hq) ht 0⟩

set_option maxRecDepth 4000 in
/-- Tasks 0 and 1 of one process stand side by side and task 3 of it follows behind another
process: the preempted task 0 moves alone, and task 1 runs before it. -/
theorem idsOf_overtaken :
    ∃ p t, parsePlan "2;0,0;1,0;;;0,0,1,90000000;0,1,1,1;1,2,1,1;0,3,1,1;".toList zeroedPlan =
        .ok p ∧ Admissible p ∧ DistinctIds p ∧
      runTicks .userland everyTick ⟨p, zeroedSignals⟩ 4 = .ok t ∧
      p.idsOf 0 = [0, 1, 3] ∧ t.plan.idsOf 0 = [1, 0, 3] := by
  obtain ⟨p, t, hp, ht, hcheck⟩ :=
    @of_onRun .userland "2;0,0;1,0;;;0,0,1,90000000;0,1,1,1;1,2,1,1;0,3,1,1;".toList everyTick 4
      (fun p t => decide (Admissible p ∧ DistinctIds p ∧ p.idsOf 0 = [0, 1, 3] ∧
        t.plan.idsOf 0 = [1, 0, 3])) (by decide +kernel)
  simp only [decide_eq_true_eq] at hcheck
  obtain ⟨hadmissible, hdistinct, hbefore, hafter⟩ := hcheck
  exact ⟨p, t, hp, hadmissible, hdistinct, ht, hbefore, hafter⟩

end PbsLevel2
