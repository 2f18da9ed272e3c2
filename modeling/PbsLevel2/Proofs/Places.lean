import PbsLevel2.Lib.Overtaking
import PbsLevel2.Proofs.Dispatch

/-!
# Who is overtaken

A preemption puts tasks into the slot of a later one, and nothing else moves anything.  So a task
that runs in its own slot is overtaken by nobody.
-/

namespace PbsLevel2

open Lib

/-- The id of a task, marked if the task runs in its own slot. -/
def PbsTask.placeMark (t : PbsTask) : Int × Bool :=
  (t.taskId, t.slotOwner = t.taskId)

/-- The ids of a queue, with a mark for those that run in their own slots. -/
def placeMarks (q : Agenda Errand) : List (Int × Bool) :=
  Discipline.marks Errand.taskId (fun e => e.slotOwner = e.taskId) q

theorem keepsHome_taskQueue :
    taskQueue.KeepsHome Errand.taskId fun e => e.slotOwner = e.taskId where
  serve _ _ := ⟨rfl, rfl, rfl⟩
  yield _ := ⟨rfl, rfl, rfl⟩
  giveUp _ := ⟨rfl, rfl⟩
  settle _ _ := ⟨rfl, decide_eq_false⟩

section Places

variable {b : Build} {text : List Char} {pmu : Nat → Int} {k : Nat} {s t u : System} {p : PbsPlan}
  {done todo rest tail : List PbsTask} {cur : PbsTask}

theorem Layout.placeMarks_eq (hl : Layout p done todo tail) : placeMarks p.queue =
    p.liveTasks.map PbsTask.placeMark := by
  rw [placeMarks, Discipline.marks, hl.queue_jobs, List.map_map]
  rfl

theorem Placed.frontDistinct (hv : Placed p done (cur :: rest) tail) (hreal : cur.taskId ≠ -1)
    (hnodup : (realIds (done ++ cur :: rest)).Nodup) :
    taskQueue.FrontDistinct Errand.taskId cur.errand (rest.map PbsTask.errand) := by
  have hids : (realIds (cur :: rest)).Nodup := by
    rw [realIds, List.map_append, List.filter_append] at hnodup
    exact hnodup.of_append_right
  have hpairs : (cur :: rest).Pairwise fun u v =>
      decide (u.taskId ≠ -1) → decide (v.taskId ≠ -1) → u.taskId ≠ v.taskId :=
    List.pairwise_map.1 (List.pairwise_filter.1 hids)
  have hpid : cur.processId ≠ -1 := mt (hv.free cur (by simp)).2 hreal
  unfold Discipline.FrontDistinct
  rw [← List.map_cons, List.pairwise_map]
  refine hpairs.imp_of_mem fun {u v} hu hv' hne hclient hclient' => ?_
  have hbusy : ∀ w ∈ cur :: rest, w.processId = cur.processId → decide (w.taskId ≠ -1) := by
    intro w hw hsame
    apply decide_eq_true
    intro hfree
    exact hpid (hsame ▸ (hv.free w (List.mem_append_right _ hw)).1 hfree)
  exact (hne (hbusy u hu hclient) (hbusy v hv' hclient')).symm

theorem Ready.front_run (ho : Ready s.plan) (hparse : parsePlan text zeroedPlan = .ok s.plan)
    (hpmu : ∀ k, 0 ≤ pmu k) (ht : runTicks b pmu s k = .ok t) :
    ∀ e l, t.plan.queue.todo = e :: l →
      ¬ taskQueue.idle e ∧ taskQueue.FrontDistinct Errand.taskId e l := by
  obtain ⟨_, ⟨done, todo, tail, hv, rfl, _⟩, hhead, hjobs⟩ :=
    kept_true.reached hparse ho.admissible hpmu trivial ht
  intro e l hqueue
  rw [hv.toLayout.queue_eq] at hqueue
  obtain ⟨cur, rest, rfl, rfl, rfl⟩ := List.map_eq_cons_iff.1 hqueue
  have hreal := hhead cur hv.readCurTask
  have hperm : ((done ++ cur :: rest).map PbsTask.job).Perm
      (s.plan.parsedTasks.map PbsTask.job) := by
    simpa [Agenda.jobs, agenda] using hjobs
  refine ⟨fun hidle => hreal (of_decide_eq_true hidle), hv.toPlaced.frontDistinct hreal ?_⟩
  exact (realIds_of_jobs hperm).nodup_iff.2 ho.distinct

theorem Ready.noneOvertaken_tick (ho : Ready s.plan)
    (hparse : parsePlan text zeroedPlan = .ok s.plan) (hpmu : ∀ k, 0 < pmu k)
    (hu : runTicks b pmu s k = .ok u) (htick : pbsRunTimerTick b (pmu k) u = .ok t) :
    NoneOvertaken (placeMarks t.plan.queue) (placeMarks u.plan.queue) := by
  have hfront := ho.front_run hparse (fun k => (hpmu k).le) hu
  rw [ho.queue_tick hparse hpmu hu htick]
  exact Discipline.step_noneOvertaken keepsHome_taskQueue fun e l h => (hfront e l h).2

end Places

/-- Nobody overtakes a task that runs in its own slot: whatever stands in front of it in a state of
the run, passed or coming, stood in front of it in the parsed plan.  So a preemption costs none but
the tasks that it moves their places. -/
theorem overtaken_run {b : Build} {text : List Char} {pmu : Nat → Int} {s t : System} {k : Nat}
    (hparse : parsePlan text zeroedPlan = .ok s.plan) (hadmissible : Admissible s.plan)
    (hdistinct : DistinctIds s.plan) (hprocesses : 1 ≤ s.plan.numProcesses)
    (hplanned : ∀ u ∈ s.plan.parsedTasks, 0 < u.instructionsPlanned) (hpmu : ∀ k, 0 < pmu k)
    (ht : runTicks b pmu s k = .ok t) {before behind : List PbsTask} {u : PbsTask}
    (hsplit : t.plan.liveTasks = before ++ u :: behind) (hhome : u.slotOwner = u.taskId) :
    ∃ before' u' behind', s.plan.parsedTasks = before' ++ u' :: behind' ∧ u'.taskId = u.taskId ∧
      (before.map PbsTask.taskId).Subperm (before'.map PbsTask.taskId) := by
  have ho : Ready s.plan :=
    ⟨parsePlan_parsed hparse, hadmissible, hdistinct, hprocesses, hplanned⟩
  have hnone : NoneOvertaken (placeMarks t.plan.queue) (placeMarks s.plan.queue) :=
    run_invariant (I := fun v => NoneOvertaken (placeMarks v.plan.queue) (placeMarks s.plan.queue))
      (.refl _) (fun j _ v w hv hI htick =>
        (ho.noneOvertaken_tick hparse hpmu hv htick).trans hI) ht
  obtain ⟨_, ⟨_, _, _, hv, _⟩, _⟩ :=
    kept_true.reached hparse hadmissible (fun k => (hpmu k).le) trivial ht
  have hv₀ := (ho.parsed.valid hadmissible).toLayout
  rw [hv.toLayout.placeMarks_eq, hv₀.placeMarks_eq, hv₀.liveTasks_eq, List.nil_append,
    hsplit] at hnone
  have hkeeps : KeepsPlace u.taskId ((before.map PbsTask.placeMark).map Prod.fst)
      ((before ++ u :: behind).map PbsTask.placeMark) := by
    refine ⟨before.map PbsTask.placeMark, behind.map PbsTask.placeMark, ?_, rfl⟩
    rw [List.map_append, List.map_cons, PbsTask.placeMark, decide_eq_true hhome]
  obtain ⟨_, ⟨marked, _, hmarked, rfl⟩, hle⟩ := hnone u.taskId _ hkeeps
  obtain ⟨before', rest, hparsed, rfl, hrest⟩ := List.map_eq_append_iff.1 hmarked
  obtain ⟨u', behind', rfl, hu', rfl⟩ := List.map_eq_cons_iff.1 hrest
  refine ⟨before', u', behind', hparsed, congrArg Prod.fst hu', ?_⟩
  rw [List.map_map, List.map_map] at hle
  exact Multiset.coe_le.1 hle

set_option maxRecDepth 4000 in
/-- Task 0 was moved behind task 1, and none but these two stand in front of task 2. -/
theorem overtaken_run_gaveWay :
    ∃ p t, parsePlan "2;0,0;1,0;;;0,0,2,90000000;1,1,2,2;0,2,2,2;".toList zeroedPlan = .ok p ∧
      runTicks .userland everyTick ⟨p, zeroedSignals⟩ 4 = .ok t ∧
      t.plan.liveTasks.map PbsTask.taskId = [1, 0, 2] ∧
      ∃ before' u' behind', p.parsedTasks = before' ++ u' :: behind' ∧ u'.taskId = 2 ∧
        [1, 0].Subperm (before'.map PbsTask.taskId) := by
  obtain ⟨p, t, hp, ht, hcheck⟩ :=
    @of_onRun .userland "2;0,0;1,0;;;0,0,2,90000000;1,1,2,2;0,2,2,2;".toList everyTick 4
      (fun p t => decide (Admissible p ∧ DistinctIds p ∧ 1 ≤ p.numProcesses ∧
          (∀ u ∈ p.parsedTasks, 0 < u.instructionsPlanned) ∧
          t.plan.liveTasks.map (fun u => (u.taskId, u.slotOwner)) = [(1, 1), (0, 2), (2, 2)]))
      (by decide +kernel)
  obtain ⟨hadmissible, hdistinct, hprocesses, hplanned, hlive⟩ := of_decide_eq_true hcheck
  obtain ⟨v, _, hlist, hv, hlive⟩ := List.map_eq_cons_iff.1 hlive
  obtain ⟨w, _, rfl, hw, hlive⟩ := List.map_eq_cons_iff.1 hlive
  obtain ⟨u, _, rfl, hu, hlive⟩ := List.map_eq_cons_iff.1 hlive
  obtain rfl := List.map_eq_nil_iff.1 hlive
  obtain ⟨hvid, _⟩ := Prod.mk.inj hv
  obtain ⟨hwid, _⟩ := Prod.mk.inj hw
  obtain ⟨huid, huslot⟩ := Prod.mk.inj hu
  have hsplit : t.plan.liveTasks = [v, w] ++ u :: [] := hlist
  obtain ⟨before', u', behind', hparsed, hu', hfront⟩ :=
    overtaken_run (s := ⟨p, zeroedSignals⟩) hp hadmissible hdistinct hprocesses hplanned
      (fun _ => show 0 < insPerTick by decide) ht hsplit (huslot.trans huid.symm)
  rw [List.map_cons, List.map_cons, List.map_nil, hvid, hwid] at hfront
  refine ⟨p, t, hp, ht, ?_, before', u', behind', hparsed, hu'.trans huid, hfront⟩
  rw [hlist, List.map_cons, List.map_cons, List.map_cons, List.map_nil, hvid, hwid, huid]

end PbsLevel2
