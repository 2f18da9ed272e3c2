import PbsLevel2.Lib.Comebacks
import PbsLevel2.Proofs.Dispatch

/-!
# How often a task is preempted

A preempted task is put in front of the next task of its process, behind others.  So it is preempted
no more often than the plan comes back to its process behind it, and once more if no slot is left.
-/

namespace PbsLevel2

open Lib

/-- The preemptions of an errand, all but one of those of a finished one. -/
def Errand.setbacks (e : Errand) : Int :=
  e.preemptions - if e.instructionsReal ≤ e.executed then 1 else 0

/-- How often the tasks behind `u` come back to its process. -/
def comebacksBehind (u : PbsTask) (behind : List PbsTask) : Nat :=
  comebacks u.processId u.processId (behind.map PbsTask.processId)

def preemptionsOf (q : Agenda Errand) : List (Int × Int × Int) :=
  taskQueue.allotments Errand.taskId Errand.setbacks q

theorem countsYields_taskQueue {r : Int} (hr : 0 ≤ r) :
    taskQueue.CountsYields r Errand.taskId Errand.setbacks where
  serve e := by
    refine ⟨rfl, rfl, ?_⟩
    change e.preemptions - (if e.instructionsReal ≤ e.executed + r then 1 else 0) ≤ _
    unfold Errand.setbacks
    by_cases hdone : e.instructionsReal ≤ e.executed
    · rw [if_pos hdone, if_pos (by omega)]
    · rw [if_neg hdone]
      split <;> omega
  yield e := by
    refine ⟨rfl, rfl, ?_⟩
    change e.preemptions + 1 - (if e.instructionsReal ≤ e.executed then 1 else 0) = _
    unfold Errand.setbacks
    omega
  settle _ _ := ⟨rfl, rfl, rfl⟩
  giveUp e hlast := by
    refine ⟨rfl, rfl, ?_⟩
    have hrun : ¬ e.instructionsReal ≤ e.executed := mt decide_eq_true hlast
    change e.preemptions + 1 - (if e.instructionsReal ≤ e.instructionsReal then 1 else 0) ≤ _
    rw [Errand.setbacks, if_pos le_rfl, if_neg hrun]
    omega

/-- The id and the process of a task, with its preemptions. -/
def PbsTask.preemptionMark (t : PbsTask) : Int × Int × Int :=
  (t.taskId, t.processId, t.errand.setbacks)

theorem Layout.preemptionsOf_eq {p : PbsPlan} {done todo tail : List PbsTask}
    (hl : Layout p done todo tail) :
    preemptionsOf p.queue = p.liveTasks.map PbsTask.preemptionMark := by
  rw [preemptionsOf, Discipline.allotments, hl.queue_jobs, List.map_map]
  rfl

theorem PbsTask.Fresh.setbacks {t : PbsTask} (h : t.Fresh) : t.errand.setbacks ≤ 0 := by
  change t.wasPreempted - (if t.instructionsReal ≤ t.instructionsRetiredTask then 1 else 0) ≤ 0
  rw [h.wasPreempted]
  split <;> omega

/-- The preemptions of a task and the comebacks to its process that are left behind it are together
at most the comebacks behind it in the parsed plan, and one more when it is finished: a preemption
that finds no slot finishes it.  So no task is preempted for ever. -/
theorem preemptions_run {b : Build} {text : List Char} {pmu : Nat → Int} {s t : System} {k : Nat}
    (hparse : parsePlan text zeroedPlan = .ok s.plan) (hadmissible : Admissible s.plan)
    (hdistinct : DistinctIds s.plan) (hprocesses : 1 ≤ s.plan.numProcesses)
    (hplanned : ∀ u ∈ s.plan.parsedTasks, 0 < u.instructionsPlanned) (hpmu : ∀ k, 0 < pmu k)
    (ht : runTicks b pmu s k = .ok t) {before behind : List PbsTask} {u : PbsTask}
    (hsplit : t.plan.liveTasks = before ++ u :: behind) :
    ∃ before' u' behind', s.plan.parsedTasks = before' ++ u' :: behind' ∧
      u'.taskId = u.taskId ∧ u'.processId = u.processId ∧
      u.wasPreempted + comebacksBehind u behind ≤ comebacksBehind u' behind' +
        if u.instructionsReal ≤ u.instructionsRetiredTask then 1 else 0 := by
  have ho : Ready s.plan :=
    ⟨parsePlan_parsed hparse, hadmissible, hdistinct, hprocesses, hplanned⟩
  have hnone : NoneFavoured (preemptionsOf t.plan.queue) (preemptionsOf s.plan.queue) :=
    run_invariant
      (I := fun v => NoneFavoured (preemptionsOf v.plan.queue) (preemptionsOf s.plan.queue))
      (.refl _) (fun j _ v w hv hI htick => by
        rw [ho.queue_tick hparse hpmu hv htick]
        exact (Discipline.step_noneFavoured (countsYields_taskQueue (hpmu j).le)).trans hI) ht
  obtain ⟨_, ⟨_, _, _, hv, _⟩, _⟩ :=
    kept_true.reached hparse hadmissible (fun k => (hpmu k).le) trivial ht
  have hv₀ := (ho.parsed.valid hadmissible).toLayout
  rw [hv.toLayout.preemptionsOf_eq, hv₀.preemptionsOf_eq, hv₀.liveTasks_eq, List.nil_append,
    hsplit] at hnone
  have hallots : Allots u.taskId u.processId (u.errand.setbacks + comebacksBehind u behind)
      ((before ++ u :: behind).map PbsTask.preemptionMark) := by
    refine ⟨before.map PbsTask.preemptionMark, u.errand.setbacks,
      behind.map PbsTask.preemptionMark, List.map_append, ?_⟩
    rw [List.map_map]
    rfl
  obtain ⟨_, ⟨marked, v, rest, hmarked, rfl⟩, hle⟩ := hnone _ _ _ hallots
  obtain ⟨before', rest', hparsed, rfl, hrest⟩ := List.map_eq_append_iff.1 hmarked
  obtain ⟨u', behind', rfl, hu', rfl⟩ := List.map_eq_cons_iff.1 hrest
  obtain ⟨hid, hmark⟩ := Prod.mk.inj hu'
  obtain ⟨hpid, rfl⟩ := Prod.mk.inj hmark
  refine ⟨before', u', behind', hparsed, hid, hpid, ?_⟩
  have hmem : u' ∈ s.plan.parsedTasks := by
    rw [hparsed]
    exact List.mem_append_right _ List.mem_cons_self
  have hfresh := (ho.parsed.fresh u' hmem).setbacks
  have hback : comebacksBehind u' behind' = comebacks u.processId u.processId
      ((behind'.map PbsTask.preemptionMark).map fun e => e.2.1) := by
    rw [comebacksBehind, hpid, List.map_map]
    rfl
  have hcount : u.errand.setbacks =
      u.wasPreempted - if u.instructionsReal ≤ u.instructionsRetiredTask then 1 else 0 := rfl
  rw [← hback, hcount] at hle
  omega

set_option maxRecDepth 4000 in
/-- The plan comes back to the process of task 0 once: task 0 gives way up to task 2, and is
preempted once more without a slot. -/
theorem preemptions_run_gaveUp :
    ∃ p t, parsePlan "2;0,0;1,0;;;0,0,2,90000000;1,1,2,2;0,2,2,2;".toList zeroedPlan = .ok p ∧
      runTicks .userland everyTick ⟨p, zeroedSignals⟩ 12 = .ok t ∧
      t.plan.liveTasks.map (fun u => (u.taskId, u.wasPreempted)) = [(1, 0), (0, 2), (2, 0)] ∧
      ∃ before' u' behind', p.parsedTasks = before' ++ u' :: behind' ∧ u'.taskId = 0 ∧
        u'.processId = 0 ∧ 2 ≤ comebacksBehind u' behind' + 1 := by
  obtain ⟨p, t, hp, ht, hcheck⟩ :=
    @of_onRun .userland "2;0,0;1,0;;;0,0,2,90000000;1,1,2,2;0,2,2,2;".toList everyTick 12
      (fun p t => decide (Admissible p ∧ DistinctIds p ∧ 1 ≤ p.numProcesses ∧
          (∀ u ∈ p.parsedTasks, 0 < u.instructionsPlanned) ∧
          t.plan.liveTasks.map (fun u => (u.taskId, u.processId, u.wasPreempted)) =
            [(1, 1, 0), (0, 0, 2), (2, 0, 0)]))
      (by decide +kernel)
  obtain ⟨hadmissible, hdistinct, hprocesses, hplanned, hlive⟩ := of_decide_eq_true hcheck
  obtain ⟨v, _, hlist, hv, hlive⟩ := List.map_eq_cons_iff.1 hlive
  obtain ⟨u, _, rfl, hu, hlive⟩ := List.map_eq_cons_iff.1 hlive
  obtain ⟨w, _, rfl, hw, hlive⟩ := List.map_eq_cons_iff.1 hlive
  obtain rfl := List.map_eq_nil_iff.1 hlive
  simp only [Prod.mk.injEq] at hv hu hw
  have hsplit : t.plan.liveTasks = [v] ++ u :: [w] := hlist
  obtain ⟨before', u', behind', hparsed, hid, hpid, hle⟩ :=
    preemptions_run (s := ⟨p, zeroedSignals⟩) hp hadmissible hdistinct hprocesses hplanned
      (fun _ => show 0 < insPerTick by decide) ht hsplit
  refine ⟨p, t, hp, ht, by simp [hlist, hv, hu, hw], before', u', behind', hparsed,
    hid.trans hu.1, hpid.trans hu.2.1, ?_⟩
  rw [hu.2.2] at hle
  split at hle <;> omega

end PbsLevel2
