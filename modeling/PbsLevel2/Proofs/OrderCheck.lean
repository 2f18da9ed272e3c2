import PbsLevel2.Lib.Ascending
import PbsLevel2.Proofs.Order

/-!
# The order check

`order_is_kept` looks at the ids of each process, which have to ascend.  In a run of a plan that
passes the check it fails exactly when a preemption changed the order of some process.
-/

namespace PbsLevel2

open Lib

/-- The process and the id of every job that is no free slot, in the order of the list. -/
def ranks (jobs : List Job) : List (Int × Int) :=
  (jobs.filter (·.taskId ≠ -1)).map fun j => (j.processId, j.taskId)

/-- The table of the check as a function of the process id. -/
def lastIdOf (lastId : LastIds) (processId : Int) : Int :=
  if h : ProcessIndex processId then lastId.get ⟨processId.toNat, h.lt⟩ else 0

section Check

variable {p : PbsPlan} {done todo tail : List PbsTask} {cur : PbsTask} {lastId : LastIds}

theorem readLastId_eq {processId : Int} (h : ProcessIndex processId) :
    readLastId lastId processId = .ok (lastIdOf lastId processId) := by
  rw [readLastId, dif_pos h, lastIdOf, dif_pos h]

theorem writeLastId_eq (lastId : LastIds) {processId : Int} (h : ProcessIndex processId)
    (taskId : Int) : ∃ lastId', writeLastId lastId processId taskId = .ok lastId' ∧
      lastIdOf lastId' = Function.update (lastIdOf lastId) processId taskId := by
  refine ⟨_, dif_pos h, funext fun i => ?_⟩
  by_cases hi : i = processId
  · subst hi
    rw [Function.update_self, lastIdOf, dif_pos h]
    exact Vector.getElem_set_self _
  · rw [Function.update_of_ne hi, lastIdOf, lastIdOf]
    by_cases hindex : ProcessIndex i
    · rw [dif_pos hindex, dif_pos hindex]
      have hne : processId.toNat ≠ i.toNat := by
        have := h.1
        have := hindex.1
        omega
      exact Vector.getElem_set_ne _ _ hne
    · rw [dif_neg hindex, dif_neg hindex]

theorem ranks_cons (t : PbsTask) (l : List PbsTask) :
    ranks ((t :: l).map PbsTask.job) =
      if t.taskId = -1 then ranks (l.map PbsTask.job)
      else (t.processId, t.taskId) :: ranks (l.map PbsTask.job) := by
  unfold ranks
  rw [List.map_cons]
  by_cases hid : t.taskId = -1
  · rw [if_pos hid, List.filter_cons_of_neg (by simp [PbsTask.job, hid])]
  · rw [if_neg hid, List.filter_cons_of_pos (by simp [PbsTask.job, hid]), List.map_cons]
    rfl

theorem orderIsKeptFrom_eq (hcur : p.readCurTask = .ok cur) (htail : Terminates tail)
    {live : List PbsTask} (hlive : ∀ t ∈ live, t.taskId ≠ -2)
    (hpid : ∀ t ∈ live, t.taskId ≠ -1 → ProcessIndex t.processId) (lastId : LastIds) :
    orderIsKeptFrom p (live ++ tail) lastId =
      .ok (ascends (ranks (live.map PbsTask.job)) (lastIdOf lastId)) := by
  induction live generalizing lastId with
  | nil =>
      obtain ⟨t, rest, rfl, hid, _⟩ := htail
      rw [List.nil_append, orderIsKeptFrom, if_pos hid]
      rfl
  | cons t live ih =>
      have ih' := ih (fun u hu => hlive u (by simp [hu])) fun u hu => hpid u (by simp [hu])
      rw [List.cons_append, orderIsKeptFrom, if_neg (hlive t (by simp)), ranks_cons]
      by_cases hfree : t.taskId = -1
      · rw [if_pos hfree, if_pos hfree, ih']
      · have hindex := hpid t (by simp) hfree
        rw [if_neg hfree, if_neg hfree, readLastId_eq hindex, ok_bind]
        rw [ascends_cons]
        by_cases hlt : t.taskId < lastIdOf lastId t.processId
        · rw [if_pos hlt, if_pos hlt, hcur]
          rfl
        · obtain ⟨lastId', hwrite, hlast⟩ := writeLastId_eq lastId hindex t.taskId
          rw [if_neg hlt, if_neg hlt, hwrite, ok_bind, ih', hlast]

theorem Layout.orderIsKept_eq (hl : Layout p done todo tail)
    (hpid : ∀ t ∈ done ++ todo, t.taskId ≠ -1 → ProcessIndex t.processId) :
    orderIsKept p = .ok (ascends (ranks (agenda done todo).jobs) fun _ => 0) := by
  obtain ⟨cur, _, _, hcur⟩ := hl.head
  have hzero : lastIdOf (Vector.replicate _ 0) = fun _ => 0 := by
    funext i
    unfold lastIdOf
    split
    · exact Vector.getElem_replicate _
    · rfl
  rw [orderIsKept, hl.tasks, ← List.append_assoc,
    orderIsKeptFrom_eq hcur hl.terminates (fun t ht => (hl.live t ht).1) hpid, hzero,
    List.map_append]
  rfl

theorem Layout.valuesOf_ranks (hl : Layout p done todo tail)
    (hfree : ∀ t ∈ done ++ todo, t.taskId = -1 ↔ t.processId = -1) {pid : Int} (hpid : pid ≠ -1) :
    valuesOf (ranks (agenda done todo).jobs) pid = p.idsOf pid := by
  have hjobs : (agenda done todo).jobs = (done ++ todo).map PbsTask.job := by
    rw [List.map_append]
    rfl
  rw [PbsPlan.idsOf, hl.liveTasks_eq, hjobs]
  clear hl hjobs
  generalize done ++ todo = live at hfree ⊢
  induction live with
  | nil => rfl
  | cons t l ih =>
      have ih' := ih fun u hu => hfree u (by simp [hu])
      have ht := hfree t (by simp)
      rw [ranks_cons]
      by_cases hid : t.processId = pid
      · rw [if_neg (by omega), valuesOf_cons, if_pos hid, ih', List.filter_cons_of_pos (by simpa using hid),
          List.map_cons]
      · rw [List.filter_cons_of_neg (by simpa using hid), ← ih']
        by_cases hfreeT : t.taskId = -1
        · rw [if_pos hfreeT]
        · rw [if_neg hfreeT, valuesOf_cons, if_neg hid]

theorem Placed.valuesOf_ranks_idle (hv : Placed p done todo tail) :
    valuesOf (ranks (agenda done todo).jobs) (-1) = [] := by
  unfold valuesOf ranks
  rw [List.map_eq_nil_iff, List.filter_eq_nil_iff]
  intro x hx hidle
  obtain ⟨j, hj, rfl⟩ := List.mem_map.1 hx
  obtain ⟨hj, hid⟩ := List.mem_filter.1 hj
  rw [Agenda.jobs, agenda, ← List.map_append] at hj
  obtain ⟨t, ht, rfl⟩ := List.mem_map.1 hj
  exact of_decide_eq_true hid ((hv.free t ht).2 (of_decide_eq_true hidle))

theorem Placed.idsOf_idle (hv : Placed p done todo tail) : ∀ id ∈ p.idsOf (-1), id = -1 := by
  intro id hid
  rw [PbsPlan.idsOf, hv.liveTasks_eq] at hid
  obtain ⟨t, ht, rfl⟩ := List.mem_map.1 hid
  obtain ⟨ht, hpid⟩ := List.mem_filter.1 ht
  exact (hv.free t ht).2 (of_decide_eq_true hpid)

end Check

/-- The order check ends in no fault in any state a run reaches.  If the parsed plan passes it, then
it passes exactly where the tasks of every process stand in the order they had in the parsed plan. -/
theorem orderIsKept_run {text : List Char} {b : Build} {pmu : Nat → Int} {s t : System} {k : Nat}
    (hparse : parsePlan text zeroedPlan = .ok s.plan) (hadmissible : Admissible s.plan)
    (hpmu : ∀ k, 0 ≤ pmu k) (ht : runTicks b pmu s k = .ok t) :
    ∃ kept, orderIsKept t.plan = .ok kept ∧ (orderIsKept s.plan = .ok true →
      (kept = true ↔ ∀ pid, t.plan.idsOf pid = s.plan.idsOf pid)) := by
  have hparsed := parsePlan_parsed hparse
  have hv := hparsed.valid hadmissible
  obtain ⟨_, ⟨done, todo, tail, hvt, rfl, _⟩, _, hperm⟩ :=
    kept_true.reached hparse hadmissible hpmu trivial ht
  have hjobs : (agenda [] s.plan.parsedTasks).jobs.Perm (agenda done todo).jobs := hperm.symm
  have hstart : ∀ u ∈ [] ++ s.plan.parsedTasks, u.taskId ≠ -1 → ProcessIndex u.processId :=
    fun u hu hid => hparsed.pid u hu fun hpid => hid ((hv.free u hu).2 hpid)
  have hreached : ∀ u ∈ done ++ todo, u.taskId ≠ -1 → ProcessIndex u.processId := by
    intro u hu hid
    have hjob : u.job ∈ s.plan.parsedTasks.map PbsTask.job := by
      apply hperm.subset
      rw [Agenda.jobs, agenda, ← List.map_append]
      exact List.mem_map_of_mem hu
    obtain ⟨w, hw, heq⟩ := List.mem_map.1 hjob
    rw [← job_processId heq]
    exact hstart w hw (job_taskId heq ▸ hid)
  refine ⟨_, hvt.toLayout.orderIsKept_eq hreached, fun hkept => ?_⟩
  rw [hv.toLayout.orderIsKept_eq hstart] at hkept
  have hranks : (ranks (agenda [] s.plan.parsedTasks).jobs).Perm (ranks (agenda done todo).jobs) :=
    (hjobs.filter _).map _
  refine (ascends_perm_iff hranks (Except.ok.inj hkept)).trans (forall_congr' fun pid => ?_)
  by_cases hpid : pid = -1
  · -- the free slots have no ranks, and all of them have the id -1
    subst hpid
    refine iff_of_true (hvt.valuesOf_ranks_idle.trans hv.valuesOf_ranks_idle.symm) ?_
    have hids : (t.plan.idsOf (-1)).Perm (s.plan.idsOf (-1)) := by
      rw [hvt.toLayout.idsOf_eq, hv.toLayout.idsOf_eq]
      exact (hperm.filter _).map _
    have hany : ∀ l : List Int, l.Pairwise fun _ _ => True :=
      fun _ => List.pairwise_of_forall fun _ _ => trivial
    refine hids.eq_of_pairwise (fun x y hx hy _ _ => ?_) (hany _) (hany _)
    rw [hvt.idsOf_idle x hx, hv.idsOf_idle y hy]
  · rw [hvt.toLayout.valuesOf_ranks hvt.free hpid, hv.toLayout.valuesOf_ranks hv.free hpid]

set_option maxRecDepth 4000 in
/-- Tasks 0 and 1 of one process stand side by side and task 3 of it follows behind another
process: the preempted task 0 moves alone behind task 1, and the check sees it. -/
theorem orderIsKept_run_overtaken :
    ∃ p t, parsePlan "2;0,0;1,0;;;0,0,1,90000000;0,1,1,1;1,2,1,1;0,3,1,1;".toList zeroedPlan =
        .ok p ∧ orderIsKept p = .ok true ∧
      runTicks .userland everyTick ⟨p, zeroedSignals⟩ 4 = .ok t ∧ p.idsOf 0 = [0, 1, 3] ∧
      t.plan.idsOf 0 = [1, 0, 3] ∧ orderIsKept t.plan = .ok false := by
  obtain ⟨p, t, hp, ht, hcheck⟩ :=
    @of_onRun .userland "2;0,0;1,0;;;0,0,1,90000000;0,1,1,1;1,2,1,1;0,3,1,1;".toList everyTick 4
      (fun p t => decide (Admissible p ∧ p.idsOf 0 = [0, 1, 3] ∧ t.plan.idsOf 0 = [1, 0, 3]) &&
        onOk (orderIsKept p) id) (by decide +kernel)
  simp only [Bool.and_eq_true, decide_eq_true_eq] at hcheck
  obtain ⟨⟨hadmissible, hbefore, hafter⟩, hkept⟩ := hcheck
  obtain ⟨kept, hstart, hkept⟩ := of_onOk hkept
  obtain rfl : kept = true := hkept
  refine ⟨p, t, hp, hstart, ht, hbefore, hafter, ?_⟩
  obtain ⟨now, hnow, hiff⟩ := orderIsKept_run hp hadmissible everyTick_nonneg ht
  cases now with
  | false => exact hnow
  | true =>
      have heq := (hiff hstart).1 rfl 0
      rw [hbefore, hafter] at heq
      cases heq

end PbsLevel2
