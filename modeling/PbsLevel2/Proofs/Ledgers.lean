import PbsLevel2.Proofs.Owners

/-!
# The ledgers of executed instructions

A process is credited with what its current task executes, and debited when the task is
booked as finished.  Both ledgers of the tasks are compared with it: the instructions a
task executed itself, and those that were executed in its slot.
-/

namespace PbsLevel2

open Lib

/-! ## One ledger -/

/-- Every process is credited with the real lengths of its tasks before `index_cur_task` and
the counts `count` of its other tasks. -/
def Ledger (count : PbsTask → Int) (p : PbsPlan) : Prop :=
  ∀ i, ProcessIndex i → (processAt p.processes i).instructionsRetired =
    processTotal PbsTask.instructionsReal i p.doneTasks + processTotal count i p.todoTasks

/-- `count` is one of the two counters of a task. -/
structure Counter (count : PbsTask → Int) : Prop where
  planned : ∀ t planned, count { t with instructionsPlanned := planned } = count t
  moved : ∀ t owner preempted state, count
    { t with slotOwner := owner, wasPreempted := preempted, state := state } = count t

section Ledger

variable {count : PbsTask → Int} {p q : PbsPlan} {cur : PbsTask}
  {done todo tail done' todo' tail' rest : List PbsTask}

theorem Layout.ledger_iff (hl : Layout p done todo tail) :
    Ledger count p ↔ ∀ i, ProcessIndex i → (processAt p.processes i).instructionsRetired =
      processTotal PbsTask.instructionsReal i done + processTotal count i todo := by
  rw [Ledger, hl.doneTasks_eq, hl.todoTasks_eq]

theorem processTotal_of_jobs {l m : List PbsTask} (h : l.map PbsTask.job = m.map PbsTask.job)
    (i : Int) : processTotal PbsTask.instructionsReal i l =
      processTotal PbsTask.instructionsReal i m := by
  have hpid := congrArg (List.map Job.processId) h
  have hreal := congrArg (List.map Job.instructionsReal) h
  rw [List.map_map, List.map_map] at hpid hreal
  exact total_congr hpid hreal

theorem processTotal_of_count {l m : List PbsTask} (h : l.map PbsTask.job = m.map PbsTask.job)
    (hcount : l.map count = m.map count) (i : Int) :
    processTotal count i l = processTotal count i m := by
  have hpid := congrArg (List.map Job.processId) h
  rw [List.map_map, List.map_map] at hpid
  exact total_congr hpid hcount

theorem Ledger.of_lists (h : Ledger count p) (hl : Layout p done todo tail)
    (hl' : Layout q done' todo' tail')
    (hdone : done'.map PbsTask.job = done.map PbsTask.job)
    (htodo : todo'.map PbsTask.job = todo.map PbsTask.job)
    (hcount : todo'.map count = todo.map count)
    (hprocesses : ∀ i, (processAt q.processes i).instructionsRetired =
      (processAt p.processes i).instructionsRetired) : Ledger count q := by
  rw [hl'.ledger_iff]
  intro i hi
  rw [hprocesses, hl.ledger_iff.1 h i hi, processTotal_of_jobs hdone,
    processTotal_of_count htodo hcount]

theorem Ledger.congr (h : Ledger count p) (hsame : SameBooks p q) : Ledger count q := by
  rw [Ledger, PbsPlan.doneTasks, PbsPlan.todoTasks, hsame.tasks, hsame.indexCurTask,
    hsame.processes]
  exact h

theorem Ledger.signal (hc : Counter count) {factor pid : Int} (hv : Valid p done todo tail)
    (hi : ProcessIndex p.curProcess) (h : Ledger count p) :
    Ledger count (p.rescheduled done todo tail factor pid) := by
  refine h.of_lists hv.toLayout (hv.rescheduled factor pid).toLayout rfl (map_job_rescale _ _ _) ?_
    (view_updateProcess hi PbsProcess.instructionsRetired fun _ => rfl)
  rw [List.map_map]
  refine List.map_congr_left fun t _ => ?_
  change count (rescale factor pid t) = count t
  rw [rescale]
  split
  · exact hc.planned t _
  · rfl

theorem Counter.start (hc : Counter count) (t : PbsTask) : count (PbsLevel2.start t) = count t :=
  hc.moved t t.slotOwner t.wasPreempted .running

theorem Ledger.skip (hc : Counter count) (hv : Valid p done (cur :: rest) tail)
    (hfree : cur.taskId = -1) (h : Ledger count p) :
    Ledger count (p.passed done cur rest tail) := by
  rw [hv.passed.toLayout.ledger_iff]
  intro i hi
  have hpid : cur.processId ≠ i := by
    rw [(hv.free cur (by simp)).1 hfree]
    have := hi.1
    omega
  have hbefore := hv.toLayout.ledger_iff.1 h i hi
  rw [processTotal, processTotal, total_cons, if_neg hpid] at hbefore
  have hcount := processTotal_of_count (map_job_startHead rest) (map_startHead count hc.start rest) i
  rw [hcount, processTotal, processTotal, total_append, total_cons, if_neg hpid, total_nil]
  change (processAt p.processes i).instructionsRetired = _
  omega

theorem Ledger.bump (hc : Counter count) (hv : Valid p done (cur :: todo) tail)
    (h : Ledger count p) : Ledger count (p.bumped done cur (todo ++ tail)) := by
  refine h.of_lists hv.toLayout hv.bumped.toLayout rfl rfl ?_ fun _ => rfl
  rw [List.map_cons, List.map_cons]
  exact congrArg (· :: _) (hc.moved cur cur.slotOwner (cur.wasPreempted + 1) cur.state)

theorem Ledger.rotate (hc : Counter count) {blk ns post : List PbsTask} {n f : PbsTask}
    (hv : Valid p done (cur :: todo) tail) (hcur : cur.taskId ≠ -1)
    (hcut : Cut cur todo blk n ns f post) (h : Ledger count p) :
    Ledger count (p.rotated done n ns cur blk f (post ++ tail)) := by
  rw [(hv.rotated hcur hcut).toLayout.ledger_iff]
  intro i hi
  have hbefore := hv.toLayout.ledger_iff.1 h i hi
  have hgap : processTotal count i (changeTaskState n .running :: ns) =
      processTotal count i (n :: ns) :=
    processTotal_of_count (map_job_startHead (n :: ns)) (map_startHead count hc.start (n :: ns)) i
  have hstack : processTotal count i ((PbsLevel2.bump cur :: blk).map (hosted f.taskId)) =
      processTotal count i (cur :: blk) := by
    refine processTotal_of_count ?_ ?_ i
    · rw [List.map_map]
      rfl
    · rw [List.map_map, List.map_cons, List.map_cons]
      congr 1
      · exact hc.moved cur f.taskId (cur.wasPreempted + 1) cur.state
      · exact List.map_congr_left fun t _ => hc.moved t f.taskId t.wasPreempted t.state
  rw [hcut.todo_eq] at hbefore
  rw [← List.cons_append, processTotal, processTotal, total_append, total_append] at hbefore
  rw [processTotal, processTotal, total_append, total_append]
  change (processAt p.processes i).instructionsRetired = _
  simp only [processTotal] at hgap hstack
  omega

theorem Ledger.finish (hc : Counter count) (hv : Valid p done (cur :: rest) tail)
    (hcur : cur.taskId ≠ -1) (hi : ProcessIndex p.curProcess)
    (hcount : count cur = cur.instructionsRetiredSlot) (h : Ledger count p) :
    Ledger count ((p.booked (cur.instructionsRetiredSlot - cur.instructionsReal) cur).passed
      done cur rest tail) := by
  rw [(hv.booked _).passed.toLayout.ledger_iff]
  intro i hindex
  have hbefore := hv.toLayout.ledger_iff.1 h i hindex
  have hprocess : p.curProcess = cur.processId := by
    rw [hv.process cur hv.readCurTask, processOf, if_pos hcur]
  have hrest := processTotal_of_count (map_job_startHead rest) (map_startHead count hc.start rest) i
  rw [hrest, processTotal, processTotal, total_append, total_cons, total_nil]
  rw [processTotal, processTotal, total_cons] at hbefore
  change (processAt (updateProcess (updateProcess p.processes p.curProcess _) p.curProcess _)
    i).instructionsRetired = _
  rw [processAt_updateProcess _ _ hi, processAt_updateProcess _ _ hi, if_pos rfl]
  by_cases hpid : cur.processId = i
  · rw [if_pos hpid] at hbefore ⊢
    rw [if_pos (by omega)]
    rw [hprocess, hpid]
    simp only [updateRetiredInstructionsProcess, updateLatenessProcess]
    omega
  · rw [if_neg hpid] at hbefore ⊢
    rw [if_neg (by omega), processAt_updateProcess _ _ hi, if_neg (by omega)]
    omega

end Ledger

/-! ## What a task executed itself -/

section Executed

variable {p q : PbsPlan} {done rest tail : List PbsTask} {cur : PbsTask} {r : Int}

theorem counter_retiredTask : Counter PbsTask.instructionsRetiredTask :=
  ⟨fun _ _ => rfl, fun _ _ _ _ => rfl⟩

theorem Ledger.creditTask (hv : Valid p done (cur :: rest) tail) (hcur : cur.taskId ≠ -1)
    (hr : 0 ≤ r) (hq : updateRetiredInstructions r p = .ok q)
    (h : Ledger PbsTask.instructionsRetiredTask p) : Ledger PbsTask.instructionsRetiredTask q := by
  obtain ⟨done', rest', tail', hv', hd, hrest, hi, heq⟩ := hv.credit hr hq
  rw [hv'.toLayout.ledger_iff]
  intro i hindex
  have hbefore := hv.toLayout.ledger_iff.1 h i hindex
  have hprocess : p.curProcess = cur.processId := by
    rw [hv.process cur hv.readCurTask, processOf, if_pos hcur]
  have hrestcount : rest'.map PbsTask.instructionsRetiredTask =
      rest.map PbsTask.instructionsRetiredTask := by
    have h := congrArg (List.map PbsTask.instructionsRetiredTask) hrest
    rwa [List.map_map, List.map_map] at h
  rw [processTotal_of_jobs (map_job_of_body hd), processTotal, processTotal, total_cons,
    retiredTask_credited, job_processId (job_credited r cur)]
  rw [processTotal, processTotal, total_cons] at hbefore
  have htotal := processTotal_of_count (map_job_of_body hrest) hrestcount i
  rw [processTotal, processTotal] at htotal
  rw [htotal, heq]
  dsimp only
  rw [processAt_updateProcess _ _ hi]
  by_cases hpid : cur.processId = i
  · rw [if_pos hpid] at hbefore ⊢
    rw [if_pos (by omega), hprocess, hpid, updateRetiredInstructionsProcess]
    dsimp only
    omega
  · rw [if_neg hpid] at hbefore ⊢
    rw [if_neg (by omega)]
    omega

theorem kept_executed :
    Kept (fun cur => cur.instructionsRetiredTask = cur.instructionsRetiredSlot)
      (Ledger PbsTask.instructionsRetiredTask) where
  congr := fun hsame h => h.congr hsame
  credit := fun hv hcur hr hq h => h.creditTask hv hcur hr hq
  signal := fun hv hi h => h.signal counter_retiredTask hv hi
  finish := fun hv hcur hi hF h => h.finish counter_retiredTask hv hcur hi hF
  skip := fun hv hfree h => h.skip counter_retiredTask hv hfree
  bump := fun hv _ h => h.bump counter_retiredTask hv
  rotate := fun hv hcur _ hc h => h.rotate counter_retiredTask hv hcur hc

end Executed

/-- If the tick finishes the current task `c`, then what was executed in the slot of `c` is
what `c` executed itself, the reading `r` of this tick included. -/
def finishesWithOwnCount (r : Int) (c : PbsTask) : Bool :=
  c.taskId = -2 || (pbsUpdateRetiredInstructionsTask r c).state ≠ .finished ||
    c.instructionsRetiredSlot + (if c.slotOwner = c.taskId then r else 0) =
      c.instructionsRetiredTask + r

theorem Parsed.ledger {p : PbsPlan} (hp : Parsed p) (ha : Admissible p)
    {count : PbsTask → Int} (hcount : ∀ t : PbsTask, t.Fresh → count t = 0) : Ledger count p := by
  have hzero : ∀ l : List PbsTask, (∀ t ∈ l, count t = 0) → ∀ i, processTotal count i l = 0 := by
    intro l hl i
    rw [processTotal, total]
    exact List.sum_eq_zero fun x hx => by
      obtain ⟨t, ht, rfl⟩ := List.mem_map.1 hx
      exact hl t (List.mem_of_mem_filter ht)
  rw [(hp.valid ha).toLayout.ledger_iff]
  intro i _
  rw [(hp.processes i).1, hzero p.parsedTasks fun t ht => hcount t (hp.fresh t ht)]
  rfl

/-- As long as every task that is finished was executed in its own slot only, a process is
credited with the real lengths of its finished tasks and with what its other tasks executed. -/
theorem executed_run {text : List Char} {b : Build} {pmu : Nat → Int} {s t : System} {k : Nat}
    (hparse : parsePlan text zeroedPlan = .ok s.plan) (hadmissible : Admissible s.plan)
    (hpmu : ∀ k, 0 ≤ pmu k)
    (hexact : ∀ j < k, ∀ u c, runTicks b pmu s j = .ok u → u.plan.readCurTask = .ok c →
      finishesWithOwnCount (pmu j) c = true)
    (ht : runTicks b pmu s k = .ok t) (i : Int) (hi : ProcessIndex i) :
    (processAt t.plan.processes i).instructionsRetired =
      processTotal PbsTask.instructionsReal i t.plan.doneTasks +
      processTotal PbsTask.instructionsRetiredTask i t.plan.todoTasks := by
  have hparsed := parsePlan_parsed hparse
  have hF : ∀ j < k, ∀ u c, runTicks b pmu s j = .ok u → u.plan.readCurTask = .ok c →
      c.taskId ≠ -2 → (credited (pmu j) c).state = .finished →
      (credited (pmu j) c).instructionsRetiredTask = (credited (pmu j) c).instructionsRetiredSlot := by
    intro j hj u c hu hc hlive hstate
    have hcount := hexact j hj u c hu hc
    rw [state_credited] at hstate
    simp only [finishesWithOwnCount, Bool.or_eq_true, decide_eq_true_eq] at hcount
    rw [retiredTask_credited, retiredSlot_credited]
    rcases hcount with (hend | hne) | heq
    · exact absurd hend hlive
    · exact absurd hstate hne
    · exact heq.symm
  obtain ⟨_, ⟨_, _, _, _, _, hledger⟩, _⟩ := kept_executed.run hpmu
    ⟨_, _, _, hparsed.valid hadmissible, rfl,
      hparsed.ledger hadmissible fun t ht => ht.retiredTask⟩
    (hparsed.headReal hadmissible)
    (fun j hj u c hu hc hlive hstate _ => hF j hj u c hu hc hlive hstate)
    (fun _ _ _ p _ _ => allowedAt_any p) ht
  exact hledger i hi

set_option maxRecDepth 4000 in
/-- Task 0 was moved behind task 1 and task 1 has finished: both ran in their own slots. -/
theorem executed_run_moved :
    ∃ p t, parsePlan "2;0,0;1,0;;;0,0,2,90000000;1,1,2,2;0,2,2,2;".toList zeroedPlan = .ok p ∧
      runTicks .userland everyTick ⟨p, zeroedSignals⟩ 5 = .ok t ∧
      (processAt t.plan.processes 0).instructionsRetired = 40000000 ∧
      (processAt t.plan.processes 0).instructionsRetired =
        processTotal PbsTask.instructionsReal 0 t.plan.doneTasks +
        processTotal PbsTask.instructionsRetiredTask 0 t.plan.todoTasks := by
  obtain ⟨p, t, hp, ht, hcheck⟩ :=
    @of_onRun .userland "2;0,0;1,0;;;0,0,2,90000000;1,1,2,2;0,2,2,2;".toList everyTick 5
      (fun p t => decide (Admissible p) &&
        allTicks (fun r t => onCurTask t.plan (finishesWithOwnCount r)) .userland everyTick
          ⟨p, zeroedSignals⟩ 5 &&
        decide ((processAt t.plan.processes 0).instructionsRetired = 40000000)) (by decide +kernel)
  simp only [Bool.and_eq_true, decide_eq_true_eq] at hcheck
  obtain ⟨⟨hadmissible, hexact⟩, hretired⟩ := hcheck
  exact ⟨p, t, hp, ht, hretired, executed_run hp hadmissible everyTick_nonneg
    (fun j hj u c hu hc => by
      obtain ⟨c', hc', hcount⟩ := of_onCurTask (of_allTicks hexact hj hu)
      obtain rfl := Except.ok.inj (hc.symm.trans hc')
      exact hcount) ht 0 (by decide)⟩

set_option maxRecDepth 4000 in
/-- Task 0 finishes in the slot of task 2 after 90000000 instructions; its surplus is taken
from its own slot, which counts only the first 40000000 of them. -/
theorem executed_overbooked :
    ∃ p t, parsePlan "2;0,0;1,0;;;0,0,2,90000000;1,1,2,2;0,2,2,2;".toList zeroedPlan = .ok p ∧
      Admissible p ∧ DistinctIds p ∧ runTicks .userland everyTick ⟨p, zeroedSignals⟩ 10 = .ok t ∧
      (processAt t.plan.processes 0).instructionsRetired = 150000000 ∧
      processTotal PbsTask.instructionsReal 0 t.plan.doneTasks +
        processTotal PbsTask.instructionsRetiredTask 0 t.plan.todoTasks = 90000000 := by
  obtain ⟨p, t, hp, ht, hcheck⟩ :=
    @of_onRun .userland "2;0,0;1,0;;;0,0,2,90000000;1,1,2,2;0,2,2,2;".toList everyTick 10
      (fun p t => decide (Admissible p ∧ DistinctIds p ∧
        (processAt t.plan.processes 0).instructionsRetired = 150000000 ∧
        processTotal PbsTask.instructionsReal 0 t.plan.doneTasks +
          processTotal PbsTask.instructionsRetiredTask 0 t.plan.todoTasks = 90000000))
      (by decide +kernel)
  simp only [decide_eq_true_eq] at hcheck
  obtain ⟨hadmissible, hdistinct, hretired, hsum⟩ := hcheck
  exact ⟨p, t, hp, hadmissible, hdistinct, ht, hretired, hsum⟩

end PbsLevel2
