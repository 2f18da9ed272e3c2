import PbsLevel2.Lib.Discipline
import PbsLevel2.Proofs.Makespan

/-!
# The scheduler as a queue

What is left of the scheduler without its predictions is a queue of tasks: the front is served, and
on an overrun it gives way to the other processes.  Every run is a run of this queue, whatever was
predicted, measured as lateness or signalled; only the overruns are decided elsewhere.
-/

namespace PbsLevel2

open Lib

/-! ## The queue -/

/-- A task without its predictions: what is to be executed for which process, how much of it was,
how often it was preempted and in whose slot it runs. -/
structure Errand where
  taskId : Int
  processId : Int
  instructionsReal : Int
  executed : Int
  preemptions : Int
  slotOwner : Int
  deriving DecidableEq

def PbsTask.errand (t : PbsTask) : Errand where
  taskId := t.taskId
  processId := t.processId
  instructionsReal := t.instructionsReal
  executed := t.instructionsRetiredTask
  preemptions := t.wasPreempted
  slotOwner := t.slotOwner

/-- Tasks that run in one slot give way together, and from then on run in the slot in front of
which they were put. -/
def taskQueue : Discipline Int Errand Int where
  client e := e.processId
  idle e := e.taskId = -1
  mates e u := e.slotOwner = u.slotOwner
  serve r e := { e with executed := e.executed + r }
  finished e := e.instructionsReal ≤ e.executed
  yield e := { e with preemptions := e.preemptions + 1 }
  settle f e := { e with slotOwner := f.taskId }
  giveUp e := { e with executed := e.instructionsReal }

/-- The tasks of a plan, cut at the current one. -/
def PbsPlan.queue (p : PbsPlan) : Agenda Errand :=
  ⟨p.doneTasks.map PbsTask.errand, p.todoTasks.map PbsTask.errand⟩

def System.queue (s : System) : Agenda Errand :=
  s.plan.queue

/-- The tick from `s` finds that the current task overran its slot. -/
def overruns (b : Build) (r : Int) (s : System) : Bool :=
  match preemptionPoint b r s with
  | .ok (some _) => true
  | _ => false

section Queue

variable {p q : PbsPlan} {done todo rest tail blk ns post l m : List PbsTask}
  {cur n f t u : PbsTask} {r : Int} {b : Build} {s s' : System}

theorem errand_of_core (h : t.core = u.core) : t.errand = u.errand :=
  show t.core.errand = u.core.errand by rw [h]

theorem map_errand_of_core (h : l.map PbsTask.core = m.map PbsTask.core) :
    l.map PbsTask.errand = m.map PbsTask.errand :=
  map_of_view h fun _ => rfl

theorem errand_credited (r : Int) (t : PbsTask) :
    (credited r t).errand = taskQueue.serve r t.errand := by
  have hframe : ∀ g : PbsTask → Int, (∀ u : PbsTask, g u.frame = g u) → g (credited r t) = g t := by
    intro g hg
    rw [← hg, frame_credited, hg]
  unfold PbsTask.errand
  rw [retiredTask_credited, hframe PbsTask.taskId fun _ => rfl,
    hframe PbsTask.processId fun _ => rfl, hframe PbsTask.instructionsReal fun _ => rfl,
    hframe PbsTask.wasPreempted fun _ => rfl, hframe PbsTask.slotOwner fun _ => rfl]
  rfl

theorem Layout.queue_eq (hl : Layout p done todo tail) :
    p.queue = ⟨done.map PbsTask.errand, todo.map PbsTask.errand⟩ := by
  rw [PbsPlan.queue, hl.doneTasks_eq, hl.todoTasks_eq]

theorem Layout.queue_jobs (hl : Layout p done todo tail) :
    p.queue.jobs = p.liveTasks.map PbsTask.errand := by
  rw [hl.queue_eq, hl.liveTasks_eq, Agenda.jobs, List.map_append]

/-! ## Preemption -/

/-- The rotation of the list is the queue giving way. -/
theorem Cut.giveWay (hc : Cut cur todo blk n ns f post) (hlive : ∀ u ∈ todo, u.taskId ≠ -2) :
    taskQueue.giveWay (bump cur).errand (todo.map PbsTask.errand) =
      some ((changeTaskState n .running :: ns ++
        ((bump cur :: blk).map (hosted f.taskId) ++ f :: post)).map PbsTask.errand) := by
  obtain ⟨keep, others, hgap, hne, hkeep, hothers⟩ := hc.gap
  have htodo : todo.map PbsTask.errand = blk.map PbsTask.errand ++ keep.map PbsTask.errand ++
      (others.map PbsTask.errand ++ f.errand :: post.map PbsTask.errand) := by
    rw [hc.todo_eq, hgap]
    simp
  have hown : ∀ e ∈ blk.map PbsTask.errand ++ keep.map PbsTask.errand,
      taskQueue.client e = taskQueue.client (bump cur).errand := by
    rw [← List.map_append]
    intro e he
    obtain ⟨u, hu, rfl⟩ := List.mem_map.1 he
    rcases List.mem_append.1 hu with hu | hu
    · exact (hc.stack u hu).2.1.symm
    · exact hkeep u hu
  have hothers' : ∀ e ∈ others.map PbsTask.errand,
      taskQueue.client e ≠ taskQueue.client (bump cur).errand := by
    intro e he
    obtain ⟨u, hu, rfl⟩ := List.mem_map.1 he
    exact hothers u hu
  have hmates : ∀ e ∈ blk.map PbsTask.errand, taskQueue.mates (bump cur).errand e := by
    intro e he
    obtain ⟨u, hu, rfl⟩ := List.mem_map.1 he
    exact decide_eq_true (hc.stack u hu).2.2
  have hkeep' : ∀ e ∈ (keep.map PbsTask.errand).head?,
      ¬ taskQueue.mates (bump cur).errand e := by
    intro e he hmate
    cases keep with
    | nil => cases he
    | cons k keep =>
        obtain ⟨rfl, rfl⟩ := List.cons.inj hgap
        obtain rfl := Option.some.inj he
        apply hc.stack_end
        refine ⟨hlive n ?_, (hkeep n (by simp)).symm, of_decide_eq_true hmate⟩
        rw [hc.todo_eq]
        simp
  have hmoved : ((bump cur :: blk).map (hosted f.taskId)).map PbsTask.errand =
      ((bump cur).errand :: blk.map PbsTask.errand).map (taskQueue.settle f.errand) := by
    rw [List.map_map, ← List.map_cons, List.map_map]
    rfl
  have hstarted : (changeTaskState n .running :: ns).map PbsTask.errand =
      keep.map PbsTask.errand ++ others.map PbsTask.errand := by
    rw [← List.map_append, ← hgap]
    rfl
  have hnext : taskQueue.client f.errand = taskQueue.client (bump cur).errand := hc.next
  rw [htodo, Discipline.giveWay_eq_some hown hothers' (by simpa using hne) hnext hmates hkeep',
    List.map_append, List.map_append, hmoved, hstarted]
  rfl

theorem NoSlot.giveWay (hn : NoSlot cur todo) :
    taskQueue.giveWay (bump cur).errand (todo.map PbsTask.errand) = none := by
  obtain ⟨own, others, rfl, hown, hothers⟩ := hn
  rw [List.map_append]
  apply Discipline.giveWay_eq_none
  · intro e he
    obtain ⟨u, hu, rfl⟩ := List.mem_map.1 he
    exact hown u hu
  · intro e he
    obtain ⟨u, hu, rfl⟩ := List.mem_map.1 he
    exact hothers u hu

/-! ## A tick -/

theorem Placed.queue_skip (hv : Placed p done todo tail) (h : skipFreeSlot b p = .ok q)
    (hfirst : ∀ t ∈ q.doneTasks.head?, 0 < t.instructionsPlanned) :
    q.queue = taskQueue.skipIdle p.queue := by
  rcases hv.skip_books h hfirst with ⟨hhead, rfl⟩ | ⟨cur, rest, first, rfl, hfree, _, _, rfl⟩
  · rw [hv.toLayout.queue_eq, Discipline.skipIdle_busy]
    intro e he hidle
    cases todo with
    | nil => cases he
    | cons cur rest =>
        obtain rfl := Option.some.inj he
        exact hhead cur hv.readCurTask (of_decide_eq_true hidle)
  · have hidle : taskQueue.idle cur.errand := decide_eq_true hfree
    calc
      (p.passed done cur rest tail).queue =
          ⟨(done ++ [cur]).map PbsTask.errand, rest.map PbsTask.errand⟩ := by
        rw [hv.passed.toLayout.queue_eq, map_startHead PbsTask.errand fun _ => rfl]
      _ = taskQueue.skipIdle p.queue := by
        rw [hv.toLayout.queue_eq, List.map_cons, Discipline.skipIdle_idle hidle, List.map_append]
        rfl

theorem overruns_eq_false (hpoint : preemptionPoint b r s = .ok none) :
    overruns b r s = false := by
  rw [overruns, hpoint]

theorem overruns_eq_true (hpoint : preemptionPoint b r s = .ok (some p)) :
    overruns b r s = true := by
  rw [overruns, hpoint]

theorem finished_served (hcur : t.core = (credited r cur).core)
    (hfinished : cur.state = .finished → cur.instructionsReal ≤ cur.instructionsRetiredTask)
    (hr : 0 ≤ r) : taskQueue.finished (taskQueue.serve r cur.errand) ↔ t.state = .finished := by
  rw [← errand_credited, state_of_core hcur]
  constructor
  · intro hle
    by_contra hstate
    exact absurd (of_decide_eq_true hle) (Int.not_le.2 (credited_state hstate))
  · intro hstate
    exact decide_eq_true (credited_finished hstate hfinished hr)

theorem Placed.queue_course (hv : Placed s.plan done (cur :: rest) tail) (hr : 0 ≤ r)
    (hreal : cur.taskId ≠ -1)
    (hfinished : cur.state = .finished → cur.instructionsReal ≤ cur.instructionsRetiredTask)
    (hslot : freeSlotPoint b r s = .ok (some p)) :
    (∃ done' todo' tail', Placed p done' todo' tail') ∧
      taskQueue.skipIdle p.queue = taskQueue.step r (overruns b r s) s.plan.queue := by
  obtain ⟨done₂, cur₂, rest₂, tail₂, hcur₂, hdone₂, hrest₂, _, hcourse⟩ := hv.course hr hslot
  have hserved := (errand_of_core hcur₂).trans (errand_credited r cur)
  have hreal₂ : cur₂.taskId ≠ -1 := by
    rwa [job_taskId (job_of_core hcur₂), frame_taskId (frame_credited r cur)]
  rw [hv.toLayout.queue_eq, ← map_errand_of_core hdone₂, List.map_cons,
    ← map_errand_of_core hrest₂]
  have hlast := finished_served hcur₂ hfinished hr
  cases hcourse with
  | finished tail' hstate hpoint hv' =>
      refine ⟨⟨_, _, _, hv'⟩, ?_⟩
      rw [hv'.toLayout.queue_eq, Discipline.step_finished (hlast.2 hstate),
        ← hserved,
        map_startHead PbsTask.errand fun _ => rfl, List.map_append]
      rfl
  | rotated p₂ blk n ns f post hstate hcut hpoint hv₂ hv' =>
      have hway := hcut.giveWay fun u hu => (hv₂.live u (by simp [hu])).1
      rw [show (bump cur₂).errand = taskQueue.yield cur₂.errand from rfl, hserved] at hway
      refine ⟨⟨_, _, _, hv'⟩, ?_⟩
      rw [hv'.toLayout.queue_eq, overruns_eq_true hpoint,
        Discipline.step_gaveWay (mt hlast.1 hstate) hway]
  | gaveUp p₂ done' rest' tail' hstate hnone hpoint hv₂ hv' hdone hrest =>
      have hway := hnone.giveWay
      rw [show (bump cur₂).errand = taskQueue.yield cur₂.errand from rfl, hserved] at hway
      have hgaveUp : (credited (cur₂.instructionsReal - cur₂.instructionsRetiredTask)
          (bump cur₂)).errand = taskQueue.giveUp (taskQueue.yield cur₂.errand) := by
        have hall : cur₂.instructionsRetiredTask +
            (cur₂.instructionsReal - cur₂.instructionsRetiredTask) = cur₂.instructionsReal := by
          omega
        rw [errand_credited]
        exact congrArg (fun e => { (bump cur₂).errand with executed := e }) hall
      refine ⟨⟨_, _, _, hv'⟩, ?_⟩
      rw [hv'.toLayout.queue_eq, overruns_eq_true hpoint,
        Discipline.step_gaveUp (mt hlast.1 hstate) hway, ← hserved, List.map_cons, hgaveUp,
        map_errand_of_core (map_core_of_body hdone), map_errand_of_core (map_core_of_body hrest),
        Discipline.skipIdle_busy]
      rintro e ⟨⟩ hidle
      exact hreal₂ (of_decide_eq_true hidle)

theorem Placed.queue_tick (hv : Placed s.plan done (cur :: rest) tail) (hr : 0 ≤ r)
    (hreal : cur.taskId ≠ -1)
    (hfinished : cur.state = .finished → cur.instructionsReal ≤ cur.instructionsRetiredTask)
    (htick : pbsRunTimerTick b r s = .ok s')
    (hfirst : ∀ t ∈ s'.plan.doneTasks.head?, 0 < t.instructionsPlanned) :
    s'.plan.queue = taskQueue.step r (overruns b r s) s.plan.queue := by
  rcases hv.tick_cases hr htick with ⟨p, q, hslot, hskip, hs⟩ |
    ⟨_, hpoint, done₂, cur₂, rest₂, tail₂, hv₂, hstate₂, hcur₂, hdone₂, hrest₂, _⟩
  · obtain ⟨⟨_, _, _, hvp⟩, hqueue⟩ := hv.queue_course hr hreal hfinished hslot
    rw [hs] at hfirst ⊢
    have hskipped : q.queue = taskQueue.skipIdle p.queue := hvp.queue_skip hskip hfirst
    rw [← hqueue, ← hskipped]
    rfl
  · have hserved := (errand_of_core hcur₂).trans (errand_credited r cur)
    have hrun := mt (finished_served hcur₂ hfinished hr).1 hstate₂
    rw [hv₂.toLayout.queue_eq, hv.toLayout.queue_eq, overruns_eq_false hpoint, List.map_cons,
      List.map_cons, Discipline.step_waited hrun, hserved, map_errand_of_core hdone₂,
      map_errand_of_core hrest₂]

end Queue

/-! ## The run -/

def PbsTask.newErrand (t : PbsTask) : Errand where
  taskId := t.taskId
  processId := t.processId
  instructionsReal := t.instructionsReal
  executed := 0
  preemptions := 0
  slotOwner := t.taskId

def overrunsAt (b : Build) (pmu : Nat → Int) (s : System) (k : Nat) : Bool :=
  match runTicks b pmu s k with
  | .ok t => overruns b (pmu k) t
  | .error _ => false

section Run

variable {b : Build} {text : List Char} {s t : System} {p : PbsPlan} {pmu : Nat → Int} {k : Nat}

theorem Parsed.queue_eq (hp : Parsed p) (ha : Admissible p) :
    p.queue = ⟨[], p.parsedTasks.map PbsTask.newErrand⟩ := by
  rw [(hp.valid ha).toLayout.queue_eq, List.map_nil]
  congr 1
  refine List.map_congr_left fun t ht => ?_
  have hfresh := hp.fresh t ht
  rw [PbsTask.errand, PbsTask.newErrand, hfresh.retiredTask, hfresh.wasPreempted, hfresh.slotOwner]

theorem Ready.queue_tick (ho : Ready s.plan) (hparse : parsePlan text zeroedPlan = .ok s.plan)
    (hpmu : ∀ k, 0 < pmu k) {u : System} (hu : runTicks b pmu s k = .ok u)
    (htick : pbsRunTimerTick b (pmu k) u = .ok t) :
    t.plan.queue = taskQueue.step (pmu k) (overrunsAt b pmu s k) u.plan.queue := by
  have hpmu₀ : ∀ k, 0 ≤ pmu k := fun k => (hpmu k).le
  have hunfinished := ho.parsed.unfinished ho.admissible.entries
  obtain ⟨_, ⟨done, todo, tail, hv, _, hun⟩, hhead, _⟩ :=
    kept_unfinished.reached hparse ho.admissible hpmu₀ hunfinished hu
  cases todo with
  | nil =>
      rw [hv.toPlaced.tick_ended htick, hv.toLayout.queue_eq]
      rfl
  | cons cur rest =>
      have hbook := ho.bookable_run hparse hpmu ((run_succ_of_eq hu).trans htick)
      rw [overrunsAt, hu]
      exact hv.toPlaced.queue_tick (hpmu k).le (hhead cur hv.readCurTask)
        ((hun.ahead hv.toLayout).1 cur List.mem_cons_self) htick hbook.first

end Run

/-- Every run of the scheduler is a run of the task queue.  The queue knows the ids, processes and
real lengths of the parsed tasks, the readings and in which ticks the current task overran its slot;
what the plan predicts, and what the scheduler keeps of lateness, stress and signals, has no other
effect on who runs, on what is executed and on the order of the tasks. -/
theorem dispatch_run {b : Build} {text : List Char} {pmu : Nat → Int} {s t : System} {k : Nat}
    (hparse : parsePlan text zeroedPlan = .ok s.plan) (hadmissible : Admissible s.plan)
    (hdistinct : DistinctIds s.plan) (hprocesses : 1 ≤ s.plan.numProcesses)
    (hplanned : ∀ u ∈ s.plan.parsedTasks, 0 < u.instructionsPlanned) (hpmu : ∀ k, 0 < pmu k)
    (ht : runTicks b pmu s k = .ok t) :
    t.plan.queue = taskQueue.run pmu (overrunsAt b pmu s)
      ⟨[], s.plan.parsedTasks.map PbsTask.newErrand⟩ k := by
  have ho : Ready s.plan :=
    ⟨parsePlan_parsed hparse, hadmissible, hdistinct, hprocesses, hplanned⟩
  rw [← ho.parsed.queue_eq hadmissible]
  change t.queue = taskQueue.run pmu (overrunsAt b pmu s) s.queue k
  exact Discipline.run_refines (fun j u v hu htick => ho.queue_tick hparse hpmu hu htick) ht

set_option maxRecDepth 4000 in
/-- In the fourth tick task 0 overruns its slot and gives way to task 1, up to task 2. -/
theorem dispatch_run_gaveWay :
    ∃ p t, parsePlan "2;0,0;1,0;;;0,0,2,90000000;1,1,2,2;0,2,2,2;".toList zeroedPlan = .ok p ∧
      runTicks .userland everyTick ⟨p, zeroedSignals⟩ 4 = .ok t ∧
      t.plan.queue.todo =
        [⟨1, 1, 2, 0, 0, 1⟩, ⟨0, 0, 90000000, 40000000, 1, 2⟩, ⟨2, 0, 2, 0, 0, 2⟩] := by
  obtain ⟨p, t, hp, ht, hcheck⟩ :=
    @of_onRun .userland "2;0,0;1,0;;;0,0,2,90000000;1,1,2,2;0,2,2,2;".toList everyTick 4
      (fun p _ => decide (Admissible p ∧ DistinctIds p ∧ 1 ≤ p.numProcesses ∧
          (∀ u ∈ p.parsedTasks, 0 < u.instructionsPlanned) ∧
          (taskQueue.run everyTick (overrunsAt .userland everyTick ⟨p, zeroedSignals⟩)
            ⟨[], p.parsedTasks.map PbsTask.newErrand⟩ 4).todo =
          [⟨1, 1, 2, 0, 0, 1⟩, ⟨0, 0, 90000000, 40000000, 1, 2⟩, ⟨2, 0, 2, 0, 0, 2⟩]))
      (by decide +kernel)
  obtain ⟨hadmissible, hdistinct, hprocesses, hplanned, htodo⟩ := of_decide_eq_true hcheck
  have hqueue := dispatch_run (s := ⟨p, zeroedSignals⟩) hp hadmissible hdistinct hprocesses
    hplanned (fun _ => show 0 < insPerTick by decide) ht
  exact ⟨p, t, hp, ht, (congrArg Agenda.todo hqueue).trans htodo⟩

end PbsLevel2
