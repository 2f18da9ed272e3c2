import PbsLevel2.Proofs.Makespan

/-!
# Who was served

Every tick in front of the terminator serves the task it finds current: it credits the reading to
it, and the rest of its length if it gives the task up, and it may preempt it.  The counters of a
task say no more and no less than what the ticks did for it, wherever the task was moved meanwhile.
-/

namespace PbsLevel2

open Lib

/-! ## What a tick does for a task -/

/-- The instructions that were executed for a task, and how often it was preempted. -/
structure Service where
  taskId : Int
  executed : Int
  preemptions : Int

def PbsTask.service (t : PbsTask) : Service :=
  ⟨t.taskId, t.instructionsRetiredTask, t.wasPreempted⟩

def Service.add (v x : Service) : Service :=
  ⟨v.taskId, v.executed + x.executed, v.preemptions + x.preemptions⟩

/-- The rest that the preemption in `p` credits to the current task when it finds no slot. -/
def restGivenUp (b : Build) (p : PbsPlan) : Int :=
  match p.readCurTask with
  | .ok cur =>
      match findSlotToMoveTo b cur.processId p with
      | .ok none => cur.instructionsReal - cur.instructionsRetiredTask
      | _ => 0
  | .error _ => 0

/-- What the tick from `s` does for the task `taskId`, which it finds current. -/
def turnOf (b : Build) (r : Int) (s : System) (taskId : Int) : Service :=
  match preemptionPoint b r s with
  | .ok (some p) => ⟨taskId, r + restGivenUp b p, 1⟩
  | _ => ⟨taskId, r, 0⟩

/-- The turn of the tick from `s`; there is none at the terminator. -/
def turnsOf (b : Build) (r : Int) (s : System) : List Service :=
  match s.plan.readCurTask with
  | .ok cur => if cur.taskId = -2 then [] else [turnOf b r s cur.taskId]
  | .error _ => []

/-- The turns of the first `k` ticks. -/
def turnLog (b : Build) (pmu : Nat → Int) (s : System) (k : Nat) : List Service :=
  emitted (fun k => pbsRunTimerTick b (pmu k)) (fun k => turnsOf b (pmu k)) s k

def PbsPlan.services (p : PbsPlan) : List Service :=
  p.liveTasks.map PbsTask.service

section Services

variable {p q : PbsPlan} {done todo rest tail blk ns post l m : List PbsTask}
  {cur n f t u : PbsTask} {r : Int} {b : Build} {s s' : System}

theorem service_of_core (h : t.core = u.core) : t.service = u.service :=
  show t.core.service = u.core.service by rw [h]

theorem map_service_of_core (h : l.map PbsTask.core = m.map PbsTask.core) :
    l.map PbsTask.service = m.map PbsTask.service :=
  map_of_view h fun _ => rfl

theorem service_credited (r : Int) (t : PbsTask) :
    (credited r t).service = t.service.add ⟨t.taskId, r, 0⟩ := by
  rw [PbsTask.service, frame_taskId (frame_credited r t), retiredTask_credited,
    wasPreempted_credited, Service.add, Int.add_zero]
  rfl

theorem Layout.services_eq (hl : Layout p done todo tail) :
    p.services = done.map PbsTask.service ++ todo.map PbsTask.service := by
  rw [PbsPlan.services, hl.liveTasks_eq, List.map_append]

theorem turnOf_of_none (hpoint : preemptionPoint b r s = .ok none) (id : Int) :
    turnOf b r s id = ⟨id, r, 0⟩ := by
  rw [turnOf, hpoint]

theorem turnOf_cut (hpoint : preemptionPoint b r s = .ok (some p))
    (hl : Layout p done (cur :: rest) tail) (hc : Cut cur rest blk n ns f post) (id : Int) :
    turnOf b r s id = ⟨id, r, 1⟩ := by
  rw [turnOf, hpoint]
  dsimp only
  rw [restGivenUp, hl.readCurTask]
  dsimp only
  rw [findSlotToMoveTo_cut hl hc, Int.add_zero]

theorem turnOf_noSlot (hpoint : preemptionPoint b r s = .ok (some p))
    (hl : Layout p done (cur :: rest) tail) (hnone : NoSlot cur rest) (id : Int) :
    turnOf b r s id = ⟨id, r + (cur.instructionsReal - cur.instructionsRetiredTask), 1⟩ := by
  rw [turnOf, hpoint]
  dsimp only
  rw [restGivenUp, hl.readCurTask]
  dsimp only
  rw [findSlotToMoveTo_noSlot hl hnone]

theorem turnsOf_live (hl : Layout s.plan done (cur :: rest) tail) :
    turnsOf b r s = [turnOf b r s cur.taskId] := by
  rw [turnsOf, hl.readCurTask]
  exact if_neg (hl.live cur (by simp)).1

theorem turnsOf_ended (hl : Layout s.plan done [] tail) : turnsOf b r s = [] := by
  obtain ⟨cur, hcur, hid⟩ := hl.ended
  rw [turnsOf, hcur]
  exact if_pos hid

/-! ## A tick -/

/-- The counters after a turn of `cur`, in any order of the tasks. -/
def Served (x : Service) (done : List PbsTask) (cur : PbsTask) (rest : List PbsTask)
    (p : PbsPlan) : Prop :=
  p.services.Perm (done.map PbsTask.service ++
    cur.service.add x :: rest.map PbsTask.service)

theorem Placed.served_course (hv : Placed s.plan done (cur :: rest) tail) (hr : 0 ≤ r)
    (hslot : freeSlotPoint b r s = .ok (some p)) :
    (∃ done' todo' tail', Placed p done' todo' tail') ∧
      Served (turnOf b r s cur.taskId) done cur rest p := by
  obtain ⟨done₂, cur₂, rest₂, tail₂, hcur₂, hdone₂, hrest₂, _, hcourse⟩ := hv.course hr hslot
  have hservice := (service_of_core hcur₂).trans (service_credited r cur)
  unfold Served
  rw [← map_service_of_core hdone₂, ← map_service_of_core hrest₂]
  cases hcourse with
  | finished tail' hstate hpoint hv' =>
      refine ⟨⟨_, _, _, hv'⟩, ?_⟩
      rw [hv'.toLayout.services_eq, turnOf_of_none hpoint, ← hservice,
        map_startHead PbsTask.service fun _ => rfl]
      simp
  | rotated p₂ blk n ns f post hstate hcut hpoint hv₂ hv' =>
      refine ⟨⟨_, _, _, hv'⟩, ?_⟩
      have hbumped : (bump cur₂).service = cur.service.add ⟨cur.taskId, r, 1⟩ := by
        calc
          (bump cur₂).service = cur₂.service.add ⟨cur.taskId, 0, 1⟩ := by
            simp [PbsTask.service, Service.add, bump]
          _ = cur.service.add ⟨cur.taskId, r, 1⟩ := by
            rw [hservice]
            simp [Service.add]
      rw [hv'.toLayout.services_eq, turnOf_cut hpoint hv₂.toLayout hcut, ← hbumped]
      exact (hcut.view_perm_bumped f.taskId (fun _ => rfl) fun _ => rfl).append_left _
  | gaveUp p₂ done' rest' tail' hstate hnone hpoint hv₂ hv' hdone hrest =>
      refine ⟨⟨_, _, _, hv'⟩, ?_⟩
      have hgaveUp : (credited (cur₂.instructionsReal - cur₂.instructionsRetiredTask)
          (bump cur₂)).service = cur.service.add ⟨cur.taskId,
            r + (cur₂.instructionsReal - cur₂.instructionsRetiredTask), 1⟩ := by
        calc
          _ = cur₂.service.add ⟨cur.taskId,
              cur₂.instructionsReal - cur₂.instructionsRetiredTask, 1⟩ := by
            rw [service_credited]
            simp [PbsTask.service, Service.add, bump]
          _ = _ := by
            rw [hservice]
            simp [Service.add, Int.add_assoc]
      rw [hv'.toLayout.services_eq, turnOf_noSlot hpoint hv₂.toLayout hnone, ← hgaveUp,
        map_service_of_core (map_core_of_body hdone), List.map_cons,
        map_service_of_core (map_core_of_body hrest)]

theorem Placed.services_skip (hv : Placed p done todo tail) (h : skipFreeSlot b p = .ok q)
    (hfirst : ∀ t ∈ q.doneTasks.head?, 0 < t.instructionsPlanned) : q.services = p.services := by
  rcases hv.skip_books h hfirst with ⟨_, rfl⟩ | ⟨cur, rest, first, rfl, _, _, _, rfl⟩
  · rfl
  · calc
      (p.passed done cur rest tail).services = _ := hv.passed.toLayout.services_eq
      _ = p.services := by
        rw [hv.toLayout.services_eq, map_startHead PbsTask.service fun _ => rfl]
        simp

theorem Placed.served_tick (hv : Placed s.plan done (cur :: rest) tail) (hr : 0 ≤ r)
    (htick : pbsRunTimerTick b r s = .ok s')
    (hfirst : ∀ t ∈ s'.plan.doneTasks.head?, 0 < t.instructionsPlanned) :
    Served (turnOf b r s cur.taskId) done cur rest s'.plan := by
  rcases hv.tick_cases hr htick with ⟨p, q, hslot, hskip, hs⟩ |
    ⟨_, hpoint, done₂, cur₂, rest₂, tail₂, hv₂, _, hcur₂, hdone₂, hrest₂, _⟩
  · obtain ⟨⟨_, _, _, hvp⟩, hserved⟩ := hv.served_course hr hslot
    rw [hs] at hfirst ⊢
    have hsame := hvp.services_skip hskip hfirst
    change q.services.Perm _
    rw [hsame]
    exact hserved
  · unfold Served
    rw [hv₂.toLayout.services_eq, turnOf_of_none hpoint, ← service_credited,
      ← map_service_of_core hdone₂, ← map_service_of_core hrest₂, List.map_cons,
      service_of_core hcur₂]

end Services

/-! ## The run -/

/-- The counters are what the turns of the log add up to. -/
def Accounted (log : List Service) (v : Service) : Prop :=
  v.executed = total Service.taskId Service.executed v.taskId log ∧
    v.preemptions = total Service.taskId Service.preemptions v.taskId log

section Run

variable {b : Build} {text : List Char} {s t : System} {p : PbsPlan} {pmu : Nat → Int} {k : Nat}
  {log : List Service} {v x : Service} {done rest : List PbsTask} {cur : PbsTask}

theorem Accounted.other (h : Accounted log v) (hne : v.taskId ≠ x.taskId) :
    Accounted (log ++ [x]) v := by
  unfold Accounted
  rw [total_append, total_append, total_cons, total_cons, if_neg hne.symm, if_neg hne.symm, h.1,
    h.2]
  simp

theorem Accounted.add (h : Accounted log v) (heq : v.taskId = x.taskId) :
    Accounted (log ++ [x]) (v.add x) := by
  have hid : (v.add x).taskId = x.taskId := heq
  unfold Accounted
  rw [total_append, total_append, total_cons, total_cons, hid, if_pos rfl, if_pos rfl, ← heq]
  simp [Service.add, h.1, h.2]

theorem Served.accounted (h : Served x done cur rest p) (hx : x.taskId = cur.taskId)
    (hdone : ∀ u ∈ done, u.taskId ≠ cur.taskId) (hrest : ∀ u ∈ rest, u.taskId ≠ cur.taskId)
    (hlog : ∀ u ∈ done ++ cur :: rest, Accounted log u.service) :
    ∀ u ∈ p.liveTasks, Accounted (log ++ [x]) u.service := by
  intro u hu
  have hmem := h.subset (List.mem_map_of_mem hu)
  have hother : ∀ w ∈ done ++ cur :: rest, w.taskId ≠ cur.taskId → w.service = u.service →
      Accounted (log ++ [x]) u.service := by
    intro w hw hne heq
    rw [← heq]
    exact (hlog w hw).other (hx ▸ hne)
  rcases List.mem_append.1 hmem with hmem | hmem
  · obtain ⟨w, hw, heq⟩ := List.mem_map.1 hmem
    exact hother w (List.mem_append_left _ hw) (hdone w hw) heq
  · rcases List.mem_cons.1 hmem with heq | hmem
    · rw [heq]
      exact (hlog cur (by simp)).add hx.symm
    · obtain ⟨w, hw, heq⟩ := List.mem_map.1 hmem
      exact hother w (by simp [hw]) (hrest w hw) heq

theorem taskId_turnOf (b : Build) (r : Int) (s : System) (id : Int) :
    (turnOf b r s id).taskId = id := by
  unfold turnOf
  split <;> rfl

theorem Ready.accounted_run (ho : Ready s.plan) (hparse : parsePlan text zeroedPlan = .ok s.plan)
    (hpmu : ∀ k, 0 < pmu k) (ht : runTicks b pmu s k = .ok t) :
    ∀ u ∈ t.plan.liveTasks, Accounted (turnLog b pmu s k) u.service := by
  refine run_emitted (I := fun t log => ∀ u ∈ t.plan.liveTasks, Accounted log u.service)
    (fun u hu => ?_) (fun j _ t t' log hj hlog htick => ?_) ht
  · rw [(ho.parsed.valid ho.admissible).toLayout.liveTasks_eq, List.nil_append] at hu
    have hfresh := ho.parsed.fresh u hu
    exact ⟨hfresh.retiredTask, hfresh.wasPreempted⟩
  · obtain ⟨_, ⟨done, todo, tail, hv, rfl, _⟩, hhead, hjobs⟩ :=
      kept_true.reached hparse ho.admissible (fun k => (hpmu k).le) trivial hj
    rw [hv.toLayout.liveTasks_eq] at hlog
    cases todo with
    | nil =>
        rw [turnsOf_ended hv.toLayout, List.append_nil, hv.toPlaced.tick_ended htick,
          hv.toLayout.liveTasks_eq]
        exact hlog
    | cons cur rest =>
        have hreal := hhead cur hv.readCurTask
        have hperm : ((done ++ cur :: rest).map PbsTask.job).Perm
            (s.plan.parsedTasks.map PbsTask.job) := by
          simpa [Agenda.jobs, agenda] using hjobs
        obtain ⟨hdone, hrest⟩ :=
          ne_of_nodup ((realIds_of_jobs hperm).nodup_iff.2 ho.distinct) hreal
        have hbook := ho.bookable_run hparse hpmu ((run_succ_of_eq hj).trans htick)
        have hserved := hv.toPlaced.served_tick (hpmu j).le htick hbook.first
        rw [turnsOf_live hv.toLayout]
        exact hserved.accounted (taskId_turnOf b (pmu j) t cur.taskId) hdone hrest hlog

end Run

/-- The counters of every task add up what the ticks of the run did for it: the readings of the
ticks that found it current, with the rest that was credited when it was given up, and one
preemption for each tick that preempted it, wherever in the list the task was moved meanwhile. -/
theorem turns_run {b : Build} {text : List Char} {pmu : Nat → Int} {s t : System} {k : Nat}
    (hparse : parsePlan text zeroedPlan = .ok s.plan) (hadmissible : Admissible s.plan)
    (hdistinct : DistinctIds s.plan) (hprocesses : 1 ≤ s.plan.numProcesses)
    (hplanned : ∀ u ∈ s.plan.parsedTasks, 0 < u.instructionsPlanned) (hpmu : ∀ k, 0 < pmu k)
    (ht : runTicks b pmu s k = .ok t) :
    ∀ u ∈ t.plan.liveTasks,
      u.instructionsRetiredTask =
        total Service.taskId Service.executed u.taskId (turnLog b pmu s k) ∧
      u.wasPreempted = total Service.taskId Service.preemptions u.taskId (turnLog b pmu s k) :=
  Ready.accounted_run ⟨parsePlan_parsed hparse, hadmissible, hdistinct, hprocesses, hplanned⟩
    hparse hpmu ht

set_option maxRecDepth 4000 in
/-- Nine ticks find task 0 current and one of them gives it up with one quantum left. -/
theorem turns_run_preempted :
    ∃ p t, parsePlan "2;0,0;1,0;;;0,0,2,90000000;1,1,2,2;0,2,2,2;".toList zeroedPlan = .ok p ∧
      runTicks .userland everyTick ⟨p, zeroedSignals⟩ 11 = .ok t ∧
      total Service.taskId Service.executed 0
        (turnLog .userland everyTick ⟨p, zeroedSignals⟩ 11) = 100000000 ∧
      total Service.taskId Service.preemptions 0
        (turnLog .userland everyTick ⟨p, zeroedSignals⟩ 11) = 2 := by
  obtain ⟨p, t, hp, ht, hcheck⟩ :=
    @of_onRun .userland "2;0,0;1,0;;;0,0,2,90000000;1,1,2,2;0,2,2,2;".toList everyTick 11
      (fun p t => decide (Admissible p ∧ DistinctIds p ∧ 1 ≤ p.numProcesses ∧
          (∀ u ∈ p.parsedTasks, 0 < u.instructionsPlanned) ∧
          ∃ u ∈ t.plan.liveTasks, u.taskId = 0 ∧ u.instructionsRetiredTask = 100000000 ∧
            u.wasPreempted = 2)) (by decide +kernel)
  obtain ⟨hadmissible, hdistinct, hprocesses, hplanned, u, hu, hid, hretired, hcount⟩ :=
    of_decide_eq_true hcheck
  obtain ⟨hexecuted, hpreempted⟩ := turns_run (s := ⟨p, zeroedSignals⟩) hp hadmissible hdistinct
    hprocesses hplanned (fun _ => show 0 < insPerTick by decide) ht u hu
  rw [hid] at hexecuted hpreempted
  exact ⟨p, t, hp, ht, hexecuted.symm.trans hretired, hpreempted.symm.trans hcount⟩

end PbsLevel2
