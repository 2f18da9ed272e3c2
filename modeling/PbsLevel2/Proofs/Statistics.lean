import PbsLevel2.Lib.Views
import PbsLevel2.Proofs.Runs

/-!
# What the scheduler keeps for the record only

The ticks keep records that they never look at: the lateness of a task, the tasks that a process
has left, the instructions and the tasks the plan counts, its state, the clock and the signals.
Whatever these hold, the ticks take the same course; only the loop around them asks for the state.
-/

namespace PbsLevel2

open Lib

/-! ## The part that steers -/

/-- A task without its lateness. -/
def PbsTask.steering (t : PbsTask) : PbsTask :=
  { t with lateness := 0 }

/-- A process without the count of its tasks. -/
def PbsProcess.steering (q : PbsProcess) : PbsProcess :=
  { q with numTasksRemaining := 0 }

/-- A plan without its records. -/
def PbsPlan.steering (p : PbsPlan) : PbsPlan :=
  { p with
    processes := p.processes.map PbsProcess.steering
    tasks := p.tasks.map PbsTask.steering
    finishedTasks := 0
    instructionsRetired := 0
    state := .onPlan
    tickCounter := 0
    tasksFinished := 0 }

/-- A plan without its records; the signals are all left out. -/
def System.steering (s : System) : PbsPlan :=
  s.plan.steering

section Accesses

variable {p q : PbsPlan} {t u : PbsTask} {x y : PbsProcess}

theorem readTask_steered (h : p.steering = q.steering) (i : Nat) :
    AgreeOn PbsTask.steering (p.readTask i) (q.readTask i) := by
  have htasks : p.tasks.map PbsTask.steering = q.tasks.map PbsTask.steering :=
    congrArg PbsPlan.tasks h
  unfold PbsPlan.readTask
  by_cases hi : i < maxNumberTasksInPlan
  · rw [dif_pos hi, dif_pos hi]
    apply AgreeOn.ok
    rw [← Vector.getElem_map PbsTask.steering hi, htasks, Vector.getElem_map]
  · rw [dif_neg hi, dif_neg hi]
    exact .of_eq rfl

theorem readCurTask_steered (h : p.steering = q.steering) :
    AgreeOn PbsTask.steering p.readCurTask q.readCurTask := by
  have hcur := eq_of_view h PbsPlan.curTask fun _ => rfl
  unfold PbsPlan.readCurTask
  rw [hcur]
  exact readTask_steered h q.curTask

theorem writeTask_steered (h : p.steering = q.steering) (ht : t.steering = u.steering) (i : Nat) :
    AgreeOn PbsPlan.steering (p.writeTask i t) (q.writeTask i u) := by
  unfold PbsPlan.writeTask
  by_cases hi : i < maxNumberTasksInPlan
  · rw [dif_pos hi, dif_pos hi]
    apply AgreeOn.ok
    have htasks : (p.tasks.set i t hi).map PbsTask.steering =
        (q.tasks.set i u hi).map PbsTask.steering := by
      rw [Vector.map_set, Vector.map_set, ht, show p.tasks.map PbsTask.steering = _ from
        congrArg PbsPlan.tasks h]
      rfl
    calc
      { p with tasks := p.tasks.set i t hi }.steering =
          { p.steering with tasks := (p.tasks.set i t hi).map PbsTask.steering } := rfl
      _ = { q.steering with tasks := (q.tasks.set i u hi).map PbsTask.steering } := by
        rw [h, htasks]
  · rw [dif_neg hi, dif_neg hi]
    exact .of_eq rfl

theorem modifyTask_steered (h : p.steering = q.steering) (i : Nat) {f : PbsTask → PbsTask}
    (hf : ∀ t, (f t).steering = (f t.steering).steering) :
    AgreeOn PbsPlan.steering (p.modifyTask i f) (q.modifyTask i f) := by
  unfold PbsPlan.modifyTask
  refine (readTask_steered h i).bind fun t u htu => writeTask_steered h ?_ i
  rw [hf t, htu, ← hf u]

theorem readProcess_steered (h : p.steering = q.steering) (i : Int) :
    AgreeOn PbsProcess.steering (p.readProcess i) (q.readProcess i) := by
  have hprocesses : p.processes.map PbsProcess.steering = q.processes.map PbsProcess.steering :=
    congrArg PbsPlan.processes h
  unfold PbsPlan.readProcess
  by_cases hi : ProcessIndex i
  · rw [dif_pos hi, dif_pos hi]
    apply AgreeOn.ok
    have hlt := hi.lt
    change p.processes[i.toNat].steering = q.processes[i.toNat].steering
    rw [← Vector.getElem_map PbsProcess.steering hi.lt,
      hprocesses, Vector.getElem_map]
  · rw [dif_neg hi, dif_neg hi]
    exact .of_eq rfl

theorem modifyProcess_steered (h : p.steering = q.steering) (i : Int)
    {f : PbsProcess → PbsProcess} (hf : ∀ x, (f x).steering = (f x.steering).steering) :
    AgreeOn PbsPlan.steering (p.modifyProcess i f) (q.modifyProcess i f) := by
  unfold PbsPlan.modifyProcess
  refine (readProcess_steered h i).bind fun x y hxy => ?_
  have hfxy : (f x).steering = (f y).steering := by rw [hf x, hxy, ← hf y]
  unfold PbsPlan.writeProcess
  by_cases hi : ProcessIndex i
  · rw [dif_pos hi, dif_pos hi]
    apply AgreeOn.ok
    have hprocesses : (p.processes.set i.toNat (f x) hi.lt).map PbsProcess.steering =
        (q.processes.set i.toNat (f y) hi.lt).map PbsProcess.steering := by
      rw [Vector.map_set, Vector.map_set, hfxy, show p.processes.map PbsProcess.steering = _ from
        congrArg PbsPlan.processes h]
      rfl
    calc
      { p with processes := p.processes.set i.toNat (f x) hi.lt }.steering =
          { p.steering with
            processes := (p.processes.set i.toNat (f x) hi.lt).map PbsProcess.steering } := rfl
      _ = { q.steering with
            processes := (q.processes.set i.toNat (f y) hi.lt).map PbsProcess.steering } := by
        rw [h, hprocesses]
  · rw [dif_neg hi, dif_neg hi]
    exact .of_eq rfl

theorem toList_steering (h : p.steering = q.steering) :
    p.tasks.toList.map PbsTask.steering = q.tasks.toList.map PbsTask.steering := by
  have htasks := congrArg (fun o => o.tasks.toList) h
  change (p.tasks.map PbsTask.steering).toList = (q.tasks.map PbsTask.steering).toList at htasks
  rwa [Vector.toList_map, Vector.toList_map] at htasks

end Accesses

/-! ## Reading -/

section Reading

variable {p q : PbsPlan} {b : Build}

theorem findTaskFrom_steering (taskId : Int) (l : List PbsTask) (i : Nat) :
    findTaskFrom taskId (l.map PbsTask.steering) i = findTaskFrom taskId l i := by
  induction l generalizing i with
  | nil => rfl
  | cons t l ih =>
      rw [List.map_cons, findTaskFrom, findTaskFrom, ih]
      rfl

theorem findTaskWithTaskId_same (h : p.steering = q.steering) :
    findTaskWithTaskId p = findTaskWithTaskId q := by
  funext taskId
  unfold findTaskWithTaskId
  rw [← findTaskFrom_steering, toList_steering h, findTaskFrom_steering]

theorem slotOfCurTask_same (h : p.steering = q.steering) : slotOfCurTask p = slotOfCurTask q := by
  unfold slotOfCurTask
  rw [findTaskWithTaskId_same h, eq_of_view h PbsPlan.curTask fun _ => rfl]
  exact (readCurTask_steered h).read_eq fun _ => rfl

theorem checkT1_same (h : p.steering = q.steering) : checkT1 p = checkT1 q := by
  unfold checkT1
  rw [slotOfCurTask_same h]
  refine congrArg (slotOfCurTask q >>= ·) (funext fun slot => ?_)
  exact (readTask_steered h slot).read_eq fun _ => rfl

theorem checkT2Task_same (h : p.steering = q.steering) : checkT2Task p = checkT2Task q :=
  (readCurTask_steered h).read_eq fun _ => rfl

theorem calculateAllowedPlanBuffer_same (h : p.steering = q.steering) (x : PbsProcess) :
    calculateAllowedPlanBuffer b x p = calculateAllowedPlanBuffer b x q :=
  eq_of_view h (calculateAllowedPlanBuffer b x) fun _ => rfl

theorem readCurProcess_steered (h : p.steering = q.steering) :
    AgreeOn PbsProcess.steering (p.readProcess p.curProcess) (q.readProcess q.curProcess) := by
  rw [eq_of_view h PbsPlan.curProcess fun _ => rfl]
  exact readProcess_steered h q.curProcess

theorem checkT2Process_same (h : p.steering = q.steering) :
    checkT2Process b p = checkT2Process b q := by
  unfold checkT2Process
  simp only [calculateAllowedPlanBuffer_same h, eq_of_view h PbsPlan.stress fun _ => rfl]
  exact (readCurProcess_steered h).read_eq fun _ => rfl

theorem checkT2Node_same (h : p.steering = q.steering) : checkT2Node b p = checkT2Node b q :=
  eq_of_view h (checkT2Node b) fun _ => rfl

theorem raisesT2_same (h : p.steering = q.steering) : raisesT2 b p = raisesT2 b q := by
  unfold raisesT2
  rw [checkT2Task_same h, checkT2Process_same h, checkT2Node_same h,
    eq_of_view h PbsPlan.stress fun _ => rfl]
  exact (readCurTask_steered h).read_eq fun _ => rfl

theorem raisesTm2_same (h : p.steering = q.steering) : raisesTm2 b p = raisesTm2 b q := by
  have htask : checkTm2Task b p = checkTm2Task b q := (readCurTask_steered h).read_eq fun _ => rfl
  unfold raisesTm2
  rw [htask, eq_of_view h (checkTm2Node b) fun _ => rfl]

theorem printThresholds_same (h : p.steering = q.steering) :
    printThresholds b p = printThresholds b q := by
  unfold printThresholds
  simp only [calculateAllowedPlanBuffer_same h, eq_of_view h (calculateT2Node b) fun _ => rfl]
  refine (readCurTask_steered h).bind_eq fun _ _ _ => ?_
  exact (readCurProcess_steered h).read_eq fun _ => rfl

end Reading

/-! ## Writing -/

section Writing

variable {p q : PbsPlan} {b : Build}

theorem retire_steering (r : Int) (t : PbsTask) : (pbsUpdateRetiredInstructionsTask r t).steering =
    { t.steering with
      instructionsRetiredTask := t.instructionsRetiredTask + r
      state := if t.instructionsRetiredTask + r ≥ t.instructionsReal then .finished
        else t.state } := by
  unfold pbsUpdateRetiredInstructionsTask
  dsimp only
  by_cases hlate : t.instructionsRetiredTask + r > t.instructionsPlanned
  · rw [if_pos hlate]
    dsimp only
    split <;> rfl
  · rw [if_neg hlate]
    dsimp only
    split <;> rfl

theorem steering_retire (r : Int) (t : PbsTask) : (pbsUpdateRetiredInstructionsTask r t).steering =
    (pbsUpdateRetiredInstructionsTask r t.steering).steering := by
  rw [retire_steering, retire_steering]
  rfl

theorem modifyCurTask_steered (h : p.steering = q.steering) {f : PbsTask → PbsTask}
    (hf : ∀ t, (f t).steering = (f t.steering).steering) :
    AgreeOn PbsPlan.steering (p.modifyTask p.curTask f) (q.modifyTask q.curTask f) := by
  rw [eq_of_view h PbsPlan.curTask fun _ => rfl]
  exact modifyTask_steered h q.curTask hf

theorem modifyCurProcess_steered (h : p.steering = q.steering) {f : PbsProcess → PbsProcess}
    (hf : ∀ x, (f x).steering = (f x.steering).steering) :
    AgreeOn PbsPlan.steering (p.modifyProcess p.curProcess f)
      (q.modifyProcess q.curProcess f) := by
  rw [eq_of_view h PbsPlan.curProcess fun _ => rfl]
  exact modifyProcess_steered h q.curProcess hf

theorem updateRetiredInstructions_steered (h : p.steering = q.steering) (r : Int) :
    AgreeOn PbsPlan.steering (updateRetiredInstructions r p) (updateRetiredInstructions r q) := by
  unfold updateRetiredInstructions
  apply AgreeOn.ite Iff.rfl
  · intro _
    exact .ok (congrArg (fun o : PbsPlan => { o with lateness := o.lateness + r }) h)
  · intro _
    refine (modifyCurTask_steered h (steering_retire r)).bind fun p₁ q₁ h₁ => ?_
    refine .bind_of_eq (slotOfCurTask_same h₁) fun slot => ?_
    refine (modifyTask_steered h₁ slot fun _ => rfl).bind fun p₂ q₂ h₂ => ?_
    refine (modifyCurProcess_steered h₂ fun _ => rfl).bind fun p₃ q₃ h₃ => ?_
    exact .ok h₃

theorem updateCurProcess_steered (h : p.steering = q.steering) :
    AgreeOn PbsPlan.steering (updateCurProcess p) (updateCurProcess q) := by
  unfold updateCurProcess
  refine (modifyCurTask_steered h fun _ => rfl).bind fun p₁ q₁ h₁ => ?_
  refine (readCurTask_steered h₁).bind fun t u htu => ?_
  rw [eq_of_view htu PbsTask.taskId fun _ => rfl, eq_of_view htu PbsTask.processId fun _ => rfl]
  apply AgreeOn.ite Iff.rfl
  · intro _
    exact .ok (congrArg (fun o : PbsPlan => { o with curProcess := u.processId }) h₁)
  · intro _
    exact .ok (congrArg (fun o : PbsPlan => { o with curProcess := maxNumberProcesses - 1 }) h₁)

theorem rescheduleFrom_steered (h : p.steering = q.steering) (factor pid : Int) (n i : Nat) :
    AgreeOn PbsPlan.steering (rescheduleFrom factor pid n i p)
      (rescheduleFrom factor pid n i q) := by
  induction n generalizing p q i with
  | zero => exact .of_eq rfl
  | succ n ih =>
      unfold rescheduleFrom
      refine (readTask_steered h i).bind fun t u htu => ?_
      have htaskId : t.taskId = u.taskId := eq_of_view htu PbsTask.taskId fun _ => rfl
      have hprocessId : t.processId = u.processId := eq_of_view htu PbsTask.processId fun _ => rfl
      apply AgreeOn.ite (by rw [htaskId])
      · intro _
        exact .ok h
      · intro _
        apply AgreeOn.ite (by rw [hprocessId])
        · intro _
          have hrescaled : PbsTask.steering
                { t with instructionsPlanned := (t.instructionsPlanned * factor).tdiv 100 } =
              PbsTask.steering
                { u with instructionsPlanned := (u.instructionsPlanned * factor).tdiv 100 } :=
            congrArg (fun v : PbsTask =>
              { v with instructionsPlanned := (v.instructionsPlanned * factor).tdiv 100 }) htu
          exact (writeTask_steered h hrescaled i).bind fun p₁ q₁ h₁ => ih h₁ (i + 1)
        · intro _
          exact ih h (i + 1)

theorem reschedule_steered (h : p.steering = q.steering) (signal : Check) (pid : Int) :
    AgreeOn PbsPlan.steering (reschedule b p signal pid) (reschedule b q signal pid) := by
  unfold reschedule
  rw [eq_of_view h PbsPlan.curTask fun _ => rfl]
  refine (rescheduleFrom_steered h _ pid _ q.curTask).bind fun p₁ q₁ h₁ => ?_
  have hbalanced : AgreeOn PbsPlan.steering (balanceLateness p₁) (balanceLateness q₁) :=
    modifyCurProcess_steered (congrArg (fun o : PbsPlan => { o with lateness := 0 }) h₁)
      fun _ => rfl
  refine hbalanced.bind fun p₂ q₂ h₂ => ?_
  exact .bind_of_eq (printThresholds_same h₂) fun _ => .ok h₂

end Writing

/-! ## Signals -/

section Signals

variable {s s' : System} {b : Build}

theorem signals_steered (h : s.steering = s'.steering) :
    AgreeOn System.steering (signalT2 b s) (signalT2 b s') ∧
      AgreeOn System.steering (signalTm2 b s) (signalTm2 b s') := by
  have hstressed : { s.plan with stress := stressReset }.steering =
      { s'.plan with stress := stressReset }.steering :=
    congrArg (fun o : PbsPlan => { o with stress := stressReset }) h
  constructor
  · refine (readCurTask_steered hstressed).bind fun t u _ => ?_
    refine (readCurProcess_steered hstressed).bind fun x y hxy => ?_
    rw [eq_of_view hxy PbsProcess.processId fun _ => rfl]
    exact (reschedule_steered hstressed .t2 y.processId).bind fun _ _ h' => .ok h'
  · refine (readCurTask_steered hstressed).bind fun t u _ => ?_
    refine (readCurProcess_steered hstressed).bind fun x y _ => ?_
    exact (reschedule_steered hstressed .tm2 0).bind fun _ _ h' => .ok h'

theorem signalIfT2_steered (h : s.steering = s'.steering) :
    AgreeOn System.steering (signalIfT2 b s) (signalIfT2 b s') := by
  unfold signalIfT2
  refine .bind_of_eq (raisesT2_same h) fun raised => ?_
  exact .ite Iff.rfl (fun _ => (signals_steered h).1) fun _ => .ok h

end Signals

/-! ## Preemption -/

section Preemption

variable {p q : PbsPlan} {b : Build}

theorem skipOwnRun_steering (pid : Int) (l : List PbsTask) (slot : Nat) :
    skipOwnRun pid (l.map PbsTask.steering) slot =
      (skipOwnRun pid l slot).map fun x => (x.1.map PbsTask.steering, x.2) := by
  induction l generalizing slot with
  | nil => rfl
  | cons t l ih =>
      rw [List.map_cons, skipOwnRun, skipOwnRun, ih]
      by_cases hpid : t.processId = pid
      · rw [if_pos hpid, if_pos (show t.steering.processId = pid from hpid)]
      · rw [if_neg hpid, if_neg (show t.steering.processId ≠ pid from hpid)]
        rfl

theorem searchSlot_steering (pid : Int) (l : List PbsTask) (slot : Nat) :
    searchSlot b pid (l.map PbsTask.steering) slot = searchSlot b pid l slot := by
  induction l generalizing slot with
  | nil => rfl
  | cons t l ih =>
      rw [List.map_cons, searchSlot, searchSlot, ih]
      rfl

theorem findSlotToMoveTo_same (h : p.steering = q.steering) (pid : Int) :
    findSlotToMoveTo b pid p = findSlotToMoveTo b pid q := by
  have hskip : AgreeOn (fun x => (x.1.map PbsTask.steering, x.2))
      (skipOwnRun pid (p.tasks.toList.drop p.curTask) p.indexCurTask)
      (skipOwnRun pid (q.tasks.toList.drop q.curTask) q.indexCurTask) := by
    unfold AgreeOn
    rw [← skipOwnRun_steering, ← skipOwnRun_steering, List.map_drop, List.map_drop,
      toList_steering h, eq_of_view h PbsPlan.curTask fun _ => rfl,
      eq_of_view h PbsPlan.indexCurTask fun _ => rfl]
  exact hskip.read_eq fun x => searchSlot_steering pid x.1 x.2

theorem stackSizeFrom_steering (cur : PbsTask) (l : List PbsTask) :
    stackSizeFrom cur.steering (l.map PbsTask.steering) = stackSizeFrom cur l := by
  induction l with
  | nil => rfl
  | cons t l ih =>
      rw [List.map_cons, stackSizeFrom, stackSizeFrom, ih]
      rfl

theorem getStackSizePreemptedTasks_same (h : p.steering = q.steering) :
    getStackSizePreemptedTasks p = getStackSizePreemptedTasks q := by
  refine (readCurTask_steered h).bind_eq fun t u htu => ?_
  rw [← stackSizeFrom_steering, htu, List.map_drop, toList_steering h, ← List.map_drop,
    stackSizeFrom_steering, eq_of_view h PbsPlan.curTask fun _ => rfl]

theorem savePreemptedTasks_steered (h : p.steering = q.steering) (n i : Nat) :
    AgreeOn (List.map PbsTask.steering) (savePreemptedTasks p n i) (savePreemptedTasks q n i) := by
  induction n generalizing i with
  | zero => exact .of_eq rfl
  | succ n ih =>
      refine (readTask_steered h i).bind fun t u htu => ?_
      refine (ih (i + 1)).bind fun ts us htsus => ?_
      apply AgreeOn.ok
      rw [List.map_cons, List.map_cons, htu, htsus]

theorem shiftForward_steered (h : p.steering = q.steering) (stackSize n i : Nat) :
    AgreeOn PbsPlan.steering (shiftForward stackSize n i p) (shiftForward stackSize n i q) := by
  induction n generalizing p q i with
  | zero => exact .ok h
  | succ n ih =>
      refine (readTask_steered h (i + stackSize)).bind fun t u htu => ?_
      exact (writeTask_steered h htu i).bind fun _ _ h₁ => ih h₁ (i + 1)

theorem writePreemptedTasks_steered {l l' : List PbsTask} (h : p.steering = q.steering)
    (hl : l.map PbsTask.steering = l'.map PbsTask.steering) (i : Nat) :
    AgreeOn PbsPlan.steering (writePreemptedTasks l i p) (writePreemptedTasks l' i q) := by
  induction l generalizing p q l' i with
  | nil =>
      rw [List.map_eq_nil_iff.1 hl.symm]
      exact .ok h
  | cons t l ih =>
      cases l' with
      | nil => cases hl
      | cons u l' =>
          have htu : t.steering = u.steering := List.head_eq_of_cons_eq hl
          refine (writeTask_steered h htu i).bind fun p₁ q₁ h₁ => ?_
          exact ih h₁ (List.tail_eq_of_cons_eq hl) (i + 1)

theorem moveTasks_steered (h : p.steering = q.steering) (insertionSlot stackSize : Nat) :
    AgreeOn PbsPlan.steering (moveTasks insertionSlot stackSize p)
      (moveTasks insertionSlot stackSize q) := by
  unfold moveTasks
  refine (readTask_steered h (insertionSlot + 1)).bind fun t u htu => ?_
  rw [eq_of_view h PbsPlan.curTask fun _ => rfl, eq_of_view h PbsPlan.indexCurTask fun _ => rfl,
    eq_of_view htu PbsTask.taskId fun _ => rfl]
  refine (savePreemptedTasks_steered h stackSize q.curTask).bind fun ts us htsus => ?_
  refine (shiftForward_steered h stackSize _ q.indexCurTask).bind fun p₁ q₁ h₁ => ?_
  apply AgreeOn.ite Iff.rfl
  · intro _
    exact .of_eq rfl
  · intro _
    have hmoved : (ts.map fun v => { v with slotOwner := u.taskId }).map PbsTask.steering =
        (us.map fun v => { v with slotOwner := u.taskId }).map PbsTask.steering := by
      have howner := congrArg (List.map fun v : PbsTask => { v with slotOwner := u.taskId }) htsus
      rwa [List.map_map, List.map_map] at howner ⊢
    exact (writePreemptedTasks_steered h₁ hmoved _).bind fun _ _ h₂ =>
      updateCurProcess_steered h₂

theorem noIdIsDuplicatedFrom_steering (l : List PbsTask)
    (found : Vector Nat maxNumberTasksInPlan) :
    noIdIsDuplicatedFrom (l.map PbsTask.steering) found = noIdIsDuplicatedFrom l found := by
  induction l generalizing found with
  | nil => rfl
  | cons t l ih =>
      rw [List.map_cons, noIdIsDuplicatedFrom, noIdIsDuplicatedFrom]
      simp only [ih]
      rfl

theorem assertNoIdIsDuplicated_same (h : p.steering = q.steering) :
    assertNoIdIsDuplicated b p = assertNoIdIsDuplicated b q := by
  unfold assertNoIdIsDuplicated noIdIsDuplicated
  rw [← noIdIsDuplicatedFrom_steering, toList_steering h, noIdIsDuplicatedFrom_steering]

theorem handleNoPreemptionSlotFound_steered (h : p.steering = q.steering) :
    AgreeOn PbsPlan.steering (handleNoPreemptionSlotFound p) (handleNoPreemptionSlotFound q) := by
  refine (readCurTask_steered h).bind fun t u htu => ?_
  have hmissing : t.instructionsReal - t.instructionsRetiredTask =
      u.instructionsReal - u.instructionsRetiredTask :=
    eq_of_view htu (fun v => v.instructionsReal - v.instructionsRetiredTask) fun _ => rfl
  dsimp only
  rw [hmissing]
  exact (updateRetiredInstructions_steered h _).bind fun _ _ h₁ => .ok h₁

theorem preemptCurTask_steered (h : p.steering = q.steering) :
    AgreeOn PbsPlan.steering (preemptCurTask b p) (preemptCurTask b q) := by
  unfold preemptCurTask
  refine (readCurTask_steered h).bind fun t u htu => ?_
  rw [eq_of_view htu PbsTask.taskId fun _ => rfl, eq_of_view htu PbsTask.processId fun _ => rfl]
  refine .bind_of_eq rfl fun _ => ?_
  refine (modifyCurTask_steered h fun _ => rfl).bind fun p₁ q₁ h₁ => ?_
  refine .bind_of_eq (findSlotToMoveTo_same h₁ u.processId) fun insertionSlot => ?_
  refine .bind_of_eq (getStackSizePreemptedTasks_same h₁) fun stackSize => ?_
  cases insertionSlot with
  | none => exact handleNoPreemptionSlotFound_steered h₁
  | some insertionSlot =>
      refine .bind_of_eq (by rw [eq_of_view h₁ PbsPlan.indexCurTask fun _ => rfl]) fun _ => ?_
      refine (moveTasks_steered h₁ insertionSlot stackSize).bind fun p₂ q₂ h₂ => ?_
      exact .bind_of_eq (assertNoIdIsDuplicated_same h₂) fun _ => .ok h₂

end Preemption

/-! ## Switches -/

section Switches

variable {p q : PbsPlan} {b : Build}

theorem handleFreeSlot_steered (h : p.steering = q.steering) :
    AgreeOn PbsPlan.steering (handleFreeSlot b p) (handleFreeSlot b q) := by
  unfold handleFreeSlot
  refine (readCurTask_steered h).bind fun t u htu => ?_
  rw [eq_of_view htu PbsTask.taskId fun _ => rfl]
  refine .bind_of_eq rfl fun _ => ?_
  have hnext : { p with indexCurTask := p.indexCurTask + 1, curTask := p.curTask + 1 }.steering =
      { q with indexCurTask := q.indexCurTask + 1, curTask := q.curTask + 1 }.steering :=
    congrArg (fun o : PbsPlan =>
      { o with indexCurTask := o.indexCurTask + 1, curTask := o.curTask + 1 }) h
  refine (updateCurProcess_steered hnext).bind fun p₁ q₁ h₁ => ?_
  refine (readTask_steered h₁ 0).bind fun v w hvw => ?_
  rw [eq_of_view hvw PbsTask.instructionsPlanned fun _ => rfl]
  refine (updateRetiredInstructions_steered h₁ _).bind fun p₂ q₂ h₂ => ?_
  rw [eq_of_view h PbsPlan.lateness fun _ => rfl, eq_of_view h₂ PbsPlan.lateness fun _ => rfl]
  refine .bind_of_eq rfl fun _ => ?_
  refine (readCurTask_steered h₂).bind fun x y hxy => ?_
  rw [eq_of_view hxy PbsTask.taskId fun _ => rfl]
  exact .bind_of_eq rfl fun _ => .ok h₂

theorem skipFreeSlot_steered (h : p.steering = q.steering) :
    AgreeOn PbsPlan.steering (skipFreeSlot b p) (skipFreeSlot b q) := by
  refine (readCurTask_steered h).bind fun t u htu => ?_
  rw [eq_of_view htu PbsTask.taskId fun _ => rfl]
  exact .ite Iff.rfl (fun _ => handleFreeSlot_steered h) fun _ => .ok h

theorem switchTask_steered (h : p.steering = q.steering) :
    AgreeOn PbsPlan.steering (switchTask b p) (switchTask b q) := by
  unfold switchTask
  refine (readCurTask_steered h).bind fun t u htu => ?_
  rw [eq_of_view htu PbsTask.state fun _ => rfl]
  refine .bind_of_eq rfl fun _ => ?_
  have hadvanced : AgreeOn PbsPlan.steering (advanceCurTask p) (advanceCurTask q) :=
    updateCurProcess_steered (congrArg (fun o : PbsPlan =>
      { o with indexCurTask := o.indexCurTask + 1, curTask := o.curTask + 1 }) h)
  exact hadvanced.bind fun _ _ h₁ => skipFreeSlot_steered h₁

theorem steering_relieveStress (p : PbsPlan) :
    (relieveStress p).steering = relieveStress p.steering := by
  unfold relieveStress
  rw [show p.steering.stress = p.stress from rfl]
  by_cases hstress : p.stress ≠ 0
  · rw [if_pos hstress, if_pos hstress]
    rfl
  · rw [if_neg hstress, if_neg hstress]

theorem relieveStress_same (h : p.steering = q.steering) :
    (relieveStress p).steering = (relieveStress q).steering := by
  rw [steering_relieveStress, h, steering_relieveStress]

theorem bookFinishedTask_steered (h : p.steering = q.steering) (surplus : Int) :
    AgreeOn PbsPlan.steering (bookFinishedTask surplus p) (bookFinishedTask surplus q) := by
  unfold bookFinishedTask
  refine (readCurTask_steered h).bind fun t u htu => ?_
  have hlate : t.instructionsReal - t.instructionsPlanned =
      u.instructionsReal - u.instructionsPlanned :=
    eq_of_view htu (fun v => v.instructionsReal - v.instructionsPlanned) fun _ => rfl
  dsimp only
  rw [hlate]
  refine (modifyCurProcess_steered h fun _ => rfl).bind fun p₁ q₁ h₁ => ?_
  have hbooked := congrArg (fun o : PbsPlan => { o with
    lateness := o.lateness + (u.instructionsReal - u.instructionsPlanned) }) h₁
  refine (modifyCurProcess_steered hbooked fun _ => rfl).bind fun p₂ q₂ h₂ => ?_
  exact .ok (relieveStress_same h₂)

end Switches

/-! ## The run -/

section Run

variable {b : Build} {pmu : Nat → Int} {s s' : System}

/-- What `scheduleTaskFinished` does behind the check for Tm2. -/
def taskLeaves (b : Build) (surplus : Int) (s : System) : Exec System := do
  let p ← bookFinishedTask surplus s.plan
  let p ← switchTask b p
  return { s with plan := p }

theorem scheduleTaskFinished_steered (h : s.steering = s'.steering) :
    AgreeOn System.steering (scheduleTaskFinished b s) (scheduleTaskFinished b s') := by
  unfold scheduleTaskFinished
  refine (readCurTask_steered h).bind fun t u htu => ?_
  have hsurplus : t.instructionsRetiredSlot - t.instructionsReal =
      u.instructionsRetiredSlot - u.instructionsReal :=
    eq_of_view htu (fun v => v.instructionsRetiredSlot - v.instructionsReal) fun _ => rfl
  dsimp only
  rw [hsurplus]
  refine .bind_of_eq (raisesTm2_same h) fun raised => ?_
  have hleaves : ∀ {v v' : System}, v.steering = v'.steering →
      AgreeOn System.steering (taskLeaves b (u.instructionsRetiredSlot - u.instructionsReal) v)
        (taskLeaves b (u.instructionsRetiredSlot - u.instructionsReal) v') := fun h₁ =>
    (bookFinishedTask_steered h₁ _).bind fun _ _ h₂ =>
      (switchTask_steered h₂).bind fun _ _ h₃ => .ok h₃
  exact .ite Iff.rfl (fun _ => (signals_steered h).2.bind fun _ _ => hleaves) fun _ => hleaves h

theorem scheduleTimerTick_steered (h : s.steering = s'.steering) :
    AgreeOn System.steering (scheduleTimerTick b s) (scheduleTimerTick b s') := by
  refine (signalIfT2_steered h).bind fun s₁ s₁' h₁ => ?_
  refine .bind_of_eq (checkT1_same h₁) fun checked => ?_
  apply AgreeOn.ite Iff.rfl
  · intro _
    refine (preemptCurTask_steered h₁).bind fun p q h₂ => ?_
    exact (skipFreeSlot_steered h₂).bind fun _ _ h₃ => .ok h₃
  · intro _
    exact .ok (relieveStress_same h₁)

theorem pbsRunTimerTick_steered (h : s.steering = s'.steering) (r : Int) :
    AgreeOn System.steering (pbsRunTimerTick b r s) (pbsRunTimerTick b r s') := by
  unfold pbsRunTimerTick
  rw [eq_of_view h PbsPlan.numTasks fun _ => rfl]
  refine .bind_of_eq rfl fun _ => ?_
  refine (readCurTask_steered h).bind fun t u htu => ?_
  rw [eq_of_view htu PbsTask.taskId fun _ => rfl]
  apply AgreeOn.ite Iff.rfl
  · intro _
    exact .ok h
  · intro _
    refine (updateRetiredInstructions_steered h r).bind fun p q h₁ => ?_
    refine (readCurTask_steered h₁).bind fun v w hvw => ?_
    rw [eq_of_view hvw PbsTask.state fun _ => rfl]
    have hretired : System.steering { s with plan := p } = System.steering { s' with plan := q } :=
      h₁
    apply AgreeOn.ite Iff.rfl
    · intro _
      exact (scheduleTaskFinished_steered hretired).bind fun _ _ h₂ => .ok h₂
    · intro _
      exact (scheduleTimerTick_steered hretired).bind fun _ _ h₂ => .ok h₂

/-- The records of the ticks steer nothing: from two states that differ in them alone, the same
readings lead to the same faults and to states that differ in them alone. -/
theorem statistics_run (h : s.steering = s'.steering) (k : Nat) :
    (runTicks b pmu s k).map System.steering = (runTicks b pmu s' k).map System.steering :=
  run_agreeOn (fun k _ _ huv => pbsRunTimerTick_steered huv (pmu k)) h k

set_option maxRecDepth 4000 in
theorem statistics_run_disturbed :
    ∃ p t, parsePlan "2;0,0;1,0;;;0,0,2,90000000;1,1,2,2;0,2,2,2;".toList zeroedPlan = .ok p ∧
      runTicks .kernel everyTick ⟨p, zeroedSignals⟩ 11 = .ok t ∧
      (runTicks .kernel everyTick
        ⟨{ p with tasks := p.tasks.map fun u => { u with lateness := 7 }, tickCounter := 300,
                  instructionsRetired := -1, state := .planFinished },
          addSignal {} zeroedSignals⟩ 11).map System.steering = .ok t.steering := by
  obtain ⟨p, t, hp, ht, -⟩ :=
    @of_onRun .kernel "2;0,0;1,0;;;0,0,2,90000000;1,1,2,2;0,2,2,2;".toList everyTick 11
      (fun _ _ => true) (by decide +kernel)
  refine ⟨p, t, hp, ht, ?_⟩
  have htasks : p.tasks.map PbsTask.steering =
      (p.tasks.map fun u => { u with lateness := 7 }).map PbsTask.steering := by
    rw [Vector.map_map]
    rfl
  rw [← statistics_run (s := ⟨p, zeroedSignals⟩)
    (congrArg (fun l => { p.steering with tasks := l }) htasks), ht]
  rfl

end Run

end PbsLevel2
