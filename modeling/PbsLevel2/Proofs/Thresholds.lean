import PbsLevel2.Proofs.Enduring
import PbsLevel2.Proofs.Limits
import PbsLevel2.Proofs.Totality

/-!
# Thresholds in a run

Tm2 of a task lies between 0 and the planned length as long as that is at least 2.  A stretch
keeps it there; a shrink takes a length of 2 down to 1.
-/

namespace PbsLevel2

open Lib

/-- The plan a signal of the tick from `s` hands to `print_thresholds`. -/
def printPoint (b : Build) (r : Int) (s : System) : Exec (Option PbsPlan) := do
  match ← signalPoint b r s with
  | none => return none
  | some (signal, p) =>
      let p := { p with stress := stressReset }
      let process ← p.readProcess p.curProcess
      let targetPid := if signal = .tm2 then 0 else process.processId
      let stretchFactor := if signal = .tm2 then shrinkConstant else stretchConstant
      let p ← rescheduleFrom stretchFactor targetPid (maxNumberTasksInPlan - p.curTask) p.curTask p
      return some (← balanceLateness p)

/-- The plans with thresholds in the tick from `s`: the one it starts with, the one it checks
once the reading is credited, and the one a signal prints the thresholds of. -/
inductive HasThresholds (b : Build) (r : Int) (s : System) : PbsPlan → Prop
  | starts (cur : PbsTask) (hcur : s.plan.readCurTask = .ok cur) (hlive : cur.taskId ≠ -2) :
      HasThresholds b r s s.plan
  | checks (p : PbsPlan) (cur : PbsTask) (hcur : s.plan.readCurTask = .ok cur)
      (hlive : cur.taskId ≠ -2) (hcredit : updateRetiredInstructions r s.plan = .ok p) :
      HasThresholds b r s p
  | prints (p : PbsPlan) (hprint : printPoint b r s = .ok (some p)) : HasThresholds b r s p

/-- The assertions on the thresholds of `p` hold, and no division is by zero. -/
structure ThresholdsFit (b : Build) (p : PbsPlan) : Prop where
  tm2Task : ∀ cur, p.readCurTask = .ok cur →
    0 < calculateTm2Task cur ∧ calculateTm2Task cur < cur.instructionsPlanned
  tm2Node : ∃ tm2Node, calculateTm2Node b p = .ok tm2Node ∧ tm2Node < 0
  t2Node : ∃ t2Node, calculateT2Node b p = .ok t2Node ∧ 0 < t2Node
  capacity : ∃ q buffer, p.readProcess p.curProcess = .ok q ∧
    calculateCapacityBuffer b q = .ok buffer ∧ q.lengthPlan < buffer
  divisions : ∀ q, p.readProcess p.curProcess = .ok q →
    Avoids .divisionByZero (calculateProcessCompletion b q) ∧
    Avoids .divisionByZero (calculateAllowedPlanBuffer b q p)

/-- If the tick from `s` raises Tm2, then no task of process 0 at or behind the current one has a
planned length of 2. -/
def shrinksNoneTooShort (b : Build) (r : Int) (s : System) : Bool :=
  match signalPoint b r s with
  | .ok (some (.tm2, p)) => p.todoTasks.all fun t => t.processId ≠ 0 || t.instructionsPlanned ≠ 2
  | _ => true

def Long (l : List PbsTask) : Prop :=
  ∀ t ∈ l, 2 ≤ t.instructionsPlanned

section Fit

variable {p q : PbsPlan} {done todo rest tail : List PbsTask} {cur t : PbsTask} {r pid : Int}
  {b : Build} {s s' : System}

theorem thresholdsFit_of (hcur : p.readCurTask = .ok cur) (hplanned : 2 ≤ cur.instructionsPlanned)
    (hi : ProcessIndex p.curProcess) (hlength : 0 < (processAt p.processes p.curProcess).lengthPlan)
    (hprocesses : 1 ≤ p.numProcesses) (htotal : 5 ≤ p.instructionsPlanned) : ThresholdsFit b p := by
  have hread : p.readProcess p.curProcess = .ok (processAt p.processes p.curProcess) :=
    readProcess_eq hi
  constructor
  · intro c hc
    obtain rfl := Except.ok.inj (hcur.symm.trans hc)
    exact calculateTm2Task_bounds hplanned
  · exact ⟨_, calculateTm2Node_eq htotal, by omega⟩
  · obtain ⟨t2Node, heq, hle⟩ := calculateT2Node_eq (b := b) fun _ => hprocesses
    have hmin : p.numProcesses * t2ProcessMinimum = p.numProcesses * 1000000000 := rfl
    exact ⟨t2Node, heq, by omega⟩
  · have hbuffer : t2CapacityBuffer = 110 := rfl
    refine ⟨_, (processAt p.processes p.curProcess).lengthPlan * 110, hread, ?_, by omega⟩
    unfold calculateCapacityBuffer
    dsimp only
    rw [hbuffer, assertThat_true _ _ (by simp; omega)]
    rfl
  · intro q hq
    obtain rfl := Except.ok.inj (hread.symm.trans hq)
    have hassert : ∀ c, Avoids .divisionByZero (assertThat b .calculateProcessCompletion c) := by
      intro c
      cases b <;> cases c <;> simp [assertThat]
    have hcompletion : Avoids .divisionByZero
        (calculateProcessCompletion b (processAt p.processes p.curProcess)) := by
      unfold calculateProcessCompletion
      rw [divide, if_neg (by omega), ok_bind]
      simp [hassert]
    refine ⟨hcompletion, ?_⟩
    unfold calculateAllowedPlanBuffer
    rw [Avoids.bind]
    refine ⟨hcompletion, fun completion _ => ?_⟩
    dsimp only
    rw [divide, if_neg (by omega), ok_bind]
    exact Avoids.ok _

/-! ## The planned lengths ahead -/

theorem stretch_long (h : 2 ≤ t.instructionsPlanned) :
    2 ≤ (rescale stretchConstant pid t).instructionsPlanned := by
  unfold rescale
  split
  · change 2 ≤ (t.instructionsPlanned * 105).tdiv 100
    rw [Int.tdiv_eq_ediv_of_nonneg (by omega)]
    omega
  · exact h

theorem shrink_long (h : 2 ≤ t.instructionsPlanned)
    (hshrunk : t.processId = pid → t.instructionsPlanned ≠ 2) :
    2 ≤ (rescale shrinkConstant pid t).instructionsPlanned := by
  unfold rescale
  split <;> rename_i hpid
  · have hne := hshrunk hpid
    change 2 ≤ (t.instructionsPlanned * 95).tdiv 100
    rw [Int.tdiv_eq_ediv_of_nonneg (by omega)]
    omega
  · exact h

theorem of_shrinksNoneTooShort (h : shrinksNoneTooShort b r s = true)
    (hp : signalPoint b r s = .ok (some (.tm2, p))) :
    ∀ t ∈ p.todoTasks, t.processId = 0 → t.instructionsPlanned ≠ 2 := by
  unfold shrinksNoneTooShort at h
  rw [hp] at h
  intro t ht hpid
  simpa [hpid] using List.all_eq_true.1 h t ht

theorem rescalesWithin_of_shrinksNoneTooShort (h : shrinksNoneTooShort b r s = true) :
    RescalesWithin (fun t => 2 ≤ t.instructionsPlanned) b r s := by
  intro signal p hpoint t ht hlong
  rcases signalPoint_raises hpoint with rfl | rfl
  · exact stretch_long hlong
  · exact shrink_long hlong (of_shrinksNoneTooShort h hpoint t ht)

theorem enduring_long : Enduring fun t => 2 ≤ t.instructionsPlanned where
  body h ht := of_body (Q := fun t => 2 ≤ t.instructionsPlanned) (fun _ => Iff.rfl) h ht
  retire {r t} _ ht := by
    rw [retire_instructionsPlanned]
    exact ht
  start ht := ht
  bump ht := ht
  hosted ht := ht

theorem Placed.long_credit (hv : Placed p done (cur :: rest) tail) (hlong : Long (cur :: rest))
    (hr : 0 ≤ r) (hcredit : updateRetiredInstructions r p = .ok q) :
    ∃ done₁ rest₁ tail₁, Placed q done₁ (credited r cur :: rest₁) tail₁ ∧
      Long (credited r cur :: rest₁) := by
  obtain ⟨done₁, rest₁, tail₁, hv₁, _, hrest, _⟩ := hv.credit hr hcredit
  refine ⟨done₁, rest₁, tail₁, hv₁, List.forall_mem_cons.2 ⟨?_, ?_⟩⟩
  · exact enduring_long.credited hr (hlong cur List.mem_cons_self)
  · exact enduring_long.of_map_body (fun t ht => hlong t (List.mem_cons_of_mem cur ht)) hrest

/-- What the thresholds of a plan are computed from does not change in a run. -/
def Measured (o p : PbsPlan) : Prop :=
  (∀ i, (processAt p.processes i).lengthPlan = (processAt o.processes i).lengthPlan) ∧
    p.header = o.header

theorem kept_measured (o : PbsPlan) : Kept (fun _ => True) (Measured o) :=
  ((upheld_process PbsProcess.lengthPlan (fun _ _ => rfl) (fun _ _ => rfl) (fun _ => rfl) _).and
    (upheld_header _)).kept

theorem Parsed.thresholdsFit {o : PbsPlan} (ho : Parsed o) (hprocesses : 1 ≤ o.numProcesses)
    (hplanned : ∀ t ∈ o.parsedTasks, 2 ≤ t.instructionsPlanned) (htotal : 5 ≤ o.instructionsPlanned)
    (h : Measured o p) (hv : Placed p done (cur :: rest) tail)
    (hjobs : ((done ++ cur :: rest).map PbsTask.job).Perm (o.parsedTasks.map PbsTask.job))
    (hreal : cur.taskId ≠ -1) (hlong : 2 ≤ cur.instructionsPlanned) : ThresholdsFit b p := by
  obtain ⟨hlengths, hheader⟩ := h
  obtain ⟨hi, hlength⟩ := ho.lengthPlan_pos
    (fun t ht => by have := hplanned t ht; omega) hlengths hv
    hjobs hreal
  obtain ⟨hcount, _, hsum⟩ : p.numProcesses = o.numProcesses ∧ p.numTasks = o.numTasks ∧
      p.instructionsPlanned = o.instructionsPlanned := by
    simpa only [PbsPlan.header, Prod.mk.injEq] using hheader
  exact thresholdsFit_of hv.readCurTask hlong hi hlength (hcount ▸ hprocesses) (hsum ▸ htotal)

theorem printPoint_eq_ok (h : printPoint b r s = .ok (some q)) :
    ∃ signal p, signalPoint b r s = .ok (some (signal, p)) ∧
      ∀ done todo tail, Layout p done todo tail → ProcessIndex p.curProcess ∧
        ∃ pid, (signal = .tm2 → pid = 0) ∧
          q = PbsPlan.rescheduled { p with stress := stressReset } done todo tail
            (if signal = .tm2 then shrinkConstant else stretchConstant) pid := by
  obtain ⟨raised, hpoint, h⟩ := bind_eq_ok.1 h
  cases raised with
  | none => cases h
  | some x =>
      obtain ⟨signal, p⟩ := x
      refine ⟨signal, p, hpoint, fun done todo tail hl => ?_⟩
      obtain ⟨process, _, h⟩ := bind_eq_ok.1 h
      dsimp only at h
      rw [(hl.stressed stressReset).rescheduleFrom, ok_bind] at h
      obtain ⟨q', hq', h⟩ := bind_eq_ok.1 h
      obtain rfl := Option.some.inj (Except.ok.inj h)
      obtain ⟨hi, rfl⟩ := modifyProcess_eq_ok hq'
      exact ⟨hi, _, fun hsignal => if_pos hsignal, rfl⟩

theorem measured_credit {o : PbsPlan} {a : Agenda Job} (hat : At (Measured o) a p)
    (hhead : HeadReal p) (hv : Placed p done todo tail) (hlong : Long todo) (hr : 0 ≤ r)
    (hcredit : updateRetiredInstructions r p = .ok q) :
    ∃ done cur rest tail, Valid q done (cur :: rest) tail ∧ Measured o q ∧
      (done ++ cur :: rest).map PbsTask.job = a.jobs ∧ cur.taskId ≠ -1 ∧ Long (cur :: rest) := by
  obtain ⟨cur, rest, rfl⟩ := hv.retire_todo hr hcredit
  obtain ⟨⟨done₁, todo₁, tail₁, hv₁, rfl, hmeasured₁⟩, hhead₁⟩ :=
    (kept_measured o).creditAt hat hhead hr hcredit
  obtain ⟨_, rest₁, _, hvp, hlong₁⟩ := hv.long_credit hlong hr hcredit
  obtain rfl : todo₁ = credited r cur :: rest₁ :=
    hv₁.toLayout.todoTasks_eq.symm.trans hvp.toLayout.todoTasks_eq
  exact ⟨done₁, _, rest₁, tail₁, hv₁, hmeasured₁, List.map_append, hhead₁ _ hv₁.readCurTask,
    hlong₁⟩

theorem Parsed.thresholdsFit_rescheduled {o : PbsPlan} (ho : Parsed o)
    (hprocesses : 1 ≤ o.numProcesses) (hplanned : ∀ t ∈ o.parsedTasks, 2 ≤ t.instructionsPlanned)
    (htotal : 5 ≤ o.instructionsPlanned) (h : Measured o p)
    (hv : Valid p done (cur :: rest) tail)
    (hjobs : ((done ++ cur :: rest).map PbsTask.job).Perm (o.parsedTasks.map PbsTask.job))
    (hreal : cur.taskId ≠ -1) {factor : Int} (hi : ProcessIndex p.curProcess)
    (hlong : 2 ≤ (rescale factor pid cur).instructionsPlanned) :
    ThresholdsFit b (PbsPlan.rescheduled { p with stress := stressReset } done (cur :: rest) tail
      factor pid) := by
  have hstressed : Measured o { p with stress := stressReset } := h
  refine ho.thresholdsFit hprocesses hplanned htotal
    ((kept_measured o).signal (hv.stressed stressReset) hi hstressed)
    ((hv.stressed stressReset).rescheduled factor pid).toPlaced ?_ ?_ hlong
  · rw [List.map_append, ← List.map_cons, map_job_rescale, ← List.map_append]
    exact hjobs
  · rwa [taskId_rescale]

end Fit

/-- As long as no tick that raises Tm2 finds a task of process 0 of planned length 2 ahead, the
thresholds fit in every plan they are computed for. -/
theorem thresholds_fit {text : List Char} {b : Build} {pmu : Nat → Int} {s t : System} {k : Nat}
    (hparse : parsePlan text zeroedPlan = .ok s.plan) (hadmissible : Admissible s.plan)
    (hprocesses : 1 ≤ s.plan.numProcesses)
    (hplanned : ∀ u ∈ s.plan.parsedTasks, 2 ≤ u.instructionsPlanned)
    (htotal : 5 ≤ s.plan.instructionsPlanned) (hpmu : ∀ k, 0 ≤ pmu k)
    (ht : runTicks b pmu s k = .ok t)
    (hshrinks : ∀ j ≤ k, ∀ u, runTicks b pmu s j = .ok u →
      shrinksNoneTooShort b (pmu j) u = true)
    {p : PbsPlan} (hp : HasThresholds b (pmu k) t p) : ThresholdsFit b p := by
  have hparsed := parsePlan_parsed hparse
  obtain ⟨a, hat, hhead, hjobs⟩ := (kept_measured s.plan).reached hparse hadmissible hpmu
    ⟨fun _ => rfl, rfl⟩ ht
  obtain ⟨done', todo', tail', hv', hlong'⟩ :=
    enduring_long.run (hparsed.valid hadmissible).toPlaced hplanned hpmu
      (fun j hj u hu => rescalesWithin_of_shrinksNoneTooShort (hshrinks j hj.le u hu)) ht
  cases hp with
  | starts cur hcur hlive =>
      obtain ⟨done, todo, tail, hv, rfl, hmeasured⟩ := id hat
      obtain rfl : todo' = todo := hv'.toLayout.todoTasks_eq.symm.trans hv.toLayout.todoTasks_eq
      obtain ⟨rest, rfl⟩ := hv.of_readCurTask hcur hlive
      refine hparsed.thresholdsFit hprocesses hplanned htotal hmeasured hv.toPlaced ?_
        (hhead cur hcur) (hlong' cur (by simp))
      rw [List.map_append]
      exact hjobs
  | checks p cur hcur hlive hcredit =>
      obtain ⟨done₁, cur₁, rest₁, tail₁, hv₁, hmeasured₁, hagenda, hreal₁, hlong₁⟩ :=
        measured_credit hat hhead hv' hlong' (hpmu k) hcredit
      exact hparsed.thresholdsFit hprocesses hplanned htotal hmeasured₁ hv₁.toPlaced
        (hagenda ▸ hjobs) hreal₁ (hlong₁ cur₁ (by simp))
  | prints p hprint =>
      obtain ⟨signal, p₁, hpoint, hlists⟩ := printPoint_eq_ok hprint
      obtain ⟨_, hcredit, _⟩ := signalPoint_eq_ok hpoint
      obtain ⟨done₁, cur₁, rest₁, tail₁, hv₁, hmeasured₁, hagenda, hreal₁, hlong₁⟩ :=
        measured_credit hat hhead hv' hlong' (hpmu k) hcredit
      obtain ⟨hi, pid, hpid, rfl⟩ := hlists _ _ _ hv₁.toLayout
      refine hparsed.thresholdsFit_rescheduled hprocesses hplanned htotal hmeasured₁ hv₁
        (hagenda ▸ hjobs) hreal₁ hi ?_
      by_cases hsignal : signal = .tm2
      · obtain rfl := hpid hsignal
        rw [if_pos hsignal]
        refine shrink_long (hlong₁ cur₁ (by simp)) fun hzero => ?_
        refine of_shrinksNoneTooShort (hshrinks k (Nat.le_refl k) t ht) (hsignal ▸ hpoint) cur₁ ?_
          hzero
        rw [hv₁.toLayout.todoTasks_eq]
        exact List.mem_cons_self
      · rw [if_neg hsignal]
        exact stretch_long (hlong₁ cur₁ (by simp))

set_option maxRecDepth 4000 in
/-- Task 0 finishes far too early, and Tm2 shrinks task 1 from 4 to 3. -/
theorem thresholds_fit_shrunk :
    ∃ p t, parsePlan "1;0,0;;;0,0,1000000000,1;0,1,4,4;".toList zeroedPlan = .ok p ∧
      runTicks .userland everyTick ⟨p, zeroedSignals⟩ 1 = .ok t ∧
      t.plan.todoTasks.map PbsTask.instructionsPlanned = [3] ∧ ThresholdsFit .userland t.plan := by
  obtain ⟨p, t, hp, ht, hcheck⟩ :=
    @of_onRun .userland "1;0,0;;;0,0,1000000000,1;0,1,4,4;".toList everyTick 1
      (fun p t => decide (Admissible p ∧ 1 ≤ p.numProcesses ∧
        (∀ u ∈ p.parsedTasks, 2 ≤ u.instructionsPlanned) ∧ 5 ≤ p.instructionsPlanned ∧
        t.plan.todoTasks.map PbsTask.instructionsPlanned = [3]) &&
        (allTicks (shrinksNoneTooShort .userland) .userland everyTick ⟨p, zeroedSignals⟩ 2 &&
          onCurTask t.plan (·.taskId ≠ -2))) (by decide +kernel)
  simp only [Bool.and_eq_true, decide_eq_true_eq] at hcheck
  obtain ⟨⟨hadmissible, hprocesses, hplanned, htotal, htodo⟩, hshrinks, hcur⟩ := hcheck
  obtain ⟨cur, hcur, hlive⟩ := of_onCurTask hcur
  exact ⟨p, t, hp, ht, htodo, thresholds_fit (s := ⟨p, zeroedSignals⟩) hp hadmissible hprocesses
    hplanned htotal everyTick_nonneg ht (fun j hj u hu => of_allTicks hshrinks (by omega) hu)
    (.starts cur hcur (of_decide_eq_true hlive))⟩

set_option maxRecDepth 4000 in
/-- With a length of 2 the shrunk task 1 fails the assertion on Tm2 when it finishes. -/
theorem thresholds_unfit :
    ∃ p t cur, parsePlan "1;0,0;;;0,0,1000000000,1;0,1,2,2;".toList zeroedPlan = .ok p ∧
      Admissible p ∧ 1 ≤ p.numProcesses ∧ (∀ u ∈ p.parsedTasks, 2 ≤ u.instructionsPlanned) ∧
      5 ≤ p.instructionsPlanned ∧ (∀ u ∈ p.parsedTasks, 0 < u.instructionsReal) ∧
      runTicks .userland everyTick ⟨p, zeroedSignals⟩ 1 = .ok t ∧
      t.plan.readCurTask = .ok cur ∧ cur.instructionsPlanned = 1 ∧ calculateTm2Task cur = 1 ∧
      HasThresholds .userland (everyTick 1) t t.plan ∧ ¬ ThresholdsFit .userland t.plan ∧
      runTicks .userland everyTick ⟨p, zeroedSignals⟩ 2 =
        .error (.assertion .checkTm2TaskUpper) := by
  obtain ⟨p, t, hp, ht, hcheck⟩ :=
    @of_onRun .userland "1;0,0;;;0,0,1000000000,1;0,1,2,2;".toList everyTick 1
      (fun p t => decide (Admissible p ∧ 1 ≤ p.numProcesses ∧
        (∀ u ∈ p.parsedTasks, 2 ≤ u.instructionsPlanned) ∧ 5 ≤ p.instructionsPlanned ∧
        (∀ u ∈ p.parsedTasks, 0 < u.instructionsReal) ∧
        faultOf (runTicks .userland everyTick ⟨p, zeroedSignals⟩ 2) =
          some (.assertion .checkTm2TaskUpper)) &&
        onCurTask t.plan fun cur => cur.taskId ≠ -2 && (cur.instructionsPlanned = 1 &&
          calculateTm2Task cur = 1)) (by decide +kernel)
  simp only [Bool.and_eq_true, decide_eq_true_eq] at hcheck
  obtain ⟨⟨hadmissible, hprocesses, hplanned, htotal, hreal, hfault⟩, hcur⟩ := hcheck
  obtain ⟨cur, hread, hcur⟩ := of_onCurTask hcur
  simp only [Bool.and_eq_true, decide_eq_true_eq] at hcur
  obtain ⟨hlive, hone, htm2⟩ := hcur
  refine ⟨p, t, cur, hp, hadmissible, hprocesses, hplanned, htotal, hreal, ht, hread, hone, htm2,
    .starts cur hread hlive, fun hfits => ?_, eq_error_of_faultOf hfault⟩
  obtain ⟨_, hlt⟩ := hfits.tm2Task cur hread
  omega

end PbsLevel2
