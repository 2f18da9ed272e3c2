import PbsLevel2.Proofs.Limits
import PbsLevel2.Proofs.Signals

/-!
# Deviations of a task

The percentages of `config.h` against what `calculate_t1` and `calculate_t2_task` make of
them, which is the planned length times the whole number.
-/

namespace PbsLevel2

open Lib

/-- A percentage as the other thresholds compute it. -/
def percent (percentage instructions : Int) : Int :=
  (instructions * percentage).tdiv 100

/-! ## T1 -/

/-- `T1_SIGMA` percent of the planned length, but at least `T1_MIN_TICKS_OFF` and at most
`T1_MAX_TICKS_OFF` ticks over it. -/
def configuredT1 (planned : Int) : Int :=
  max (planned + t1MinTicksOff * insPerTick)
    (min (planned + t1MaxTicksOff * insPerTick) (percent t1Sigma planned))

section T1

variable {n : Int}

theorem percent_t1Sigma (hn : 0 ≤ n) : percent t1Sigma n = n * 125 / 100 := by
  unfold percent
  rw [Int.tdiv_eq_ediv_of_nonneg (Int.mul_nonneg hn (by decide))]
  rfl

theorem configuredT1_eq_iff (hn : 0 ≤ n) :
    n + t1NoPreemption = configuredT1 n ↔ n ≤ 120000003 := by
  have hmin : t1MinTicksOff * insPerTick = 30000000 := rfl
  have hmax : t1MaxTicksOff * insPerTick = 100000000 := rfl
  have hlow : t1NoPreemption = 30000000 := rfl
  unfold configuredT1
  rw [percent_t1Sigma hn, hmin, hmax, hlow]
  omega

/-- T1 is what is configured, and preempts no task too early, if and only if the planned
length is at most 12 ticks. -/
theorem calculateT1_configured_iff (hn : 0 ≤ n) :
    ((∀ t : PbsTask, t.instructionsPlanned = n → calculateT1 t = configuredT1 n) ∧
      ∀ (p : PbsPlan) (slot : Nat) (t : PbsTask), slotOfCurTask p = .ok slot →
        p.readTask slot = .ok t → t.instructionsPlanned = n → checkT1 p = .ok .t1 →
        percent t1Sigma n ≤ t.instructionsRetiredSlot ∨
          n + t1MaxTicksOff * insPerTick ≤ t.instructionsRetiredSlot) ↔ n ≤ 120000003 := by
  constructor
  · intro h
    have ht1 := h.1 { instructionsPlanned := n } rfl
    rw [calculateT1_eq] at ht1
    exact (configuredT1_eq_iff hn).1 ht1
  · intro hle
    constructor
    · intro t ht
      rw [calculateT1_eq, ht]
      exact (configuredT1_eq_iff hn).2 hle
    · intro p slot t hslot hread ht hcheck
      left
      unfold checkT1 at hcheck
      rw [if_neg (by decide), hslot, ok_bind, hread, ok_bind, calculateT1_eq, ht] at hcheck
      dsimp only at hcheck
      have hlow : t1NoPreemption = 30000000 := rfl
      rw [percent_t1Sigma hn]
      by_cases hreached : t.instructionsRetiredSlot ≥ n + t1NoPreemption
      · omega
      · rw [if_neg hreached] at hcheck
        cases hcheck

end T1

theorem calculateT1_configured_twelveTicks :
    calculateT1 { instructionsPlanned := 120000000 } = configuredT1 120000000 :=
  ((calculateT1_configured_iff (by decide)).2 (by decide)).1 _ rfl

set_option maxRecDepth 4000 in
/-- A task of 13 ticks is preempted 3 ticks late, with 123 percent of its slot used. -/
theorem calculateT1_unclamped :
    ∃ p t q cur, parsePlan "2;0,0;1,0;;;0,0,130000000,900000000;1,1,1,1;0,2,1,1;".toList zeroedPlan =
        .ok p ∧ runTicks .userland everyTick ⟨p, zeroedSignals⟩ 15 = .ok t ∧
      preemptionPoint .userland (everyTick 15) t = .ok (some q) ∧ q.readCurTask = .ok cur ∧
      cur.slotOwner = cur.taskId ∧ cur.instructionsRetiredSlot = 160000000 ∧
      cur.instructionsRetiredSlot < percent t1Sigma cur.instructionsPlanned ∧
      cur.instructionsRetiredSlot < cur.instructionsPlanned + t1MaxTicksOff * insPerTick ∧
      calculateT1 cur ≠ configuredT1 cur.instructionsPlanned := by
  obtain ⟨p, t, hp, ht, hcheck⟩ :=
    @of_onRun .userland "2;0,0;1,0;;;0,0,130000000,900000000;1,1,1,1;0,2,1,1;".toList everyTick 15
      (fun _ t => onSome (preemptionPoint .userland (everyTick 15) t) fun q =>
        onCurTask q fun cur => decide (cur.slotOwner = cur.taskId ∧
          cur.instructionsRetiredSlot = 160000000 ∧
          cur.instructionsRetiredSlot < percent t1Sigma cur.instructionsPlanned ∧
          cur.instructionsRetiredSlot < cur.instructionsPlanned + t1MaxTicksOff * insPerTick ∧
          calculateT1 cur ≠ configuredT1 cur.instructionsPlanned)) (by decide +kernel)
  obtain ⟨q, hpoint, hcheck⟩ := of_onSome hcheck
  obtain ⟨cur, hcur, hcheck⟩ := of_onCurTask hcheck
  rw [decide_eq_true_eq] at hcheck
  exact ⟨p, t, q, cur, hp, ht, hpoint, hcur, hcheck⟩

/-! ## T2 -/

/-- The task itself executed more than T1 and the spacer, and more than `T2_SIGMA` percent of
its planned length. -/
def Deviates (t : PbsTask) : Prop :=
  calculateT1 t + t2Spacer < t.instructionsRetiredTask ∧
    percent t2Sigma t.instructionsPlanned < t.instructionsRetiredTask

instance (t : PbsTask) : Decidable (Deviates t) :=
  inferInstanceAs (Decidable (_ ∧ _))

/-- The current task `cur` of `p` deviates when the tick from `s`, which has made its credit,
looks for T2. -/
def DeviationPoint (r : Int) (s : System) (p : PbsPlan) (cur : PbsTask) : Prop :=
  (∃ c, s.plan.readCurTask = .ok c ∧ c.taskId ≠ -2) ∧
  updateRetiredInstructions r s.plan = .ok p ∧ p.readCurTask = .ok cur ∧ cur.state ≠ .finished ∧
    p.stress ≤ 0 ∧ Deviates cur

/-- How much of the plan of process `q` is executed, in percent. -/
def completedPercent (q : PbsProcess) : Int :=
  let completed := (q.instructionsRetired * 100).tdiv q.lengthPlan
  if completed > 100 then 100 else toInt completed

/-- The share of `q` in the buffer of the plan. -/
def bufferShare (p : PbsPlan) (q : PbsProcess) : Int :=
  ((q.buffer * t2CapacityBuffer - q.buffer).tdiv p.numProcesses * t2AssignablePlanBuffer *
    completedPercent q).tdiv 100

/-- A lateness of `q` shows from here on: above 110 lengths of its plan, `T2_PROCESS_MINIMUM` and
its share of the buffer. -/
def processLimit (p : PbsPlan) (q : PbsProcess) : Int :=
  max (q.lengthPlan * t2CapacityBuffer)
    (max t2ProcessMinimum (bufferShare p q + p.stress * t2StressGain - rescheduleTime))

/-- A lateness of the node shows from here on: above 10 percent of the plan and
`T2_PROCESS_MINIMUM` for each process. -/
def nodeLimit (p : PbsPlan) : Int :=
  max (p.numProcesses * t2ProcessMinimum)
    ((p.instructionsPlanned * t2NodeLateness).tdiv 100 + p.stress * t2StressGain - rescheduleTime -
      p.instructionsPlanned)

/-- The limits of `q` can be computed: no divisor is 0 and, in the userland build, the length of
the plan and the completion pass their assertions. -/
structure Measurable (b : Build) (p : PbsPlan) (q : PbsProcess) : Prop where
  length : b = .userland → 0 < q.lengthPlan
  share : q.lengthPlan * t2CapacityBuffer < q.lateness → q.lengthPlan ≠ 0 ∧ p.numProcesses ≠ 0 ∧
    (b = .userland → 0 ≤ (q.instructionsRetired * 100).tdiv q.lengthPlan)

/-- The lateness of the current process or of the node is above its limit. -/
def LatenessShows (b : Build) (p : PbsPlan) : Prop :=
  let q := processAt p.processes p.curProcess
  ProcessIndex p.curProcess ∧ Measurable b p q ∧
    (processLimit p q < q.lateness ∨ (b = .userland → 0 < nodeLimit p) ∧ nodeLimit p < p.lateness)

/-- A task that deviates is seen through its own slot if it did not execute elsewhere, or if its own
slot alone is above T1 and the spacer, and its own slot was used for `T2_SIGMA` times (not percent
of) its planned length; otherwise through the lateness of its process or of the node. -/
def DeviationSeen (b : Build) (p : PbsPlan) (cur : PbsTask) : Prop :=
  (cur.instructionsRetiredTask ≤ cur.instructionsRetiredSlot ∨
      cur.instructionsPlanned + t1NoPreemption + t2Spacer < cur.instructionsRetiredSlot) ∧
    t2Sigma * cur.instructionsPlanned < cur.instructionsRetiredSlot ∨
  LatenessShows b p

section T2

variable {b : Build} {r : Int} {s : System} {p : PbsPlan} {q : PbsProcess} {cur : PbsTask}
  {c : Check}

theorem checkT2Task_eq (hcur : p.readCurTask = .ok cur) :
    checkT2Task p = .ok (if calculateT1 cur + t2Spacer < cur.instructionsRetiredSlot ∧
      t2Sigma * cur.instructionsPlanned < cur.instructionsRetiredSlot then .t2 else .ok) := by
  unfold checkT2Task calculateT2Task
  rw [if_neg (by decide), hcur, ok_bind, Int.mul_comm t2Sigma]
  dsimp only
  split <;> split <;> split <;> first | rfl | omega

theorem Deviates.seen_iff (h : Deviates cur) :
    (calculateT1 cur + t2Spacer < cur.instructionsRetiredSlot ∧
      t2Sigma * cur.instructionsPlanned < cur.instructionsRetiredSlot) ↔
    (cur.instructionsRetiredTask ≤ cur.instructionsRetiredSlot ∨
      cur.instructionsPlanned + t1NoPreemption + t2Spacer < cur.instructionsRetiredSlot) ∧
      t2Sigma * cur.instructionsPlanned < cur.instructionsRetiredSlot := by
  obtain ⟨hover, _⟩ := h
  rw [calculateT1_eq] at hover ⊢
  refine and_congr_left fun _ => ⟨.inr, ?_⟩
  rintro (hown | hslot)
  · omega
  · exact hslot

theorem assertThat_eq_ok {a : Assertion} {holds : Bool} {u : Unit} :
    assertThat b a holds = .ok u ↔ (b = .userland → holds = true) := by
  cases b <;> cases holds <;> simp [assertThat]

theorem divide_eq_ok {m n k : Int} : divide m n = .ok k ↔ n ≠ 0 ∧ m.tdiv n = k := by
  rw [divide]
  split <;> simp [*]

theorem calculateProcessCompletion_eq_ok {n : Int} :
    calculateProcessCompletion b q = .ok n ↔ (q.lengthPlan ≠ 0 ∧
      (b = .userland → 0 ≤ (q.instructionsRetired * 100).tdiv q.lengthPlan)) ∧
      completedPercent q = n := by
  simp only [calculateProcessCompletion, bind_eq_ok, divide_eq_ok, assertThat_eq_ok,
    decide_eq_true_eq]
  constructor
  · rintro ⟨_, ⟨hlength, rfl⟩, _, hassert, heq⟩
    exact ⟨⟨hlength, hassert⟩, Except.ok.inj heq⟩
  · rintro ⟨⟨hlength, hassert⟩, rfl⟩
    exact ⟨_, ⟨hlength, rfl⟩, (), hassert, rfl⟩

theorem calculateAllowedPlanBuffer_eq_ok {n : Int} :
    calculateAllowedPlanBuffer b q p = .ok n ↔ (q.lengthPlan ≠ 0 ∧ p.numProcesses ≠ 0 ∧
      (b = .userland → 0 ≤ (q.instructionsRetired * 100).tdiv q.lengthPlan)) ∧
      bufferShare p q = n := by
  simp only [calculateAllowedPlanBuffer, bind_eq_ok, divide_eq_ok, calculateProcessCompletion_eq_ok]
  constructor
  · rintro ⟨_, ⟨⟨hlength, hassert⟩, rfl⟩, _, ⟨hcount, rfl⟩, heq⟩
    exact ⟨⟨hlength, hcount, hassert⟩, Except.ok.inj heq⟩
  · rintro ⟨⟨hlength, hcount, hassert⟩, rfl⟩
    exact ⟨_, ⟨⟨hlength, hassert⟩, rfl⟩, _, ⟨hcount, rfl⟩, rfl⟩

theorem calculateCapacityBuffer_eq_ok {n : Int} : calculateCapacityBuffer b q = .ok n ↔
    (b = .userland → 0 < q.lengthPlan) ∧ q.lengthPlan * t2CapacityBuffer = n := by
  have hlength : q.lengthPlan * t2CapacityBuffer > q.lengthPlan ↔ 0 < q.lengthPlan := by
    rw [show t2CapacityBuffer = 110 from rfl]
    omega
  simp only [calculateCapacityBuffer, bind_eq_ok, assertThat_eq_ok, decide_eq_true_eq, hlength]
  constructor
  · rintro ⟨_, hassert, heq⟩
    exact ⟨hassert, Except.ok.inj heq⟩
  · rintro ⟨hassert, rfl⟩
    exact ⟨(), hassert, rfl⟩

theorem le_processLimit : q.lengthPlan * t2CapacityBuffer ≤ processLimit p q :=
  Int.le_max_left _ _

theorem answer_eq_ok {P : Prop} [Decidable P] :
    (if P then pure .t2 else pure .ok : Exec Check) = .ok c ↔ (if P then .t2 else .ok) = c := by
  split <;> exact ⟨Except.ok.inj, congrArg Except.ok⟩

theorem checkT2Process_eq_ok : checkT2Process b p = .ok c ↔
    (ProcessIndex p.curProcess ∧ Measurable b p (processAt p.processes p.curProcess)) ∧
      (if processLimit p (processAt p.processes p.curProcess) <
        (processAt p.processes p.curProcess).lateness then .t2 else .ok) = c := by
  by_cases hi : ProcessIndex p.curProcess
  swap
  · refine iff_of_false (fun h => ?_) fun h => hi h.1.1
    obtain ⟨q, hq, _⟩ := bind_eq_ok.1 h
    exact hi (readProcess_index hq)
  set q := processAt p.processes p.curProcess
  have hcapacity := le_processLimit (p := p) (q := q)
  rw [checkT2Process, if_neg (by decide), readProcess_eq hi, ok_bind]
  simp only [bind_eq_ok, calculateCapacityBuffer_eq_ok]
  by_cases hlate : q.lengthPlan * t2CapacityBuffer < q.lateness
  · -- the second level compares with the share, but at least with the minimum
    have hlimit : processLimit p q < q.lateness ↔
        max t2ProcessMinimum (bufferShare p q + p.stress * t2StressGain - rescheduleTime) <
          q.lateness := by
      rw [processLimit]
      omega
    have hmax : ∀ n : Int, (if n < t2ProcessMinimum then t2ProcessMinimum else n) =
        max t2ProcessMinimum n := by
      intro n
      split <;> omega
    constructor
    · rintro ⟨_, ⟨hlength, rfl⟩, h⟩
      rw [if_pos hlate] at h
      obtain ⟨_, hallowed, h⟩ := bind_eq_ok.1 h
      obtain ⟨hshare, rfl⟩ := calculateAllowedPlanBuffer_eq_ok.1 hallowed
      refine ⟨⟨hi, hlength, fun _ => hshare⟩, ?_⟩
      rw [hmax] at h
      rw [if_congr hlimit rfl rfl]
      exact answer_eq_ok.1 h
    · rintro ⟨⟨_, hlength, hshare⟩, rfl⟩
      refine ⟨_, ⟨hlength, rfl⟩, ?_⟩
      rw [if_pos hlate, calculateAllowedPlanBuffer_eq_ok.2 ⟨hshare hlate, rfl⟩, ok_bind, hmax,
        if_congr hlimit rfl rfl]
      exact answer_eq_ok.2 rfl
  · have hbelow : ¬ processLimit p q < q.lateness := by omega
    rw [if_neg hbelow]
    constructor
    · rintro ⟨_, ⟨hlength, rfl⟩, h⟩
      rw [if_neg hlate] at h
      exact ⟨⟨hi, hlength, fun h => absurd h hlate⟩, Except.ok.inj h⟩
    · rintro ⟨⟨_, hlength, _⟩, rfl⟩
      exact ⟨_, ⟨hlength, rfl⟩, if_neg hlate⟩

theorem calculateT2Node_eq_ok {n : Int} : calculateT2Node b p = .ok n ↔
    (b = .userland → 0 < nodeLimit p) ∧ nodeLimit p = n := by
  set relative := (p.instructionsPlanned * t2NodeLateness).tdiv 100 + p.stress * t2StressGain -
    rescheduleTime - p.instructionsPlanned with hrelative
  have hlimit : (if relative < p.numProcesses * t2ProcessMinimum
      then p.numProcesses * t2ProcessMinimum else relative) = nodeLimit p := by
    rw [nodeLimit, ← hrelative]
    split <;> omega
  unfold calculateT2Node
  dsimp only
  rw [← hrelative, hlimit]
  simp only [bind_eq_ok, assertThat_eq_ok, decide_eq_true_eq, gt_iff_lt]
  constructor
  · rintro ⟨_, hassert, heq⟩
    exact ⟨hassert, Except.ok.inj heq⟩
  · rintro ⟨hassert, rfl⟩
    exact ⟨(), hassert, rfl⟩

theorem checkT2Node_eq_ok : checkT2Node b p = .ok c ↔
    (b = .userland → 0 < nodeLimit p) ∧ (if nodeLimit p < p.lateness then .t2 else .ok) = c := by
  simp only [checkT2Node, bind_eq_ok, calculateT2Node_eq_ok, t2NodeEnabled, Bool.not_true,
    Bool.false_eq_true, if_false, gt_iff_lt]
  constructor
  · rintro ⟨_, ⟨hassert, rfl⟩, h⟩
    exact ⟨hassert, answer_eq_ok.1 h⟩
  · rintro ⟨hassert, rfl⟩
    exact ⟨_, ⟨hassert, rfl⟩, answer_eq_ok.2 rfl⟩

theorem latenessShows_iff : LatenessShows b p ↔ checkT2Process b p = .ok .t2 ∨
    checkT2Process b p = .ok .ok ∧ checkT2Node b p = .ok .t2 := by
  have ht2 : ∀ (x y : Int), (if x < y then Check.t2 else .ok) = .t2 ↔ x < y := by
    intro x y
    split <;> simp [*]
  have hok : ∀ (x y : Int), (if x < y then Check.t2 else .ok) = .ok ↔ ¬ x < y := by
    intro x y
    split <;> simp [*]
  rw [checkT2Process_eq_ok, checkT2Process_eq_ok, checkT2Node_eq_ok, ht2, hok, ht2, LatenessShows,
    ← and_assoc, and_or_left]
  by_cases hover : processLimit p (processAt p.processes p.curProcess) <
      (processAt p.processes p.curProcess).lateness
  · simp only [hover, not_true_eq_false, and_true, and_false, false_and, or_false]
    exact or_iff_left_of_imp And.left
  · simp [hover]

theorem checkT2Process_answer (h : checkT2Process b p = .ok c) : c = .t2 ∨ c = .ok := by
  obtain ⟨_, rfl⟩ := checkT2Process_eq_ok.1 h
  split <;> simp

theorem raisesT2_iff (hcur : p.readCurTask = .ok cur) (hstress : p.stress ≤ 0)
    (hdeviates : Deviates cur) : raisesT2 b p = .ok true ↔ DeviationSeen b p cur := by
  unfold raisesT2 DeviationSeen
  rw [hcur, ok_bind, if_pos (by simp [hstress]), checkT2Task_eq hcur, ok_bind,
    ← hdeviates.seen_iff, latenessShows_iff]
  by_cases htask : calculateT1 cur + t2Spacer < cur.instructionsRetiredSlot ∧
      t2Sigma * cur.instructionsPlanned < cur.instructionsRetiredSlot
  · rw [if_pos htask]
    exact iff_of_true rfl (.inl htask)
  · rw [if_neg htask, or_iff_right htask, if_neg (by decide)]
    cases hprocess : checkT2Process b p with
    | error e =>
        apply iff_of_false
        · exact fun h => nomatch h
        · rintro (h | ⟨h, _⟩) <;> cases h
    | ok c =>
        rw [ok_bind]
        rcases checkT2Process_answer hprocess with rfl | rfl
        · exact iff_of_true rfl (.inl rfl)
        · rw [if_neg (by decide)]
          cases hnode : checkT2Node b p with
          | error e =>
              apply iff_of_false
              · exact fun h => nomatch h
              · rintro (h | ⟨_, h⟩) <;> cases h
          | ok c' =>
              obtain ⟨_, rfl⟩ := checkT2Node_eq_ok.1 hnode
              split
              · exact iff_of_true rfl (.inr ⟨rfl, rfl⟩)
              · exact iff_of_false (fun h => nomatch h) (by rintro (h | ⟨_, h⟩) <;> cases h)

/-- A tick signals the deviation it comes to if and only if it is seen. -/
theorem signalPoint_deviation_iff (h : DeviationPoint r s p cur) :
    signalPoint b r s = .ok (some (.t2, p)) ↔ DeviationSeen b p cur := by
  obtain ⟨⟨c₀, hc₀, hlive⟩, hcredit, hcur, hstate, hstress, hdeviates⟩ := h
  rw [← raisesT2_iff hcur hstress hdeviates]
  unfold signalPoint
  rw [hc₀, ok_bind, if_neg hlive, hcredit, ok_bind, hcur, ok_bind, if_neg hstate]
  cases hraises : raisesT2 b p with
  | error e => exact iff_of_false (fun h => nomatch h) (fun h => nomatch h)
  | ok raised => cases raised <;> simp

end T2

end PbsLevel2
