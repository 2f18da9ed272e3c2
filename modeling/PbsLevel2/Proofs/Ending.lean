import PbsLevel2.Proofs.Order

/-!
# The end of a run

`start_run` waits for the plan state `PLAN_FINISHED`.  That state is set in one place, when
a preempted task finds no slot to move to, and there the current task is not the terminator.
-/

namespace PbsLevel2

open Lib

/-! ## Who sets the state of the plan -/

section State

variable {p q : PbsPlan} {done todo tail : List PbsTask} {cur : PbsTask} {a : Agenda Job} {b : Build}
  {r : Int} {s s₂ s' : System}

theorem Valid.state_credit (hv : Valid p done todo tail) (hr : 0 ≤ r)
    (hq : updateRetiredInstructions r p = .ok q) : q.state = p.state := by
  obtain ⟨cur, rest, rfl⟩ := hv.retire_todo hr hq
  obtain ⟨_, _, _, _, _, _, _, _, heq⟩ := hv.toLayout.retire hr hq
  rw [heq]

theorem Layout.state_signal (hl : Layout s.plan done todo tail)
    (hs : Signalled b s s₂) :
    s₂.plan.state = s.plan.state := by
  rcases hs with rfl | hs | hs
  · rfl
  · obtain ⟨_, heq, _⟩ := signalT2_eq_ok hl hs
    rw [heq]
    rfl
  · obtain ⟨_, heq, _⟩ := signalTm2_eq_ok hl hs
    rw [heq]
    rfl

theorem Valid.state_skip (hv : Valid p done todo tail) (hq : skipFreeSlot b p = .ok q) :
    q.state = p.state := by
  rcases skipFreeSlot_eq_ok hv.toLayout hq with ⟨_, rfl⟩ | ⟨cur, rest, first, rfl, _, _, hq⟩
  · rfl
  · by_cases hr : -first.instructionsPlanned < 0
    · rw [updateRetiredInstructions_neg hr] at hq
      obtain rfl := Except.ok.inj hq
      rfl
    · exact hv.passed.state_credit (by omega) hq

def Running (p : PbsPlan) : Prop :=
  ∀ cur, p.readCurTask = .ok cur → cur.taskId ≠ -2

theorem Valid.state_preempt {rest : List PbsTask} (hv : Valid p done (cur :: rest) tail)
    (hcur : cur.taskId ≠ -1) (hrun : cur.instructionsRetiredTask < cur.instructionsReal)
    (hq : preemptCurTask b p = .ok q) : q.state = p.state ∨ Running q ∧ HeadReal q := by
  rcases preemptCurTask_eq_ok hv.toLayout hq with
    ⟨blk, n, ns, f, post, _, _, rfl⟩ | ⟨_, q₁, hq₁, rfl⟩
  · exact .inl rfl
  · right
    obtain ⟨_, _, _, hv', _⟩ := hv.bumped.credit (Int.sub_nonneg_of_le (Int.le_of_lt hrun)) hq₁
    have hread : { q₁ with state := .planFinished }.readCurTask = .ok (credited
        (cur.instructionsReal - cur.instructionsRetiredTask) (bump cur)) := hv'.readCurTask
    have hid := job_taskId (job_credited (cur.instructionsReal - cur.instructionsRetiredTask)
      (bump cur))
    constructor
    · intro c hc
      obtain rfl := Except.ok.inj (hread.symm.trans hc)
      rw [hid]
      exact (hv.live cur (by simp)).1
    · intro c hc
      obtain rfl := Except.ok.inj (hread.symm.trans hc)
      rw [hid]
      exact hcur

theorem state_signalled (h : At (fun _ => True) a s.plan) (hh : HeadReal s.plan) (hr : 0 ≤ r)
    (hcredit : updateRetiredInstructions r s.plan = .ok p)
    (hs : Signalled b { s with plan := p } s₂) : s₂.plan.state = s.plan.state := by
  obtain ⟨⟨_, _, _, hv₁, _⟩, _⟩ := kept_true.creditAt h hh hr hcredit
  obtain ⟨_, _, _, hv, _⟩ := h
  exact (hv₁.toLayout.state_signal (s := { s with plan := p }) hs).trans (hv.state_credit hr hcredit)

/-- A tick that ends the plan leaves a task current. -/
theorem state_tick (h : At (fun _ => True) a s.plan) (hh : HeadReal s.plan) (hr : 0 ≤ r)
    (htick : pbsRunTimerTick b r s = .ok s') : s'.plan.state = s.plan.state ∨ Running s'.plan := by
  cases tick_cases htick with
  | ended cur hcur hend hs => exact .inl (by rw [hs])
  | finished p₁ cur s₂ p₃ p₄ hlive hcredit hcur hstate hsignal hbook hskip hs =>
      left
      have hs₂ := signalIfTm2_eq_ok hsignal
      obtain ⟨_, _, _, planned, done, rest, tail, hv₂⟩ :=
        kept_true.signalled h hh hr hcredit hcur hs₂
      obtain ⟨_, rfl⟩ := finishTask_eq_ok hv₂.toPlaced hbook
      rw [hs]
      exact ((hv₂.booked _).passed.state_skip hskip).trans (state_signalled h hh hr hcredit hs₂)
  | preempted p₁ cur s₂ p₃ p₄ hlive hcredit hcur hstate hsignal ht1 hpreempt hskip hs =>
      obtain ⟨c, hc, _, hclive⟩ := Kept.readCurTask_credit h hr hcredit
      have hpoint := preemptionPoint_eq hc hclive hcredit hcur hstate hsignal ht1
      have hs₂ := signalIfT2_eq_ok hsignal
      have hstate₂ := state_signalled h hh hr hcredit hs₂
      obtain ⟨⟨_, _, _, hv₂, _⟩, hh₂, cur₂, hcur₂, hlive₂, hrun⟩ :=
        kept_true.preemptionPointAt h hh hr hpoint
      obtain ⟨rest, rfl⟩ := hv₂.of_readCurTask hcur₂ hlive₂
      obtain ⟨_, _, _, _, hv₃, _⟩ := kept_true.freeSlotPointAt h hh hr (fun _ _ _ _ _ => trivial)
        (freeSlotPoint_preempted hpoint hpreempt)
      rw [hs]
      rcases hv₂.state_preempt (hh₂ _ hcur₂) hrun hpreempt with hsame | ⟨hrunning, hreal⟩
      · exact .inl ((hv₃.state_skip hskip).trans
          (hsame.trans hstate₂))
      · right
        -- the task that goes on is no free slot, so nothing is skipped
        rcases skipFreeSlot_eq_ok hv₃.toLayout hskip with ⟨_, rfl⟩ | ⟨cur, rest, _, rfl, hfree, _⟩
        · exact hrunning
        · exact absurd hfree (hreal cur hv₃.readCurTask)
  | waited p₁ cur s₂ hlive hcredit hcur hstate hsignal ht1 hs =>
      left
      have hs₂ := signalIfT2_eq_ok hsignal
      have hstate₂ := state_signalled h hh hr hcredit hs₂
      rw [hs, relieveStress_eq]
      exact hstate₂

end State

/-! ## The loop of `start_run` -/

section Run

variable {text : List Char} {b : Build} {pmu : Nat → Int} {s t u : System} {k : Nat}

theorem state_tick_of_reached (hparse : parsePlan text zeroedPlan = .ok s.plan)
    (hadmissible : Admissible s.plan) (hpmu : ∀ k, 0 ≤ pmu k) (hu : runTicks b pmu s k = .ok u)
    (htick : pbsRunTimerTick b (pmu k) u = .ok t) :
    t.plan.state = u.plan.state ∨ Running t.plan := by
  obtain ⟨a, hat, hhead, _⟩ := kept_true.reached hparse hadmissible hpmu trivial hu
  exact state_tick hat hhead (hpmu k) htick

theorem finished_in_task (hparse : parsePlan text zeroedPlan = .ok s.plan)
    (hadmissible : Admissible s.plan) (hpmu : ∀ k, 0 ≤ pmu k) (ht : runTicks b pmu s k = .ok t)
    (hstate : t.plan.state = .planFinished) :
    ∃ j ≤ k, ∃ u, runTicks b pmu s j = .ok u ∧ u.plan.state = .planFinished ∧ Running u.plan := by
  induction k generalizing t with
  | zero =>
      obtain rfl := Except.ok.inj ht
      rw [(parsePlan_parsed hparse).state] at hstate
      cases hstate
  | succ k ih =>
      obtain ⟨u, hu, htick⟩ := run_succ_eq_ok.1 ht
      rcases state_tick_of_reached hparse hadmissible hpmu hu htick with hsame | hrunning
      · obtain ⟨j, hj, v, hv⟩ := ih hu (hsame.symm.trans hstate)
        exact ⟨j, by omega, v, hv⟩
      · exact ⟨k + 1, Nat.le_refl _, t, ht, hstate, hrunning⟩

theorem startRun_running (hparse : parsePlan text zeroedPlan = .ok s.plan)
    (hadmissible : Admissible s.plan) (hpmu : ∀ k, 0 ≤ pmu k) {fuel : Nat}
    (hu : runTicks b pmu s k = .ok u) (hrunning : u.plan.state = .planFinished → Running u.plan)
    (ht : startRun b pmu fuel k u = .ok (some t)) : Running t.plan := by
  induction fuel generalizing k u with
  | zero => cases ht
  | succ fuel ih =>
      rw [startRun] at ht
      split at ht <;> rename_i hstate
      · cases ht
        exact hrunning hstate
      · obtain ⟨v, htick, ht⟩ := bind_eq_ok.1 ht
        refine ih (k := k + 1) (u := v) ?_ (fun hfinished => ?_) ht
        · exact run_succ_eq_ok.2 ⟨u, hu, htick⟩
        · rcases state_tick_of_reached hparse hadmissible hpmu hu htick with hsame | hrunning
          · exact absurd (hsame.symm.trans hfinished) hstate
          · exact hrunning

/-- `start_run` never returns at the terminator; and a run that reaches the terminator goes
through a state in which the plan state and the current task disagree about its end. -/
theorem startRun_not_at_terminator (hparse : parsePlan text zeroedPlan = .ok s.plan)
    (hadmissible : Admissible s.plan) (hpmu : ∀ k, 0 ≤ pmu k) :
    (¬ ∃ fuel t cur, startRun b pmu fuel 0 s = .ok (some t) ∧ t.plan.readCurTask = .ok cur ∧
      cur.taskId = -2) ∧
    ∀ k t cur, runTicks b pmu s k = .ok t → t.plan.readCurTask = .ok cur → cur.taskId = -2 →
      ∃ j ≤ k, ∃ u c, runTicks b pmu s j = .ok u ∧ u.plan.readCurTask = .ok c ∧
        ¬ (u.plan.state = .planFinished ↔ c.taskId = -2) := by
  constructor
  · rintro ⟨fuel, t, cur, hreturn, hcur, hend⟩
    refine startRun_running (k := 0) hparse hadmissible hpmu rfl (fun hstate => ?_) hreturn cur hcur
      hend
    rw [(parsePlan_parsed hparse).state] at hstate
    cases hstate
  · intro k t cur ht hcur hend
    by_cases hstate : t.plan.state = .planFinished
    · obtain ⟨j, hj, u, hu, hfinished, hrunning⟩ :=
        finished_in_task hparse hadmissible hpmu ht hstate
      obtain ⟨c, hc⟩ : ∃ c, u.plan.readCurTask = .ok c := by
        obtain ⟨_, ⟨_, _, _, hv, _⟩, _⟩ := kept_true.reached hparse hadmissible hpmu trivial hu
        obtain ⟨c, _, _, hc⟩ := hv.head
        exact ⟨c, hc⟩
      exact ⟨j, hj, u, c, hu, hc, fun h => hrunning c hc (h.1 hfinished)⟩
    · exact ⟨k, Nat.le_refl k, t, cur, ht, hcur, fun h => hstate (h.2 hend)⟩

theorem startRun_ended {cur : PbsTask} (hcur : u.plan.readCurTask = .ok cur)
    (hend : cur.taskId = -2) (hnum : u.plan.numTasks < 400)
    (hstate : u.plan.state ≠ .planFinished) (fuel k : Nat) :
    startRun b pmu fuel k u = .ok none := by
  induction fuel generalizing k with
  | zero => rfl
  | succ fuel ih =>
      rw [startRun, if_neg hstate, tick_of_ended hnum hcur hend, ok_bind]
      exact ih (k + 1)

end Run

set_option maxRecDepth 4000 in
/-- The run of one task reaches the terminator in one tick, with the plan state unchanged. -/
theorem startRun_not_at_terminator_ended :
    ∃ p t u c, parsePlan "1;0,0;;;0,0,10,10;".toList zeroedPlan = .ok p ∧
      runTicks .userland everyTick ⟨p, zeroedSignals⟩ 1 = .ok t ∧
      (∃ j ≤ 1, runTicks .userland everyTick ⟨p, zeroedSignals⟩ j = .ok u) ∧ u.plan.readCurTask = .ok c ∧
      ¬ (u.plan.state = .planFinished ↔ c.taskId = -2) := by
  obtain ⟨p, t, hp, ht, hcheck⟩ :=
    @of_onRun .userland "1;0,0;;;0,0,10,10;".toList everyTick 1
      (fun p t => decide (Admissible p) && onCurTask t.plan (·.taskId = -2)) (by decide +kernel)
  simp only [Bool.and_eq_true, decide_eq_true_eq] at hcheck
  obtain ⟨hadmissible, hend⟩ := hcheck
  obtain ⟨cur, hcur, hend⟩ := of_onCurTask hend
  obtain ⟨j, hj, u, c, hu, hc, hbroken⟩ :=
    (startRun_not_at_terminator hp hadmissible everyTick_nonneg).2 1 t cur ht hcur
      (by simpa using hend)
  exact ⟨p, t, u, c, hp, ht, ⟨j, hj, hu⟩, hc, hbroken⟩

set_option maxRecDepth 4000 in
/-- `start_run` on a plan of one task that needs what was planned for it does not end. -/
theorem startRun_endless :
    ∃ p, parsePlan "1;0,0;;;0,0,10,10;".toList zeroedPlan = .ok p ∧ Admissible p ∧ DistinctIds p ∧
      ∀ fuel, startRun .userland everyTick fuel 0 ⟨p, zeroedSignals⟩ = .ok none := by
  obtain ⟨p, t, hp, ht, hcheck⟩ :=
    @of_onRun .userland "1;0,0;;;0,0,10,10;".toList everyTick 1
      (fun p t => decide (Admissible p ∧ DistinctIds p ∧ p.state ≠ .planFinished ∧
        t.plan.state ≠ .planFinished ∧ t.plan.numTasks < 400) &&
        onCurTask t.plan (·.taskId = -2)) (by decide +kernel)
  simp only [Bool.and_eq_true, decide_eq_true_eq] at hcheck
  obtain ⟨⟨hadmissible, hdistinct, hstart, hstate, hnum⟩, hend⟩ := hcheck
  obtain ⟨cur, hcur, hend⟩ := of_onCurTask hend
  have htick : pbsRunTimerTick .userland (everyTick 0) ⟨p, zeroedSignals⟩ = .ok t := ht
  refine ⟨p, hp, hadmissible, hdistinct, fun fuel => ?_⟩
  cases fuel with
  | zero => rfl
  | succ fuel =>
      rw [startRun, if_neg hstart, htick, ok_bind]
      exact startRun_ended hcur (by simpa using hend) hnum hstate fuel 1

end PbsLevel2
