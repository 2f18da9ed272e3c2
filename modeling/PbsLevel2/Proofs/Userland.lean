import PbsLevel2.Proofs.Builds
import PbsLevel2.Proofs.Completion
import PbsLevel2.Proofs.Reconciliation
import PbsLevel2.Proofs.Replay
import PbsLevel2.Proofs.Thresholds

/-!
# Runs with assertions

The userland build makes every assertion.  It runs a plan to its end exactly if no preemption
reads beyond the task array and no signal shrinks a planned length below what `check_tm2_task`
admits.
-/

namespace PbsLevel2

open Lib

/-! ## Thresholds whose assertions hold -/

/-- The assertions on the thresholds of the current process and of the node hold. -/
structure Assured (p : PbsPlan) : Prop where
  length : 0 < (processAt p.processes p.curProcess).lengthPlan
  solvent : Solvent p
  numProcesses : 1 ≤ p.numProcesses
  instructionsPlanned : 5 ≤ p.instructionsPlanned

section Thresholds

variable {p q : PbsPlan} {cur : PbsTask} {s s₂ : System} {x : PbsProcess} {r : Int}
  {done todo tail : List PbsTask}

theorem calculateProcessCompletion_builds (hlength : 0 < x.lengthPlan)
    (hretired : 0 ≤ x.instructionsRetired) :
    calculateProcessCompletion .userland x = calculateProcessCompletion .kernel x := by
  have hcompletion : 0 ≤ (x.instructionsRetired * 100).tdiv x.lengthPlan :=
    Int.tdiv_nonneg (by omega) (by omega)
  unfold calculateProcessCompletion
  rw [divide, if_neg (by omega), ok_bind]
  dsimp only
  rw [assertThat_true .userland _ (by simpa using hcompletion)]
  rfl

theorem calculateCapacityBuffer_builds (hlength : 0 < x.lengthPlan) :
    calculateCapacityBuffer .userland x = calculateCapacityBuffer .kernel x := by
  have hbuffer : t2CapacityBuffer = 110 := rfl
  unfold calculateCapacityBuffer
  dsimp only
  rw [hbuffer, assertThat_true .userland _ (by simp; omega)]
  rfl

theorem calculateAllowedPlanBuffer_builds (hlength : 0 < x.lengthPlan)
    (hretired : 0 ≤ x.instructionsRetired) (p : PbsPlan) :
    calculateAllowedPlanBuffer .userland x p = calculateAllowedPlanBuffer .kernel x p := by
  unfold calculateAllowedPlanBuffer
  rw [calculateProcessCompletion_builds hlength hretired]

theorem Assured.process (h : Assured p) (hx : p.readProcess p.curProcess = .ok x) :
    0 < x.lengthPlan ∧ 0 ≤ x.instructionsRetired := by
  have hretired := h.solvent.readProcess hx
  rw [readProcess_eq (readProcess_index hx)] at hx
  obtain rfl := Except.ok.inj hx
  exact ⟨h.length, hretired⟩

theorem Assured.calculateT2Node (h : Assured p) :
    calculateT2Node .userland p = calculateT2Node .kernel p := by
  obtain ⟨t2Node, heq, _⟩ := calculateT2Node_eq (b := .userland) fun _ => h.numProcesses
  rw [heq, (builds_calculateT2Node p).eq_ok heq]

theorem Assured.checkT2Process (h : Assured p) :
    checkT2Process .userland p = checkT2Process .kernel p := by
  unfold PbsLevel2.checkT2Process
  cases hread : p.readProcess p.curProcess with
  | error e => rfl
  | ok x =>
      obtain ⟨hlength, hretired⟩ := h.process hread
      simp only [ok_bind, calculateCapacityBuffer_builds hlength,
        calculateAllowedPlanBuffer_builds hlength hretired]

theorem Assured.checkT2Node (h : Assured p) :
    checkT2Node .userland p = checkT2Node .kernel p := by
  unfold PbsLevel2.checkT2Node
  rw [h.calculateT2Node]

theorem Assured.raisesT2 (h : Assured p) : raisesT2 .userland p = raisesT2 .kernel p := by
  unfold PbsLevel2.raisesT2
  rw [h.checkT2Process, h.checkT2Node]

theorem Assured.printThresholds (h : Assured p) :
    printThresholds .userland p = printThresholds .kernel p := by
  unfold PbsLevel2.printThresholds
  cases hread : p.readProcess p.curProcess with
  | error e => rfl
  | ok x =>
      obtain ⟨hlength, hretired⟩ := h.process hread
      simp only [ok_bind, calculateCapacityBuffer_builds hlength,
        calculateAllowedPlanBuffer_builds hlength hretired, h.calculateT2Node]

theorem Assured.raisesTm2 (h : Assured p) (hcur : p.readCurTask = .ok cur)
    (hlong : 2 ≤ cur.instructionsPlanned) : raisesTm2 .userland p = raisesTm2 .kernel p := by
  obtain ⟨hlower, hupper⟩ := calculateTm2Task_bounds hlong
  have htask : checkTm2Task .userland p = checkTm2Task .kernel p := by
    unfold checkTm2Task
    rw [hcur, ok_bind, ok_bind]
    dsimp only
    rw [assertThat_true .userland _ (by simpa using hupper),
      assertThat_true .userland _ (by simpa using hlower)]
    rfl
  have hnode : checkTm2Node .userland p = checkTm2Node .kernel p := by
    unfold checkTm2Node
    rw [calculateTm2Node_eq h.instructionsPlanned, calculateTm2Node_eq h.instructionsPlanned]
  unfold PbsLevel2.raisesTm2
  rw [htask, hnode]

/-! ## Signals -/

theorem Assured.reschedule (h : Assured p) (hl : Layout p done todo tail) (signal : Check)
    (pid : Int) : reschedule .userland p signal pid = reschedule .kernel p signal pid := by
  unfold PbsLevel2.reschedule
  dsimp only
  rw [hl.rescheduleFrom, ok_bind, ok_bind]
  cases hbalance : balanceLateness (p.withTasks _) with
  | error e => rfl
  | ok q =>
      have hsolvent := Solvent.balanceLateness (p := p.withTasks _) h.solvent hbalance
      obtain ⟨hi, rfl⟩ := modifyProcess_eq_ok hbalance
      have hlength := view_updateProcess (v := p.processes) hi (f := fun x => { x with lateness := 0 })
        PbsProcess.lengthPlan (fun _ => rfl) p.curProcess
      have hq : Assured _ :=
        ⟨h.length.trans_eq hlength.symm, hsolvent, h.numProcesses, h.instructionsPlanned⟩
      rw [ok_bind, ok_bind, hq.printThresholds]

theorem Assured.signals (h : Assured s.plan) (hl : Layout s.plan done todo tail) :
    signalT2 .userland s = signalT2 .kernel s ∧ signalTm2 .userland s = signalTm2 .kernel s := by
  have hstressed : Assured { s.plan with stress := stressReset } :=
    ⟨h.length, h.solvent, h.numProcesses, h.instructionsPlanned⟩
  have hreschedule := hstressed.reschedule (hl.stressed stressReset)
  constructor
  · unfold signalT2
    simp only [hreschedule]
  · unfold signalTm2
    simp only [hreschedule]

theorem Assured.signalIfT2 (h : Assured s.plan) (hl : Layout s.plan done todo tail) :
    signalIfT2 .userland s = signalIfT2 .kernel s := by
  unfold PbsLevel2.signalIfT2
  rw [h.raisesT2, (h.signals hl).1]

theorem Assured.signalIfTm2 (h : Assured s.plan) (hl : Layout s.plan done todo tail)
    (hcur : s.plan.readCurTask = .ok cur) (hlong : 2 ≤ cur.instructionsPlanned) :
    signalIfTm2 .userland s = signalIfTm2 .kernel s := by
  unfold PbsLevel2.signalIfTm2
  rw [h.raisesTm2 hcur hlong, (h.signals hl).2]

end Thresholds

/-! ## Free slots and preemptions -/

section Moves

variable {p q : PbsPlan} {done todo rest tail : List PbsTask} {cur : PbsTask} {b : Build}

theorem Placed.skip_books (hv : Placed p done todo tail) (h : skipFreeSlot b p = .ok q)
    (hfirst : ∀ t ∈ q.doneTasks.head?, 0 < t.instructionsPlanned) : HeadReal p ∧ q = p ∨
    ∃ cur rest first, todo = cur :: rest ∧ cur.taskId = -1 ∧
      (p.passed done cur rest tail).readTask 0 = .ok first ∧ 0 < first.instructionsPlanned ∧
      q = { p.passed done cur rest tail with
        lateness := p.lateness + -first.instructionsPlanned } := by
  rcases skipFreeSlot_eq_ok hv.toLayout h with hsame | ⟨cur, rest, first, rfl, hfree, hread, hq⟩
  · exact .inl hsame
  · have hpos : 0 < first.instructionsPlanned := by
      by_contra hneg
      have hr : 0 ≤ -first.instructionsPlanned := by omega
      obtain ⟨first', hmem, hread'⟩ := hv.passed_first
      obtain rfl := Except.ok.inj (hread.symm.trans hread')
      have hvp := hv.passed
      obtain ⟨_, _, heq⟩ := hvp.retire_todo hr hq
      rw [heq] at hvp
      obtain ⟨done', _, _, hv', hdone, _⟩ := hvp.credit hr hq
      rw [hv'.toLayout.doneTasks_eq] at hfirst
      have hhead : done'.head?.map PbsTask.body = some first.body := by
        rw [← List.head?_map, hdone, List.head?_map, Option.mem_def.1 hmem]
        rfl
      obtain ⟨t, ht, hbody⟩ := Option.map_eq_some_iff.1 hhead
      have hplanned : t.body.instructionsPlanned = first.body.instructionsPlanned := by rw [hbody]
      exact hneg (hplanned ▸ hfirst t ht)
    rw [updateRetiredInstructions_neg (by omega)] at hq
    exact .inr ⟨cur, rest, first, rfl, hfree, hread, hpos, (Except.ok.inj hq).symm⟩

theorem skipFreeSlot_userland (hv : Valid p done todo tail) (h : skipFreeSlot .kernel p = .ok q)
    (hfirst : ∀ t ∈ q.doneTasks.head?, 0 < t.instructionsPlanned) :
    skipFreeSlot .userland p = .ok q := by
  rcases hv.toPlaced.skip_books h hfirst with
    ⟨hreal, rfl⟩ | ⟨cur, rest, first, rfl, hfree, hread, hpos, rfl⟩
  · obtain ⟨cur, _, _, hcur⟩ := hv.head
    exact skipFreeSlot_real hcur (hreal cur hcur)
  · exact hv.skipFreeSlot_eq hfree hread hpos

theorem preemptCurTask_userland (hv : Valid p done (cur :: rest) tail) (hreal : cur.taskId ≠ -1)
    (hids : ∀ u ∈ done ++ cur :: rest, CountableId u)
    (hdistinct : (realIds (done ++ cur :: rest)).Nodup) (h : preemptCurTask .kernel p = .ok q) :
    preemptCurTask .userland p = .ok q := by
  have hl := hv.toLayout
  have hentry : assertThat .userland .preemptCurTaskEntry (cur.taskId ≠ -1) = .ok () :=
    assertThat_true _ _ (by simpa using hreal)
  rcases exists_cut_or_noSlot cur rest with ⟨blk, n, ns, f, post, hc⟩ | hno
  · rw [preemptCurTask_kernel_cut hl hc] at h
    split at h <;> rename_i hroom
    · rw [preemptCurTask_cut .userland hl hentry hc, moveTasks_rotated hl hc hroom, ok_bind,
        hl.assert_rotated .userland hc hids hdistinct]
      exact h
    · cases h
  · rw [preemptCurTask_noSlot .kernel hl rfl hno] at h
    rw [preemptCurTask_noSlot .userland hl hentry hno]
    exact h

theorem readsInside_userland (hl : Layout p done (cur :: rest) tail) :
    readsInside .userland p = readsInside .kernel p := by
  rw [readsInside, readsInside, hl.readCurTask]
  dsimp only
  rcases exists_cut_or_noSlot cur rest with ⟨blk, n, ns, f, post, hc⟩ | hno
  · rw [findSlotToMoveTo_cut hl hc, findSlotToMoveTo_cut hl hc]
  · rw [findSlotToMoveTo_noSlot hl hno, findSlotToMoveTo_noSlot hl hno]

end Moves

/-! ## The tick -/

/-- A ready plan whose tasks and total pass the assertions themselves. -/
structure Assertable (o : PbsPlan) : Prop extends Ready o where
  long : Long o.parsedTasks
  real : ∀ t ∈ o.parsedTasks, 0 ≤ t.instructionsReal
  ids : ∀ t ∈ o.parsedTasks, CountableId t
  total : 5 ≤ o.instructionsPlanned

instance (t : PbsTask) : Decidable (CountableId t) :=
  inferInstanceAs (Decidable (_ ∨ _))

/-- What the assertions of a tick rest on. -/
def Booked (o p : PbsPlan) : Prop :=
  Sound o p ∧ SlotBooks p

theorem kept_booked (o : PbsPlan) : Kept (fun _ => True) (Booked o) :=
  (kept_sound o).and kept_slotBooks

section Tick

variable {o p q : PbsPlan} {done todo rest tail : List PbsTask} {cur : PbsTask} {r : Int}
  {s s₂ s' : System} {a : Agenda Job}

theorem countable_of_jobs {l m : List PbsTask}
    (h : (l.map PbsTask.job).Perm (m.map PbsTask.job)) (hm : ∀ u ∈ m, CountableId u) :
    ∀ u ∈ l, CountableId u := by
  intro u hu
  obtain ⟨v, hv, hjob⟩ := List.mem_map.1 (h.subset (List.mem_map_of_mem hu))
  rw [CountableId, ← job_taskId hjob]
  exact hm v hv

theorem At.assured (h : At (Booked o) a p) (ho : Assertable o)
    (hjobs : a.jobs.Perm (o.parsedTasks.map PbsTask.job)) (hcur : p.readCurTask = .ok cur)
    (hreal : cur.taskId ≠ -1) (hlive : cur.taskId ≠ -2) : Assured p := by
  obtain ⟨done, todo, tail, hv, rfl, ⟨⟨_, hlengths⟩, hheader⟩, hbooks⟩ := h
  have hsolvent : Solvent p := by
    refine SlotBooks.solvent ⟨done, todo, tail, hv, rfl, hbooks⟩ fun j hj => ?_
    obtain ⟨t, ht, rfl⟩ := List.mem_map.1 (hjobs.subset hj)
    exact ho.real t ht
  obtain ⟨rest, rfl⟩ := hv.of_readCurTask hcur hlive
  obtain ⟨_, hlength⟩ := ho.parsed.lengthPlan_pos ho.planned hlengths hv.toPlaced
    (by rw [List.map_append]; exact hjobs) hreal
  obtain ⟨hcount, _, hsum⟩ : p.numProcesses = o.numProcesses ∧ p.numTasks = o.numTasks ∧
      p.instructionsPlanned = o.instructionsPlanned := by
    simpa only [PbsPlan.header, Prod.mk.injEq] using hheader
  exact ⟨hlength, hsolvent, hcount ▸ ho.processes, hsum ▸ ho.total⟩

theorem At.assured_credited (h : At (Booked o) a s.plan) (ho : Assertable o) (hh : HeadReal s.plan)
    (hjobs : a.jobs.Perm (o.parsedTasks.map PbsTask.job)) (hr : 0 ≤ r)
    (hcredit : updateRetiredInstructions r s.plan = .ok p) :
    Assured p ∧ ∃ done todo tail, Valid p done todo tail := by
  obtain ⟨c, _, hcur, hid⟩ := Kept.readCurTask_credit h hr hcredit
  obtain ⟨h₁, hh₁⟩ := (kept_booked o).creditAt h hh hr hcredit
  rw [← frame_taskId (frame_credited r c)] at hid
  obtain ⟨done, todo, tail, hv, _⟩ := id h₁
  exact ⟨h₁.assured ho hjobs hcur (hh₁ _ hcur) hid, done, todo, tail, hv⟩

theorem At.jobs_of_layout {K : PbsPlan → Prop} (h : At K a p) (hl : Layout p done todo tail) :
    a.jobs = (done ++ todo).map PbsTask.job := by
  obtain ⟨done', todo', _, hv, rfl, _⟩ := h
  rw [← hl.doneTasks_eq, ← hl.todoTasks_eq, hv.toLayout.doneTasks_eq, hv.toLayout.todoTasks_eq,
    List.map_append]
  rfl

theorem At.preemptionPoint_userland (h : At (Booked o) a s.plan) (ho : Assertable o)
    (hh : HeadReal s.plan) (hjobs : a.jobs.Perm (o.parsedTasks.map PbsTask.job)) (hr : 0 ≤ r) :
    preemptionPoint .userland r s = preemptionPoint .kernel r s := by
  unfold preemptionPoint
  cases hc : s.plan.readCurTask with
  | error e => rfl
  | ok c =>
      rw [ok_bind, ok_bind]
      split
      · rfl
      · cases hcredit : updateRetiredInstructions r s.plan with
        | error e => rfl
        | ok p =>
            obtain ⟨hassured, _, _, _, hv⟩ := h.assured_credited ho hh hjobs hr hcredit
            simp only [ok_bind,
              Assured.signalIfT2 (s := { s with plan := p }) hassured hv.toLayout]

theorem Assertable.tick_userland (ho : Assertable o) (h : At (Booked o) a s.plan)
    (hh : HeadReal s.plan) (hjobs : a.jobs.Perm (o.parsedTasks.map PbsTask.job)) (hr : 0 ≤ r)
    (hlong : ∀ p cur, updateRetiredInstructions r s.plan = .ok p → p.readCurTask = .ok cur →
      cur.state = .finished → 2 ≤ cur.instructionsPlanned)
    (htick : pbsRunTimerTick .kernel r s = .ok s') (hb : Bookable s'.plan) :
    pbsRunTimerTick .userland r s = .ok s' := by
  have hk := kept_booked o
  have hnum : s.plan.numTasks < 400 := by
    obtain ⟨_, _, _, _, _, ⟨_, hheader⟩, _⟩ := h
    exact (congrArg (fun x => x.2.1) hheader).trans_lt ho.parsed.numTasks_lt
  cases tick_cases htick with
  | ended cur hcur hend hs =>
      rw [hs]
      exact tick_of_ended hnum hcur hend
  | finished p₁ cur s₂ p₃ p₄ hlive hcredit hcur hstate hsignal hbook hskip hs =>
      obtain ⟨c, hc, _⟩ := Kept.readCurTask_credit h hr hcredit
      obtain ⟨hassured, _, _, _, hv₁⟩ := h.assured_credited ho hh hjobs hr hcredit
      obtain ⟨_, _, _, planned, done, rest, tail, hv₂⟩ :=
        hk.signalled h hh hr hcredit hcur (signalIfTm2_eq_ok hsignal)
      rw [← Assured.signalIfTm2 (s := { s with plan := p₁ }) hassured hv₁.toLayout hcur
        (hlong p₁ cur hcredit hcur hstate)] at hsignal
      obtain ⟨hi, rfl⟩ := finishTask_eq_ok hv₂.toPlaced hbook
      have hbooked := hv₂.booked (cur.instructionsRetiredSlot - cur.instructionsReal)
      rw [hs] at hb ⊢
      have hskipped := skipFreeSlot_userland hbooked.passed hskip hb.first
      rw [tick_of_live hnum hc (hlive c hc) hcredit hcur, if_pos hstate,
        scheduleTaskFinished_of hcur hsignal (bookFinishedTask_eq hv₂.toLayout hi _)
          (show PbsPlan.readCurTask _ = .ok _ from hbooked.readCurTask) hstate
          hbooked.toLayout.updateCurProcess_next hskipped]
      rfl
  | preempted p₁ cur s₂ p₃ p₄ hlive hcredit hcur hstate hsignal ht1 hpreempt hskip hs =>
      obtain ⟨c, hc, _⟩ := Kept.readCurTask_credit h hr hcredit
      obtain ⟨hassured, _, _, _, hv₁⟩ := h.assured_credited ho hh hjobs hr hcredit
      obtain ⟨h₂, hreal, hrun, planned, done, rest, tail, hv₂⟩ :=
        hk.signalled h hh hr hcredit hcur (signalIfT2_eq_ok hsignal)
      rw [← Assured.signalIfT2 (s := { s with plan := p₁ }) hassured hv₁.toLayout] at hsignal
      have hperm := hjobs
      rw [h₂.jobs_of_layout hv₂.toLayout] at hperm
      have hpreempted := preemptCurTask_userland hv₂ hreal (countable_of_jobs hperm ho.ids)
        ((realIds_of_jobs hperm).nodup_iff.2 ho.distinct) hpreempt
      have hhead : HeadReal s₂.plan := by
        intro c' hc'
        obtain rfl := Except.ok.inj (hv₂.readCurTask.symm.trans hc')
        exact hreal
      obtain ⟨_, ⟨_, _, _, hv₃, _⟩, _⟩ := hk.preemptAt h₂ hhead hv₂.readCurTask
        (hv₂.live _ (by simp)).1 (hrun hstate) (allowedAt_any _) hpreempt
      rw [hs] at hb ⊢
      have hskipped := skipFreeSlot_userland hv₃ hskip hb.first
      obtain ⟨check, hcheck, htrans⟩ := ht1
      rw [tick_of_live hnum hc (hlive c hc) hcredit hcur, if_neg hstate,
        scheduleTimerTick_of hsignal hcheck, if_pos htrans, hpreempted, ok_bind, hskipped]
      rfl
  | waited p₁ cur s₂ hlive hcredit hcur hstate hsignal ht1 hs =>
      obtain ⟨c, hc, _⟩ := Kept.readCurTask_credit h hr hcredit
      obtain ⟨hassured, _, _, _, hv₁⟩ := h.assured_credited ho hh hjobs hr hcredit
      rw [← Assured.signalIfT2 (s := { s with plan := p₁ }) hassured hv₁.toLayout] at hsignal
      obtain ⟨check, hcheck, htrans⟩ := ht1
      rw [hs, tick_of_live hnum hc (hlive c hc) hcredit hcur, if_neg hstate,
        scheduleTimerTick_of hsignal hcheck, if_neg (by simp [htrans]), ok_bind, relieveStress_eq]

/-- A tick ends in no fault with the assertions either, provided that a preemption reads entries of
the array only and that the tasks ahead are long enough. -/
theorem Assertable.tick (ho : Assertable o) (h : At (Booked o) a s.plan) (hh : HeadReal s.plan)
    (hjobs : a.jobs.Perm (o.parsedTasks.map PbsTask.job)) (hb : Bookable s.plan)
    (hlong : Long s.plan.todoTasks) (hr : 0 < r)
    (hroom : ∀ p, preemptionPoint .userland r s = .ok (some p) → readsInside .userland p = true) :
    ∃ s', pbsRunTimerTick .userland r s = .ok s' ∧ Bookable s'.plan := by
  have hk := kept_booked o
  obtain ⟨done, todo, tail, hv, ha, hsound, _⟩ := id h
  obtain ⟨s', hkernel, hb'⟩ := ho.toReady.tick ⟨done, todo, tail, hv, ha, hsound⟩ hh hjobs hb hr
    fun p hp => by
      obtain ⟨⟨_, _, _, hvp, _⟩, _, c, hc, hlive, _⟩ := hk.preemptionPointAt h hh hr.le hp
      obtain ⟨_, rfl⟩ := hvp.of_readCurTask hc hlive
      rw [← h.preemptionPoint_userland ho hh hjobs hr.le] at hp
      rw [← readsInside_userland hvp.toLayout]
      exact hroom p hp
  refine ⟨s', ho.tick_userland h hh hjobs hr.le (fun p cur hp hcur _ => ?_) hkernel hb', hb'⟩
  obtain ⟨c, hc, hc₁, hlive⟩ := Kept.readCurTask_credit h hr.le hp
  obtain rfl := Except.ok.inj (hcur.symm.trans hc₁)
  obtain ⟨rest, rfl⟩ := hv.of_readCurTask hc hlive
  refine enduring_long.credited hr.le (hlong c ?_)
  rw [hv.toLayout.todoTasks_eq]
  exact List.mem_cons_self

end Tick

/-! ## Tasks that are too short -/

/-- If the tick from `s` raises Tm2, then no task of process 0 behind the current one has a planned
length of 2. -/
def shrinksNoneAhead (b : Build) (r : Int) (s : System) : Bool :=
  match signalPoint b r s with
  | .ok (some (.tm2, p)) =>
      p.todoTasks.tail.all fun t => t.processId ≠ 0 || t.instructionsPlanned ≠ 2
  | _ => true

/-- Task `i` is ahead and too short for `check_tm2_task`. -/
def TooShort (i : Int) (p : PbsPlan) : Prop :=
  ∃ t ∈ p.todoTasks, t.taskId = i ∧ t.instructionsPlanned ≤ 1

section Short

variable {p : PbsPlan} {done rest tail : List PbsTask} {cur t : PbsTask} {r i factor pid : Int}
  {b : Build} {s s' : System}

theorem Placed.todo_tick (hv : Placed s.plan done (cur :: rest) tail) (hr : 0 ≤ r)
    (htick : pbsRunTimerTick b r s = .ok s') :
    ∃ p ahead, updateRetiredInstructions r s.plan = .ok p ∧
      p.readCurTask = .ok (credited r cur) ∧ p.todoTasks = credited r cur :: ahead ∧
      p.stamps = s.plan.stamps ∧ ∃ rescaled : PbsTask → PbsTask,
      (signalPoint b r s = .ok none ∧ rescaled = id ∨
        ∃ signal, signalPoint b r s = .ok (some (signal, p)) ∧
          rescaled = rescale (factorOf signal) (targetOf signal p)) ∧
      ∃ skipped, (∀ x ∈ skipped, x.1.taskId = -1) ∧
        (skipped ++ s'.plan.stamps.todo).Perm
          ((if (credited r cur).state = .finished then ahead else credited r cur :: ahead).map
            fun t => (rescaled t).stamp) := by
  obtain ⟨p, s₂, ⟨_, ahead, _, hv₁⟩, hcredit, hstamps, hleaves, _, skipped, hskipped, _, hperm⟩ :=
    hv.stamps_tick hr htick
  have htodo₁ := hv₁.toLayout.todoTasks_eq
  obtain ⟨rescaled, hrescaled, htodo⟩ : ∃ rescaled : PbsTask → PbsTask,
      (signalPoint b r s = .ok none ∧ rescaled = id ∨
        ∃ signal, signalPoint b r s = .ok (some (signal, p)) ∧
          rescaled = rescale (factorOf signal) (targetOf signal p)) ∧
      s₂.plan.stamps.todo = p.todoTasks.map fun t => (rescaled t).stamp := by
    rcases hleaves.rescaled hv₁ with ⟨hpoint, heq⟩ | ⟨signal, hpoint, hv₂, _⟩
    · exact ⟨id, .inl ⟨hpoint, rfl⟩, by rw [heq]; rfl⟩
    · refine ⟨_, .inr ⟨signal, hpoint, rfl⟩, ?_⟩
      rw [hv₂.toLayout.stamps_eq, htodo₁, List.map_map]
      rfl
  refine ⟨p, ahead, hcredit, hv₁.readCurTask, htodo₁, hstamps, rescaled, hrescaled, skipped,
    hskipped, ?_⟩
  rw [htodo, htodo₁] at hperm
  split <;> rename_i hstate
  · rw [if_pos hstate, List.map_cons] at hperm
    exact hperm.cons_inv
  · rw [if_neg hstate] at hperm
    exact hperm

theorem planned_of_stamps {q : PbsPlan} (h : q.stamps = p.stamps) (hlong : Long p.todoTasks) :
    Long q.todoTasks := by
  intro t ht
  have hmem : t.stamp ∈ q.stamps.todo := List.mem_map_of_mem ht
  rw [h] at hmem
  obtain ⟨u, hu, hstamp⟩ := List.mem_map.1 hmem
  rw [← show u.instructionsPlanned = t.instructionsPlanned from congrArg Prod.snd hstamp]
  exact hlong u hu

theorem of_shrinksNoneAhead (h : shrinksNoneAhead b r s = true)
    (hpoint : signalPoint b r s = .ok (some (.tm2, p))) :
    ∀ t ∈ p.todoTasks.tail, t.processId = 0 → t.instructionsPlanned ≠ 2 := by
  unfold shrinksNoneAhead at h
  rw [hpoint] at h
  intro t ht hpid
  simpa [hpid] using List.all_eq_true.1 h t ht

theorem Placed.long_tick (hv : Placed s.plan done (cur :: rest) tail) (hr : 0 ≤ r)
    (hlong : Long s.plan.todoTasks) (hshrinks : shrinksNoneAhead b r s = true)
    (htick : pbsRunTimerTick b r s = .ok s') : Long s'.plan.todoTasks := by
  obtain ⟨p, ahead, hcredit, hcur, htodo, hstamps, rescaled, hrescaled, skipped, _, hperm⟩ :=
    hv.todo_tick hr htick
  have hlong₁ := planned_of_stamps hstamps hlong
  intro u hu
  have hmem := hperm.subset (List.mem_append_right skipped
    (show u.stamp ∈ s'.plan.stamps.todo from List.mem_map_of_mem hu))
  obtain ⟨t, ht, hstamp⟩ := List.mem_map.1 hmem
  rw [← show (rescaled t).instructionsPlanned = u.instructionsPlanned from
    congrArg Prod.snd hstamp]
  have hahead : t ∈ p.todoTasks := by
    rw [htodo]
    split at ht
    · exact List.mem_cons_of_mem _ ht
    · exact ht
  rcases hrescaled with ⟨_, rfl⟩ | ⟨signal, hpoint, rfl⟩
  · exact hlong₁ t hahead
  · rcases signalPoint_raises hpoint with rfl | rfl
    · exact stretch_long (hlong₁ t hahead)
    · obtain ⟨c, _, hc, hstate⟩ := signalPoint_eq_ok hpoint
      obtain rfl := Except.ok.inj (hcur.symm.trans hc)
      rw [if_pos (hstate.2 rfl)] at ht
      exact shrink_long (hlong₁ t hahead)
        (of_shrinksNoneAhead hshrinks hpoint t (by rw [htodo]; exact ht))

theorem rescale_short (hfactor : factor = stretchConstant ∨ factor = shrinkConstant)
    (h : t.instructionsPlanned ≤ 1) : (rescale factor pid t).instructionsPlanned ≤ 1 := by
  have hstretch : stretchConstant = 105 := rfl
  have hshrink : shrinkConstant = 95 := rfl
  unfold rescale
  split
  · have hfactor₀ : 0 ≤ factor := by omega
    calc
      (t.instructionsPlanned * factor).tdiv 100 ≤ (1 * factor).tdiv 100 :=
        Int.tdiv_le_tdiv (by decide) (Int.mul_le_mul_of_nonneg_right h hfactor₀)
      _ ≤ 1 := by rcases hfactor with rfl | rfl <;> decide
  · exact h

theorem factorOf_cases (signal : Check) :
    factorOf signal = stretchConstant ∨ factorOf signal = shrinkConstant := by
  unfold factorOf
  split
  · exact .inl rfl
  · exact .inr rfl

theorem long_of_tick (hlive : ∀ c, s.plan.readCurTask = .ok c → c.taskId ≠ -2)
    (hcredit : updateRetiredInstructions r s.plan = .ok p) (hcur : p.readCurTask = .ok cur)
    (hstate : cur.state = .finished) (htick : pbsRunTimerTick .userland r s = .ok s') :
    2 ≤ cur.instructionsPlanned := by
  have hraises : ∃ raised, raisesTm2 .userland p = .ok raised := by
    cases tick_cases htick with
    | ended c hc hend => exact absurd hend (hlive c hc)
    | finished p₁ c s₂ p₃ p₄ _ hcredit₁ _ _ hsignal =>
        obtain rfl := Except.ok.inj (hcredit.symm.trans hcredit₁)
        obtain ⟨raised, hraised, _⟩ := bind_eq_ok.1 hsignal
        exact ⟨raised, hraised⟩
    | preempted p₁ c s₂ p₃ p₄ _ hcredit₁ hc hrunning =>
        obtain rfl := Except.ok.inj (hcredit.symm.trans hcredit₁)
        obtain rfl := Except.ok.inj (hcur.symm.trans hc)
        exact absurd hstate hrunning
    | waited p₁ c s₂ _ hcredit₁ hc hrunning =>
        obtain rfl := Except.ok.inj (hcredit.symm.trans hcredit₁)
        obtain rfl := Except.ok.inj (hcur.symm.trans hc)
        exact absurd hstate hrunning
  obtain ⟨raised, hraised⟩ := hraises
  obtain ⟨check, hcheck, _⟩ := bind_eq_ok.1 hraised
  unfold checkTm2Task at hcheck
  rw [hcur, ok_bind, if_neg (by decide)] at hcheck
  obtain ⟨_, hupper, hcheck⟩ := bind_eq_ok.1 hcheck
  obtain ⟨_, hlower, _⟩ := bind_eq_ok.1 hcheck
  have hlt : calculateTm2Task cur < cur.instructionsPlanned := by
    by_contra hge
    rw [assertThat, if_neg (by simpa using hge)] at hupper
    cases hupper
  have hpos : 0 < calculateTm2Task cur := by
    by_contra hle
    rw [assertThat, if_neg (by simpa using hle)] at hlower
    cases hlower
  omega

theorem TooShort.of_perm {q : PbsPlan} {skipped l : List (Job × Int)}
    (hskipped : ∀ x ∈ skipped, x.1.taskId = -1) (hperm : (skipped ++ q.stamps.todo).Perm l)
    (hi : i ≠ -1) (ht : t.stamp ∈ l) (hid : t.taskId = i) (hshort : t.instructionsPlanned ≤ 1) :
    TooShort i q := by
  rcases List.mem_append.1 (hperm.mem_iff.2 ht) with hmem | hmem
  · exact absurd (hid.symm.trans (hskipped _ hmem)) hi
  · obtain ⟨u, hu, hstamp⟩ := List.mem_map.1 hmem
    refine ⟨u, hu, (job_taskId (congrArg Prod.fst hstamp)).trans hid, ?_⟩
    rw [show u.instructionsPlanned = t.instructionsPlanned from congrArg Prod.snd hstamp]
    exact hshort

/-- A task that is too short stays ahead: no tick with assertions finishes it. -/
theorem TooShort.tick (h : TooShort i s.plan) (hi : i ≠ -1)
    (hv : Placed s.plan done (cur :: rest) tail) (hr : 0 ≤ r)
    (htick : pbsRunTimerTick .userland r s = .ok s') : TooShort i s'.plan := by
  obtain ⟨p, ahead, hcredit, hcur, htodo, hstamps, rescaled, hrescaled, skipped, hskipped, hperm⟩ :=
    hv.todo_tick hr htick
  obtain ⟨t, ht, hid, hshort⟩ := h
  have hmem : t.stamp ∈ p.stamps.todo := by
    rw [hstamps]
    exact List.mem_map_of_mem ht
  obtain ⟨u, hu, hstamp⟩ := List.mem_map.1 hmem
  have hidu : u.taskId = i := (job_taskId (congrArg Prod.fst hstamp)).trans hid
  have hshortu : u.instructionsPlanned ≤ 1 := by
    rw [show u.instructionsPlanned = t.instructionsPlanned from congrArg Prod.snd hstamp]
    exact hshort
  have hstays : u ∈ if (credited r cur).state = .finished then ahead
      else credited r cur :: ahead := by
    rw [htodo] at hu
    split <;> rename_i hstate
    · rcases List.mem_cons.1 hu with rfl | hu
      · have hlive : ∀ c, s.plan.readCurTask = .ok c → c.taskId ≠ -2 := by
          intro c hc
          obtain rfl := Except.ok.inj (hv.readCurTask.symm.trans hc)
          exact (hv.live cur (by simp)).1
        have hlong := long_of_tick hlive hcredit hcur hstate htick
        omega
      · exact hu
    · exact hu
  have hrescaledu : (rescaled u).taskId = i ∧ (rescaled u).instructionsPlanned ≤ 1 := by
    rcases hrescaled with ⟨_, rfl⟩ | ⟨signal, _, rfl⟩
    · exact ⟨hidu, hshortu⟩
    · exact ⟨(taskId_rescale _ _ u).trans hidu, rescale_short (factorOf_cases signal) hshortu⟩
  exact .of_perm hskipped hperm hi (List.mem_map_of_mem hstays) hrescaledu.1 hrescaledu.2

theorem tooShort_of_shrinks (hv : Placed s.plan done (cur :: rest) tail) (hr : 0 ≤ r)
    (hshrinks : shrinksNoneAhead b r s ≠ true) (htick : pbsRunTimerTick b r s = .ok s') :
    ∃ i, i ≠ -1 ∧ TooShort i s'.plan := by
  obtain ⟨p, ahead, hcredit, hcur, htodo, hstamps, rescaled, hrescaled, skipped, hskipped, hperm⟩ :=
    hv.todo_tick hr htick
  unfold shrinksNoneAhead at hshrinks
  split at hshrinks <;> rename_i hpoint
  · obtain ⟨c, hcredit', hc, hstate⟩ := signalPoint_eq_ok hpoint
    obtain rfl := Except.ok.inj (hcredit.symm.trans hcredit')
    obtain rfl := Except.ok.inj (hcur.symm.trans hc)
    rw [if_pos (hstate.2 rfl)] at hperm
    obtain ⟨t, ht, hpid, htwo⟩ : ∃ t ∈ ahead, t.processId = 0 ∧ t.instructionsPlanned = 2 := by
      rw [htodo, List.tail_cons] at hshrinks
      simpa using hshrinks
    have hrescale : rescaled = rescale shrinkConstant 0 := by
      rcases hrescaled with ⟨hnone, _⟩ | ⟨signal, hsignal, rfl⟩
      · rw [hnone] at hpoint
        cases hpoint
      · obtain rfl : signal = .tm2 := by
          rw [hsignal] at hpoint
          cases hpoint
          rfl
        rfl
    have hreal : t.taskId ≠ -1 := by
      have hmem : t.stamp ∈ s.plan.stamps.todo := by
        rw [← hstamps]
        exact List.mem_map_of_mem (by rw [htodo]; exact List.mem_cons_of_mem _ ht)
      rw [hv.toLayout.stamps_eq] at hmem
      obtain ⟨u, hu, hstamp⟩ := List.mem_map.1 hmem
      have hjob : u.job = t.job := congrArg Prod.fst hstamp
      have hfree := hv.free u (List.mem_append_right _ hu)
      rw [job_taskId hjob, job_processId hjob] at hfree
      omega
    refine ⟨t.taskId, hreal, .of_perm hskipped hperm hreal (List.mem_map_of_mem ht) ?_ ?_⟩
    · rw [hrescale]
      exact taskId_rescale _ _ t
    · rw [hrescale, rescale, if_pos hpid]
      change (t.instructionsPlanned * 95).tdiv 100 ≤ 1
      rw [htwo]
      decide
  · exact absurd rfl hshrinks

end Short

/-! ## The run -/

section Run

variable {o p : PbsPlan} {s t u : System} {a : Agenda Job} {pmu : Nat → Int} {text : List Char}
  {i : Int} {j n : Nat}

theorem TooShort.run (hparse : parsePlan text zeroedPlan = .ok s.plan)
    (hadmissible : Admissible s.plan) (hpmu : ∀ k, 0 ≤ pmu k) (hi : i ≠ -1)
    (hu : runTicks .userland pmu s j = .ok u) (h : TooShort i u.plan)
    (ht : runTicks .userland pmu s (j + n) = .ok t) : TooShort i t.plan := by
  induction n generalizing t with
  | zero =>
      obtain rfl := Except.ok.inj (hu.symm.trans ht)
      exact h
  | succ n ih =>
      obtain ⟨v, hv, htick⟩ := run_succ_eq_ok.1 ht
      obtain ⟨a, ⟨done, todo, tail, hplaced, _⟩, _⟩ :=
        kept_true.reached hparse hadmissible hpmu trivial hv
      have hshort := ih hv
      cases todo with
      | nil =>
          obtain ⟨w, hw, _⟩ := hshort
          rw [hplaced.toLayout.todoTasks_eq] at hw
          cases hw
      | cons cur rest => exact hshort.tick hi hplaced.toPlaced (hpmu _) htick

theorem Assertable.booked (ho : Assertable o) : Booked o o :=
  ⟨ho.toReady.sound, ho.parsed.slotBooks ho.admissible ho.distinct⟩

/-- If the preemptions read entries of the array only and the signals shrink no task ahead too
much, then every task is executed exactly once, with no assertion failing. -/
theorem Assertable.completes (ho : Assertable s.plan)
    (hparse : parsePlan text zeroedPlan = .ok s.plan)
    (hkeeps : ∀ j t, runTicks .userland everyTick s j = .ok t →
      (∀ p, preemptionPoint .userland (everyTick j) t = .ok (some p) →
        readsInside .userland p = true) ∧ shrinksNoneAhead .userland (everyTick j) t = true) :
    ∃ k t, k ≤ s.plan.callBound ∧ runTicks .userland everyTick s k = .ok t ∧
      Completed s.plan t.plan := by
  obtain ⟨k, t, hk, ht, _, hend⟩ := @run_reaches _ _
    (fun k => pbsRunTimerTick .userland (everyTick k)) s
    (fun t => (∃ j, runTicks .userland everyTick s j = .ok t) ∧ Bookable t.plan ∧
      Long t.plan.todoTasks)
    (fun t => Ended t.plan) (fun t => t.plan.callsLeft) ⟨⟨0, rfl⟩, ho.bookable, by
      rw [(ho.parsed.valid ho.admissible).toLayout.todoTasks_eq]
      exact ho.long⟩ (by
      rintro k t ⟨⟨j, hj⟩, hb, hlong⟩ hlive
      obtain ⟨a, hat, hhead, hjobs⟩ := (kept_booked s.plan).reached hparse ho.admissible
        everyTick_nonneg ho.booked hj
      obtain ⟨hroom, hshrinks⟩ := hkeeps j t hj
      obtain ⟨u, htick, hbu⟩ :=
        ho.tick hat hhead hjobs hb hlong (show 0 < insPerTick by decide) hroom
      obtain ⟨done, todo, tail, hv, ha, _⟩ := id hat
      cases todo with
      | nil => exact absurd hv.toLayout.ended hlive
      | cons cur rest =>
          have hlong' := hv.toPlaced.long_tick (everyTick_nonneg j) hlong hshrinks htick
          refine ⟨u, htick, ⟨⟨j + 1, (run_succ_of_eq hj).trans htick⟩, hbu, hlong'⟩, ?_⟩
          exact callsLeft_tick ⟨done, _, tail, hv, ha, trivial⟩ hhead
            (fun c hc hid => hlive ⟨c, hc, hid⟩) htick)
  obtain ⟨a, hat, hjobs⟩ := delivered_run hparse ho.admissible everyTick_nonneg ht
  exact ⟨k, t, ho.parsed.callsLeft_eq ho.admissible ▸ hk, ht, hat.completed hjobs ho.distinct hend⟩

theorem not_tooShort_of_ended (hparse : parsePlan text zeroedPlan = .ok s.plan)
    (hadmissible : Admissible s.plan) (hpmu : ∀ k, 0 ≤ pmu k)
    (ht : runTicks .userland pmu s n = .ok t) (hend : Ended t.plan) : ¬ TooShort i t.plan := by
  rintro ⟨w, hw, _⟩
  obtain ⟨_, ⟨done, todo, tail, hv, _⟩, _⟩ :=
    kept_true.reached hparse hadmissible hpmu trivial ht
  obtain rfl := hv.toLayout.todo_of_ended hend
  rw [hv.toLayout.todoTasks_eq] at hw
  cases hw

theorem keeps_of_ended (hparse : parsePlan text zeroedPlan = .ok s.plan)
    (hadmissible : Admissible s.plan) (hpmu : ∀ k, 0 ≤ pmu k)
    (ht : runTicks .userland pmu s n = .ok t) (hend : Ended t.plan)
    (hu : runTicks .userland pmu s j = .ok u) :
    (∀ p, preemptionPoint .userland (pmu j) u = .ok (some p) → readsInside .userland p = true) ∧
    shrinksNoneAhead .userland (pmu j) u = true := by
  obtain ⟨_, hat, hhead, _⟩ := kept_true.reached hparse hadmissible hpmu trivial hu
  -- the run goes on behind step `j`, since it ends and stays where it ended
  have hgoes := run_of_ended hparse hadmissible hpmu ht hend (j + 1)
  obtain ⟨v, hv⟩ := run_prefix hgoes (show j + 1 ≤ n + (j + 1) by omega)
  have htick := (run_succ_of_eq hu).symm.trans hv
  constructor
  · intro p hpoint
    obtain ⟨hatp, _, cur, hcur, hlive, _⟩ :=
      kept_true.preemptionPointAt hat hhead (hpmu j) hpoint
    obtain ⟨q, hq⟩ := preempts_of_tick hpoint htick
    obtain ⟨_, _, _, hvp, _⟩ := id hatp
    obtain ⟨_, rfl⟩ := hvp.of_readCurTask hcur hlive
    rw [readsInside_userland hvp.toLayout]
    exact readsInside_of_preempts hatp hcur hlive ((builds_preemptCurTask p).eq_ok hq)
  · by_contra hshrinks
    obtain ⟨done, todo, tail, hplaced, _⟩ := hat
    cases todo with
    | nil =>
        obtain ⟨cur, hcur, hid⟩ := hplaced.toLayout.ended
        rw [shrinksNoneAhead, signalPoint, hcur, ok_bind, if_pos hid] at hshrinks
        exact hshrinks rfl
    | cons cur rest =>
        obtain ⟨i, hi, hshort⟩ := tooShort_of_shrinks hplaced.toPlaced (hpmu j) hshrinks htick
        have hlast := run_of_ended hparse hadmissible hpmu ht hend (j + 1)
        rw [show n + (j + 1) = j + 1 + n by omega] at hlast
        exact not_tooShort_of_ended hparse hadmissible hpmu hlast hend
          (hshort.run hparse hadmissible hpmu hi hv hlast)

end Run

/-- The userland build, with all of its assertions, brings the current task to the terminator
within the bound and executes every task exactly once, if and only if no preemption reads beyond
the task array and no Tm2 finds a task of process 0 of planned length 2 behind the current one. -/
theorem userland_completes_iff {text : List Char} {s : System}
    (hparse : parsePlan text zeroedPlan = .ok s.plan) (hadmissible : Admissible s.plan)
    (hdistinct : DistinctIds s.plan) (hids : ∀ u ∈ s.plan.parsedTasks, CountableId u)
    (hprocesses : 1 ≤ s.plan.numProcesses)
    (hplanned : ∀ u ∈ s.plan.parsedTasks, 2 ≤ u.instructionsPlanned)
    (htotal : 5 ≤ s.plan.instructionsPlanned)
    (hreal : ∀ u ∈ s.plan.parsedTasks, 0 ≤ u.instructionsReal) :
    (∃ k t, k ≤ s.plan.callBound ∧ runTicks .userland everyTick s k = .ok t ∧
      Completed s.plan t.plan) ↔
    ∀ j t, runTicks .userland everyTick s j = .ok t →
      (∀ p, preemptionPoint .userland (everyTick j) t = .ok (some p) →
        readsInside .userland p = true) ∧ shrinksNoneAhead .userland (everyTick j) t = true := by
  have hready : Ready s.plan := ⟨parsePlan_parsed hparse, hadmissible, hdistinct, hprocesses,
    fun u hu => by have := hplanned u hu; omega⟩
  constructor
  · rintro ⟨k, t, _, ht, hcompleted⟩ j u hu
    exact keeps_of_ended hparse hadmissible everyTick_nonneg ht hcompleted.ended hu
  · exact Assertable.completes ⟨hready, hplanned, hreal, hids, htotal⟩ hparse

set_option maxRecDepth 4000 in
/-- Task 0 is preempted in front of task 1 and goes on in the slot of task 2. -/
theorem userland_completes_iff_preempted :
    ∃ p, parsePlan "2;0,0;1,0;;;0,0,2,90000000;1,1,2,2;0,2,2,2;".toList zeroedPlan = .ok p ∧
      ∀ j t, runTicks .userland everyTick ⟨p, zeroedSignals⟩ j = .ok t →
        (∀ q, preemptionPoint .userland (everyTick j) t = .ok (some q) →
          readsInside .userland q = true) ∧ shrinksNoneAhead .userland (everyTick j) t = true := by
  obtain ⟨p, t, hp, ht, hcheck⟩ :=
    @of_onRun .userland "2;0,0;1,0;;;0,0,2,90000000;1,1,2,2;0,2,2,2;".toList everyTick 11
      (fun p t => decide (Admissible p ∧ DistinctIds p ∧ (∀ u ∈ p.parsedTasks, CountableId u) ∧
          1 ≤ p.numProcesses ∧ (∀ u ∈ p.parsedTasks, 2 ≤ u.instructionsPlanned) ∧
          5 ≤ p.instructionsPlanned ∧ (∀ u ∈ p.parsedTasks, 0 ≤ u.instructionsReal) ∧
          11 ≤ p.callBound) && onCurTask t.plan (·.taskId = -2)) (by decide +kernel)
  simp only [Bool.and_eq_true, decide_eq_true_eq] at hcheck
  obtain ⟨⟨hadmissible, hdistinct, hids, hprocesses, hplanned, htotal, hreal, hbound⟩, hend⟩ :=
    hcheck
  obtain ⟨cur, hcur, hid⟩ := of_onCurTask hend
  obtain ⟨a, hat, hjobs⟩ :=
    delivered_run (s := ⟨p, zeroedSignals⟩) hp hadmissible everyTick_nonneg ht
  have hcompleted : Completed p t.plan :=
    hat.completed hjobs hdistinct ⟨cur, hcur, of_decide_eq_true hid⟩
  exact ⟨p, hp, (userland_completes_iff (s := ⟨p, zeroedSignals⟩) hp hadmissible hdistinct hids
    hprocesses hplanned htotal hreal).1 ⟨11, t, hbound, ht, hcompleted⟩⟩

end PbsLevel2
