import PbsLevel2.Proofs.Course
import PbsLevel2.Proofs.Order

/-!
# The node lateness as a balance

Next to a run stands the balance of the entries it passed: one that was booked as finished counts
with the instructions it needed beyond its plan, a free slot that was skipped with its planned
length as time gained.  A signal settles the balance.
-/

namespace PbsLevel2

open Lib

/-! ## The balance of a run -/

/-- The instructions a task needed beyond its plan. -/
def excess (t : PbsTask) : Int :=
  t.instructionsReal - t.instructionsPlanned

/-- The balance after the tick from `s` to `s'`.  A tick that raises a signal, and so calls
`balance_lateness`, does so before it passes an entry.  `tasks_finished` counts the entries that
are booked, and a tick books before it skips a free slot. -/
def nextBalance (s s' : System) (balance : Int) : Int :=
  let passed := s'.plan.doneTasks.drop s.plan.indexCurTask
  let finished := (s'.plan.tasksFinished - s.plan.tasksFinished).toNat
  (if s'.signals.predictionFailuresCaused = s.signals.predictionFailuresCaused
    then balance else 0) +
    ((passed.take finished).map excess).sum -
    ((passed.drop finished).map PbsTask.instructionsPlanned).sum

/-- The run of the ticks with the balance beside the state. -/
def runBalance (b : Build) (pmu : Nat → Int) (s : System) : Nat → Exec (System × Int) :=
  run (track nextBalance fun k => pbsRunTimerTick b (pmu k)) (s, 0)

theorem runBalance_succ {b : Build} {pmu : Nat → Int} {s t u : System} {j : Nat} {balance : Int}
    (h : runBalance b pmu s j = .ok (t, balance)) (htick : pbsRunTimerTick b (pmu j) t = .ok u) :
    runBalance b pmu s (j + 1) = .ok (u, nextBalance t u balance) := by
  rw [runBalance] at h ⊢
  rw [run_succ_of_eq h]
  exact @track_of_eq _ _ (fun k => pbsRunTimerTick b (pmu k)) _ _ _ _ _ htick balance

/-- What `handle_free_slot` books too much on the plan `p`: it books the length of the first
entry of the plan, or nothing when that is negative. -/
def slip (p : PbsPlan) : Int :=
  match p.readCurTask, p.readTask 0 with
  | .ok cur, .ok first =>
      if cur.taskId = -1 then cur.instructionsPlanned - max 0 first.instructionsPlanned else 0
  | _, _ => 0

/-- If a free slot is skipped, then the planned length of the first entry of the plan is that of
the free slot. -/
def booksSkippedSlot (p : PbsPlan) : Bool :=
  match p.readCurTask, p.readTask 0 with
  | .ok cur, .ok first =>
      !(cur.taskId = -1) || cur.instructionsPlanned = max 0 first.instructionsPlanned
  | _, _ => true

theorem slip_eq_zero_iff (p : PbsPlan) : slip p = 0 ↔ booksSkippedSlot p = true := by
  rw [slip, booksSkippedSlot]
  split
  · split <;> rename_i hfree
    · simp [hfree, sub_eq_zero]
    · simp [hfree]
  · simp

/-! ## What a tick adds -/

def PbsTask.account (t : PbsTask) : Int × Int :=
  (excess t, t.instructionsPlanned)

/-- From `p` to `q` the entries `booked` were finished and then `skipped` skipped, and the lateness
grew by `change`. -/
structure Passes (p q : PbsPlan) (booked skipped : List (Int × Int)) (change : Int) : Prop where
  done : q.doneTasks.map PbsTask.account =
    p.doneTasks.map PbsTask.account ++ (booked ++ skipped)
  finished : q.tasksFinished = p.tasksFinished + booked.length
  lateness : q.lateness = p.lateness + change

section Passes

variable {p q u : PbsPlan} {booked booked' skipped : List (Int × Int)} {change change' r : Int}
  {b : Build} {done todo tail rest done' todo' tail' : List PbsTask} {cur : PbsTask}

theorem Passes.trans (h : Passes p q booked [] change) (h' : Passes q u booked' skipped change') :
    Passes p u (booked ++ booked') skipped (change + change') := by
  constructor
  · rw [h'.done, h.done, List.append_nil, List.append_assoc, List.append_assoc]
  · rw [h'.finished, h.finished, List.length_append]
    omega
  · rw [h'.lateness, h.lateness]
    omega

theorem Passes.of_done (hl : Layout p done todo tail) (hl' : Layout q done' todo' tail')
    (hdone : done'.map PbsTask.body = done.map PbsTask.body)
    (hfinished : q.tasksFinished = p.tasksFinished) (hlateness : q.lateness = p.lateness) :
    Passes p q [] [] 0 := by
  constructor
  · rw [hl'.doneTasks_eq, hl.doneTasks_eq, List.append_nil, List.append_nil]
    exact map_of_view hdone fun _ => rfl
  · exact hfinished.trans (Int.add_zero _).symm
  · exact hlateness.trans (Int.add_zero _).symm

theorem Passes.ticked (h : Passes p q booked skipped change) :
    Passes p { q with tickCounter := q.tickCounter + 1 } booked skipped change :=
  ⟨h.done, h.finished, h.lateness⟩

theorem Placed.passes_credit (hv : Placed p done todo tail) (hr : 0 ≤ r)
    (hq : updateRetiredInstructions r p = .ok q) : Passes p q [] [] 0 := by
  obtain ⟨cur, rest, rfl⟩ := hv.retire_todo hr hq
  obtain ⟨done', rest', tail', hv', hd, _, _, heq⟩ := hv.credit hr hq
  exact .of_done hv.toLayout hv'.toLayout hd (by rw [heq]) (by rw [heq])

theorem Placed.passes_finish (hv : Placed p done (cur :: rest) tail) (surplus : Int) :
    Passes p ((p.booked surplus cur).passed done cur rest tail) [cur.account] [] (excess cur) := by
  constructor
  · rw [(hv.booked _).passed.toLayout.doneTasks_eq, hv.toLayout.doneTasks_eq, List.map_append]
    rfl
  · rfl
  · rfl

theorem Placed.passes_skip (hv : Placed p done todo tail) (hq : skipFreeSlot b p = .ok q) :
    ∃ skipped, Passes p q [] skipped (slip p - (skipped.map Prod.snd).sum) := by
  rcases skipFreeSlot_eq_ok hv.toLayout hq with
    ⟨hh, heq⟩ | ⟨cur, rest, first, rfl, hfree, hfirst, hq⟩
  · have hslip : slip p = 0 := by
      rw [slip]
      split
      · rename_i cur _ hcur _
        rw [if_neg (hh cur hcur)]
      · rfl
    rw [hslip, heq]
    exact ⟨[], .of_done hv.toLayout hv.toLayout rfl rfl rfl⟩
  · refine ⟨[cur.account], ?_⟩
    have hpassed : (p.passed done cur rest tail).doneTasks.map PbsTask.account =
        p.doneTasks.map PbsTask.account ++ ([] ++ [cur.account]) := by
      rw [hv.passed.toLayout.doneTasks_eq, hv.toLayout.doneTasks_eq, List.map_append]
      rfl
    have hslip : slip p - ([cur.account].map Prod.snd).sum =
        -max 0 first.instructionsPlanned := by
      rw [slip, hv.readCurTask, hv.skip_reads.2 first hfirst, List.map_singleton,
        List.sum_singleton, PbsTask.account]
      dsimp only
      rw [if_pos hfree]
      omega
    rw [hslip]
    by_cases hneg : -first.instructionsPlanned < 0
    · rw [updateRetiredInstructions_neg hneg] at hq
      obtain rfl := Except.ok.inj hq
      refine ⟨hpassed, (Int.add_zero _).symm, ?_⟩
      change p.lateness + -first.instructionsPlanned = _
      omega
    · have hcredit := hv.passed.passes_credit (Int.not_lt.1 hneg) hq
      constructor
      · rw [hcredit.done, hpassed, List.append_nil, List.append_nil]
      · rw [hcredit.finished]
        rfl
      · rw [hcredit.lateness]
        change p.lateness + 0 = _
        omega

theorem Placed.passes_preempt (hv : Placed p done (cur :: rest) tail)
    (hrun : cur.instructionsRetiredTask < cur.instructionsReal) (hq : preemptCurTask b p = .ok q) :
    Passes p q [] [] 0 := by
  rcases preemptCurTask_eq_ok hv.toLayout hq with
    ⟨blk, n, ns, f, post, hc, _, rfl⟩ | ⟨_, q₁, hq₁, rfl⟩
  · exact .of_done hv.toLayout (hv.rotated hc).toLayout rfl rfl rfl
  · have hcredit := hv.bumped.passes_credit
      (Int.sub_nonneg_of_le (Int.le_of_lt hrun)) hq₁
    have hbump : Passes p (p.bumped done cur (rest ++ tail)) [] [] 0 :=
      .of_done hv.toLayout hv.bumped.toLayout rfl rfl rfl
    have hall := hbump.trans hcredit
    exact ⟨hall.done, hall.finished, hall.lateness⟩

/-! ## Signals settle the balance -/

variable {s s₂ s' : System}

/-- From `s` to `s₂` nothing was passed, and a signal settled the balance. -/
structure Settled (s s₂ : System) : Prop where
  done : s₂.plan.doneTasks.map PbsTask.account = s.plan.doneTasks.map PbsTask.account
  finished : s₂.plan.tasksFinished = s.plan.tasksFinished
  lateness : s₂.plan.lateness =
    if s₂.signals.predictionFailuresCaused = s.signals.predictionFailuresCaused
    then s.plan.lateness else 0

theorem Placed.settled_signal (hv : Placed s.plan done (cur :: rest) tail)
    (hs : Signalled b s s₂) : Settled s s₂ := by
  have hresched : ∀ factor pid,
      s₂.plan = PbsPlan.rescheduled { s.plan with stress := stressReset } done (cur :: rest) tail
        factor pid →
      s₂.signals.predictionFailuresCaused = s.signals.predictionFailuresCaused + 1 →
      Settled s s₂ := by
    intro factor pid heq hcount
    have hpassed : s₂.plan.doneTasks = s.plan.doneTasks := by
      rw [heq, ((hv.stressed _).rescheduled factor pid).toLayout.doneTasks_eq,
        hv.toLayout.doneTasks_eq]
    refine ⟨congrArg _ hpassed, by rw [heq]; rfl, ?_⟩
    rw [if_neg (by omega), heq]
    rfl
  rcases hs with rfl | hs | hs
  · exact ⟨rfl, rfl, (if_pos rfl).symm⟩
  · obtain ⟨_, heq, hcount⟩ := signalT2_eq_ok hv.toLayout hs
    exact hresched _ _ heq hcount
  · obtain ⟨_, heq, hcount⟩ := signalTm2_eq_ok hv.toLayout hs
    exact hresched _ _ heq hcount

theorem Placed.settled (hv : Placed s.plan done (cur :: rest) tail) (hr : 0 ≤ r)
    (hcredit : updateRetiredInstructions r s.plan = .ok p)
    (hs : Signalled b { s with plan := p } s₂) : Settled s s₂ := by
  obtain ⟨_, _, _, hv₁, _⟩ := hv.credit hr hcredit
  have hnothing := hv.passes_credit hr hcredit
  have hsettled := hv₁.settled_signal (s := { s with plan := p }) hs
  constructor
  · rw [hsettled.done, hnothing.done, List.append_nil, List.append_nil]
  · exact hsettled.finished.trans (hnothing.finished.trans (Int.add_zero _))
  · rw [hsettled.lateness, hnothing.lateness, Int.add_zero]

/-- What the tick from `s` books too much. -/
def slipOf (b : Build) (r : Int) (s : System) : Int :=
  match freeSlotPoint b r s with
  | .ok (some p) => slip p
  | _ => 0

theorem slipOf_eq (h : freeSlotPoint b r s = .ok (some p)) : slipOf b r s = slip p := by
  rw [slipOf, h]

theorem slipOf_eq_zero_iff : slipOf b r s = 0 ↔
    ∀ p, freeSlotPoint b r s = .ok (some p) → booksSkippedSlot p = true := by
  rw [slipOf]
  split
  · rename_i p hp
    rw [slip_eq_zero_iff, hp]
    simp
  · rename_i hnone
    exact iff_of_true rfl fun p hp => absurd hp (hnone p)

theorem Settled.lateness_eq (h : Settled s s₂) (hl : Layout s.plan done todo tail)
    (hsignals : s'.signals = s₂.signals) (hpasses : Passes s₂.plan s'.plan booked skipped change) :
    s'.plan.lateness = nextBalance s s' s.plan.lateness +
      (change - (booked.map Prod.fst).sum + (skipped.map Prod.snd).sum) := by
  have hpassed : (s'.plan.doneTasks.drop s.plan.indexCurTask).map PbsTask.account =
      booked ++ skipped := by
    have hlen : s.plan.indexCurTask = (s.plan.doneTasks.map PbsTask.account).length := by
      rw [List.length_map, hl.doneTasks_eq, hl.index]
    rw [List.map_drop, hpasses.done, h.done, hlen, List.drop_left]
  have hcount : (s'.plan.tasksFinished - s.plan.tasksFinished).toNat = booked.length := by
    rw [hpasses.finished, h.finished]
    omega
  have hbooked : ((s'.plan.doneTasks.drop s.plan.indexCurTask).take booked.length).map excess =
      booked.map Prod.fst := by
    have htake := congrArg (fun l => (l.take booked.length).map Prod.fst) hpassed
    rwa [List.take_left, ← List.map_take, List.map_map] at htake
  have hskipped : ((s'.plan.doneTasks.drop s.plan.indexCurTask).drop booked.length).map
      PbsTask.instructionsPlanned = skipped.map Prod.snd := by
    have hdrop := congrArg (fun l => (l.drop booked.length).map Prod.snd) hpassed
    rwa [List.drop_left, ← List.map_drop, List.map_map] at hdrop
  rw [nextBalance, hcount, hbooked, hskipped, hpasses.lateness, h.lateness, hsignals]
  omega

theorem Placed.slipOf_ended (hv : Placed s.plan done [] tail) (hr : 0 ≤ r) : slipOf b r s = 0 := by
  rw [slipOf_eq_zero_iff]
  intro p hp
  obtain ⟨cur, hcur, hend⟩ := hv.toLayout.ended
  exfalso
  rcases freeSlotPoint_eq_ok hp with ⟨p₂, hpoint, _⟩ | ⟨p₁, c, s₂, hcredit, _⟩
  · obtain ⟨_, _, _, _, hc, hlive, _⟩ := preemptionPoint_eq_ok hpoint
    obtain rfl := Except.ok.inj (hcur.symm.trans hc)
    exact hlive hend
  · obtain ⟨_, _, hnil⟩ := hv.retire_todo hr hcredit
    cases hnil

/-- After a tick the lateness is the balance, except for the slip. -/
theorem lateness_tick (h : Holds (fun _ => True) s.plan) (hr : 0 ≤ r)
    (htick : pbsRunTimerTick b r s = .ok s') :
    s'.plan.lateness = nextBalance s s' s.plan.lateness + slipOf b r s := by
  obtain ⟨done, _ | ⟨cur, rest⟩, tail, hv, _⟩ := h
  · obtain rfl := hv.tick_ended htick
    rw [hv.slipOf_ended hr]
    have hsettled : Settled s' s' := ⟨rfl, rfl, (if_pos rfl).symm⟩
    exact hsettled.lateness_eq hv.toLayout rfl (.of_done hv.toLayout hv.toLayout rfl rfl rfl)
  have hc := hv.readCurTask
  have hclive := (hv.live cur (by simp)).1
  cases tick_cases htick with
  | ended c hcur hend _ =>
      obtain rfl := Except.ok.inj (hc.symm.trans hcur)
      exact absurd hend hclive
  | finished p₁ c s₂ p₃ p₄ _ hcredit hcur hstate hsignal hbook hskip hs =>
      rw [slipOf_eq (freeSlotPoint_finished hc hclive hcredit hcur hstate hsignal hbook)]
      have hsignalled := signalIfTm2_eq_ok hsignal
      obtain ⟨_, _, cur₂, _, _, hv₂, _⟩ := hv.front hr hcredit hsignalled
      obtain ⟨_, rfl⟩ := finishTask_eq_ok hv₂ hbook
      obtain ⟨skipped, hskipped⟩ := (hv₂.booked _).passed.passes_skip hskip
      have hpasses := ((hv₂.passes_finish _).trans hskipped).ticked
      rw [(hv.settled hr hcredit hsignalled).lateness_eq hv.toLayout (by rw [hs])
        (by rw [hs]; exact hpasses), List.append_nil, List.map_singleton, List.sum_singleton,
        PbsTask.account]
      dsimp only
      omega
  | preempted p₁ c s₂ p₃ p₄ _ hcredit hcur hstate hsignal ht1 hpreempt hskip hs =>
      have hpoint := preemptionPoint_eq hc hclive hcredit hcur hstate hsignal ht1
      rw [slipOf_eq (freeSlotPoint_preempted hpoint hpreempt)]
      have hsignalled := signalIfT2_eq_ok hsignal
      obtain ⟨_, _, _, hv₃, _⟩ := upheld_true.freeSlotPointAt ⟨_, _, _, hv, trivial⟩ hr
        (freeSlotPoint_preempted hpoint hpreempt)
      obtain ⟨_, cur₂, _, _, hv₂, _, _, hrun⟩ :=
        upheld_true.signalled ⟨_, _, _, hv, trivial⟩ hr hcredit hcur hsignalled
      obtain ⟨skipped, hskipped⟩ := hv₃.passes_skip hskip
      have hpasses := ((hv₂.passes_preempt (hrun hstate) hpreempt).trans hskipped).ticked
      rw [(hv.settled hr hcredit hsignalled).lateness_eq hv.toLayout (by rw [hs])
        (by rw [hs]; exact hpasses), List.append_nil, List.map_nil, List.sum_nil]
      omega
  | waited p₁ c s₂ _ hcredit hcur hstate hsignal ht1 hs =>
      have hnone : slipOf b r s = 0 := by
        rw [slipOf, freeSlotPoint_waited hc hclive hcredit hcur hstate hsignal ht1]
      have hsignalled := signalIfT2_eq_ok hsignal
      have hpasses : Passes s₂.plan s'.plan [] [] 0 := by
        rw [hs, relieveStress_eq]
        constructor <;> simp [PbsPlan.doneTasks]
      rw [(hv.settled hr hcredit hsignalled).lateness_eq hv.toLayout (by rw [hs]) hpasses, hnone]
      simp

end Passes

/-! ## In a run -/

/-- Up to every tick of a run the lateness is the balance if and only if every free slot that
was skipped had the planned length of the first entry of the plan. -/
theorem lateness_run_iff {text : List Char} {b : Build} {pmu : Nat → Int} {s t : System} {k : Nat}
    (hparse : parsePlan text zeroedPlan = .ok s.plan) (hformatted : Formatted s.plan)
    (hpmu : ∀ k, 0 ≤ pmu k) (ht : runTicks b pmu s k = .ok t) :
    (∀ j ≤ k, ∀ u, runTicks b pmu s j = .ok u →
      runBalance b pmu s j = .ok (u, u.plan.lateness)) ↔
    ∀ j < k, ∀ u p, runTicks b pmu s j = .ok u → freeSlotPoint b (pmu j) u = .ok (some p) →
      booksSkippedSlot p = true := by
  have hparsed := parsePlan_parsed hparse
  have hrun : (∀ j ≤ k, ∀ u, runTicks b pmu s j = .ok u →
      runBalance b pmu s j = .ok (u, u.plan.lateness)) ↔
      ∀ j < k, ∀ u, runTicks b pmu s j = .ok u → slipOf b (pmu j) u = 0 := by
    refine run_forall_iff (P := fun j u => runBalance b pmu s j = .ok (u, u.plan.lateness))
      (C := fun j u => slipOf b (pmu j) u = 0) ht ?_ fun j hj u v hu huv hbalance => ?_
    · rw [hparsed.counters.1]
      rfl
    · have hfirst := hparsed.firstReal_of_run hformatted hpmu (show 0 < k by omega) ht
      have htick := lateness_tick (upheld_true.reached hparse hformatted hfirst hpmu trivial hu)
        (hpmu j) huv
      have hnext := runBalance_succ hbalance huv
      constructor
      · intro h
        have heq := Except.ok.inj (hnext.symm.trans h)
        simp only [Prod.mk.injEq, true_and] at heq
        omega
      · intro h
        rw [hnext, htick, h, add_zero]
  rw [hrun]
  simp only [slipOf_eq_zero_iff]
  exact forall₂_congr fun j _ => ⟨fun h u p hu hp => h u hu p hp, fun h u hu p hp => h u p hu hp⟩

set_option maxRecDepth 4000 in
/-- The first free slot is skipped, the second runs like a task and is booked as finished. -/
theorem lateness_run_skipped :
    ∃ p t, parsePlan "1;0,0;;;0,0,10,10;-1,-1,10,0;-1,-1,10,25;0,1,1000,1000;".toList zeroedPlan =
        .ok p ∧
      runTicks .kernel everyTick ⟨p, zeroedSignals⟩ 2 = .ok t ∧ t.plan.lateness = 5 ∧
      runBalance .kernel everyTick ⟨p, zeroedSignals⟩ 2 = .ok (t, t.plan.lateness) := by
  obtain ⟨p, t, hp, ht, hcheck⟩ :=
    @of_onRun .kernel "1;0,0;;;0,0,10,10;-1,-1,10,0;-1,-1,10,25;0,1,1000,1000;".toList everyTick 2
      (fun p t => decide (Formatted p ∧ t.plan.lateness = 5) &&
        allTicks (atPoint freeSlotPoint booksSkippedSlot .kernel) .kernel everyTick
          ⟨p, zeroedSignals⟩ 2) (by decide +kernel)
  simp only [Bool.and_eq_true, decide_eq_true_eq] at hcheck
  obtain ⟨⟨hformatted, hlateness⟩, hslots⟩ := hcheck
  exact ⟨p, t, hp, ht, hlateness, (lateness_run_iff hp hformatted everyTick_nonneg ht).2
    (fun j hj u q hu hq => of_atPoint (of_allTicks hslots hj hu) hq) 2 (Nat.le_refl 2) t ht⟩

set_option maxRecDepth 4000 in
/-- The skipped free slot has planned length 20, but the lateness drops by the 10 of task 0. -/
theorem lateness_misbooked :
    ∃ p t, parsePlan "1;0,0;;;0,0,10,10;-1,-1,20,0;0,1,10,10;".toList zeroedPlan = .ok p ∧
      Admissible p ∧ DistinctIds p ∧ runTicks .userland everyTick ⟨p, zeroedSignals⟩ 1 = .ok t ∧
      t.plan.lateness = -10 ∧
      (runBalance .userland everyTick ⟨p, zeroedSignals⟩ 1).map Prod.snd = .ok (-20) := by
  obtain ⟨p, t, hp, ht, hcheck⟩ :=
    @of_onRun .userland "1;0,0;;;0,0,10,10;-1,-1,20,0;0,1,10,10;".toList everyTick 1
      (fun p t => decide (Admissible p ∧ DistinctIds p ∧ t.plan.lateness = -10 ∧
        nextBalance ⟨p, zeroedSignals⟩ t 0 = -20)) (by decide +kernel)
  simp only [decide_eq_true_eq] at hcheck
  obtain ⟨hadmissible, hdistinct, hlateness, hbalance⟩ := hcheck
  refine ⟨p, t, hp, hadmissible, hdistinct, ht, hlateness, ?_⟩
  have htick : pbsRunTimerTick .userland (everyTick 0) ⟨p, zeroedSignals⟩ = .ok t := ht
  have hstart : runBalance .userland everyTick ⟨p, zeroedSignals⟩ 0 =
      .ok (⟨p, zeroedSignals⟩, 0) := rfl
  rw [runBalance_succ hstart htick, hbalance]
  rfl

end PbsLevel2
