import PbsLevel2.Proofs.Enduring

/-!
# Lateness of a task

`pbs_update_retired_instructions_task` writes the lateness of a task that is over its planned
length or finishes, and leaves it as it is on any other.
-/

namespace PbsLevel2

open Lib

/-! ## One update -/

/-- What the lateness of a task is to be once its counters were updated. -/
def UpToDate (t : PbsTask) : Prop :=
  t.lateness = if t.state = .finished then t.instructionsReal - t.instructionsPlanned
    else max 0 (t.instructionsRetiredTask - t.instructionsPlanned)

instance (t : PbsTask) : Decidable (UpToDate t) :=
  inferInstanceAs (Decidable (_ = _))

/-- After `r` more instructions `t` is neither finished nor over its planned length, but it was late
before. -/
def KeepsLateness (r : Int) (t : PbsTask) : Prop :=
  t.lateness ≠ 0 ∧ t.instructionsRetiredTask + r ≤ t.instructionsPlanned ∧
    t.instructionsRetiredTask + r < t.instructionsReal

/-- A task is finished by its counter only. -/
def FinishedByCount (t : PbsTask) : Prop :=
  t.state = .finished → t.instructionsReal ≤ t.instructionsRetiredTask

/-- A late task is over its planned length, or finished. -/
def LateOverPlan (t : PbsTask) : Prop :=
  t.lateness = 0 ∨ t.instructionsPlanned < t.instructionsRetiredTask ∨
    t.instructionsReal ≤ t.instructionsRetiredTask

instance (t : PbsTask) : Decidable (LateOverPlan t) :=
  inferInstanceAs (Decidable (_ ∨ _))

section Update

variable {r : Int} {t u : PbsTask}

theorem retire_lateness_of_finished (h : t.instructionsReal ≤ t.instructionsRetiredTask + r) :
    (pbsUpdateRetiredInstructionsTask r t).lateness =
      t.instructionsReal - t.instructionsPlanned := by
  unfold pbsUpdateRetiredInstructionsTask changeTaskState
  dsimp only
  rw [if_pos (by split <;> exact h)]
  split <;> rfl

theorem retire_lateness_of_over (hreal : t.instructionsRetiredTask + r < t.instructionsReal)
    (h : t.instructionsPlanned < t.instructionsRetiredTask + r) :
    (pbsUpdateRetiredInstructionsTask r t).lateness =
      t.instructionsRetiredTask + r - t.instructionsPlanned := by
  unfold pbsUpdateRetiredInstructionsTask changeTaskState
  dsimp only
  rw [if_pos h]
  dsimp only
  rw [if_neg (Int.not_le.2 hreal)]

theorem retire_lateness_of_within (hreal : t.instructionsRetiredTask + r < t.instructionsReal)
    (h : t.instructionsRetiredTask + r ≤ t.instructionsPlanned) :
    (pbsUpdateRetiredInstructionsTask r t).lateness = t.lateness := by
  unfold pbsUpdateRetiredInstructionsTask changeTaskState
  dsimp only
  rw [if_neg (Int.not_lt.2 h)]
  dsimp only
  rw [if_neg (Int.not_le.2 hreal)]

theorem upToDate_of_body (h : u.body = t.body) : UpToDate u ↔ UpToDate t :=
  ⟨of_body (fun _ => Iff.rfl) h.symm, of_body (fun _ => Iff.rfl) h⟩

theorem upToDate_retire_iff (hr : 0 ≤ r) (hcount : FinishedByCount t) :
    UpToDate (pbsUpdateRetiredInstructionsTask r t) ↔ ¬ KeepsLateness r t := by
  unfold UpToDate KeepsLateness
  rw [retire_instructionsReal, retire_instructionsPlanned, retire_instructionsRetiredTask]
  by_cases hreal : t.instructionsReal ≤ t.instructionsRetiredTask + r
  · rw [if_pos (retire_state_of_le r t hreal), retire_lateness_of_finished hreal]
    exact iff_of_true rfl fun h => absurd h.2.2 (Int.not_lt.2 hreal)
  · have hlt := Int.not_le.1 hreal
    have hrunning : (pbsUpdateRetiredInstructionsTask r t).state ≠ .finished := by
      rw [retire_state_of_lt r t hlt]
      intro hfinished
      have := hcount hfinished
      omega
    rw [if_neg hrunning]
    by_cases hover : t.instructionsPlanned < t.instructionsRetiredTask + r
    · rw [retire_lateness_of_over hlt hover]
      apply iff_of_true
      · omega
      · omega
    · rw [retire_lateness_of_within hlt (Int.not_lt.1 hover)]
      omega

theorem upToDate_credited_iff (hr : 0 ≤ r) (hcount : FinishedByCount t) :
    UpToDate (credited r t) ↔ ¬ KeepsLateness r t := by
  rw [← upToDate_retire_iff hr hcount]
  apply upToDate_of_body
  unfold credited
  split <;> rfl

theorem not_keepsLateness (hr : 0 ≤ r) (h : LateOverPlan t) : ¬ KeepsLateness r t := by
  unfold LateOverPlan at h
  unfold KeepsLateness
  omega

/-! ## What endures -/

theorem enduring_finishedByCount : Enduring FinishedByCount where
  body := of_body fun _ => Iff.rfl
  retire {r t} hr ht := by
    unfold FinishedByCount
    rw [retire_instructionsReal, retire_instructionsRetiredTask]
    intro hfinished
    by_contra hlt
    rw [retire_state_of_lt r t (Int.not_le.1 hlt)] at hfinished
    have := ht hfinished
    omega
  start _ h := nomatch h
  bump ht := ht
  hosted ht := ht

theorem finishedByCount_rescale (factor pid : Int) (ht : FinishedByCount t) :
    FinishedByCount (rescale factor pid t) := by
  unfold rescale
  split <;> exact ht

theorem enduring_lateOverPlan : Enduring LateOverPlan where
  body := of_body fun _ => Iff.rfl
  retire {r t} hr ht := by
    unfold LateOverPlan at ht ⊢
    rw [retire_instructionsReal, retire_instructionsPlanned, retire_instructionsRetiredTask]
    by_cases hreal : t.instructionsReal ≤ t.instructionsRetiredTask + r
    · exact .inr (.inr hreal)
    · by_cases hover : t.instructionsPlanned < t.instructionsRetiredTask + r
      · exact .inr (.inl hover)
      · left
        rw [retire_lateness_of_within (Int.not_le.1 hreal) (Int.not_lt.1 hover)]
        omega
  start ht := ht
  bump ht := ht
  hosted ht := ht

end Update

/-! ## The updates of a tick -/

/-- The tick from `s` calls `update_retired_instructions(x, p)`: for the reading of the counter, in
`handle_no_preemption_slot_found` or in `handle_free_slot`. -/
inductive UpdatePoint (b : Build) (r : Int) (s : System) : Int → PbsPlan → Prop
  | reading (cur : PbsTask) (hcur : s.plan.readCurTask = .ok cur) (hlive : cur.taskId ≠ -2) :
      UpdatePoint b r s r s.plan
  | noSlot (p : PbsPlan) (cur : PbsTask) (p₁ : PbsPlan)
      (hpoint : preemptionPoint b r s = .ok (some p)) (hcur : p.readCurTask = .ok cur)
      (hbump : p.modifyTask p.curTask (fun t => { t with wasPreempted := t.wasPreempted + 1 }) =
        .ok p₁)
      (hfind : findSlotToMoveTo b cur.processId p₁ = .ok none) :
      UpdatePoint b r s (cur.instructionsReal - cur.instructionsRetiredTask) p₁
  | freeSlot (p : PbsPlan) (cur : PbsTask) (p₁ : PbsPlan) (first : PbsTask)
      (hpoint : freeSlotPoint b r s = .ok (some p)) (hcur : p.readCurTask = .ok cur)
      (hfree : cur.taskId = -1)
      (hnext : updateCurProcess { p with
        indexCurTask := p.indexCurTask + 1
        curTask := p.curTask + 1 } = .ok p₁)
      (hfirst : p₁.readTask 0 = .ok first) :
      UpdatePoint b r s (-first.instructionsPlanned) p₁

/-- Directly after each update of its counters in the tick from `s` the lateness of the current
task is up to date.  (An update by a negative amount is one of the free space: it returns before it
reaches a task.) -/
def UpdatesLateness (b : Build) (r : Int) (s : System) : Prop :=
  ∀ x p q cur, UpdatePoint b r s x p → 0 ≤ x → updateRetiredInstructions x p = .ok q →
    q.readCurTask = .ok cur → UpToDate cur

/-- No update in the tick from `s` leaves the current task as late as it was, unfinished and within
its planned length. -/
def KeepsNoLateness (b : Build) (r : Int) (s : System) : Prop :=
  ∀ x p q cur, UpdatePoint b r s x p → 0 ≤ x → updateRetiredInstructions x p = .ok q →
    p.readCurTask = .ok cur → ¬ KeepsLateness x cur

/-- If the tick from `s` raises a signal, then it rescales no late task ahead to a planned length
that the unfinished task has not exceeded. -/
def overtakesNone (b : Build) (r : Int) (s : System) : Bool :=
  match signalPoint b r s with
  | .ok (some (signal, p)) =>
      p.todoTasks.all fun t => LateOverPlan (rescale (factorOf signal) (targetOf signal p) t)
  | _ => true

section Updates

variable {Q : PbsTask → Prop} {p q : PbsPlan} {done todo rest tail : List PbsTask} {cur : PbsTask}
  {r x : Int} {b : Build} {s u : System} {pmu : Nat → Int} {k : Nat}

theorem rescalesWithin_of_overtakesNone (h : overtakesNone b r s = true) :
    RescalesWithin LateOverPlan b r s := by
  intro signal p hpoint t ht _
  unfold overtakesNone at h
  rw [hpoint] at h
  simpa using List.all_eq_true.1 h t ht

theorem UpdatePoint.credit (h : UpdatePoint b r s x p) (hq : updateRetiredInstructions x p = .ok q) :
    ∃ p₁, updateRetiredInstructions r s.plan = .ok p₁ := by
  cases h with
  | reading => exact ⟨q, hq⟩
  | noSlot p₂ cur p₁ hpoint =>
      obtain ⟨_, p₁, _, _, _, _, hcredit, _⟩ := preemptionPoint_eq_ok hpoint
      exact ⟨p₁, hcredit⟩
  | freeSlot p₂ cur p₁ first hpoint =>
      rcases freeSlotPoint_eq_ok hpoint with ⟨_, hpre, _⟩ | ⟨p₁, _, _, hcredit, _⟩
      · obtain ⟨_, p₁, _, _, _, _, hcredit, _⟩ := preemptionPoint_eq_ok hpre
        exact ⟨p₁, hcredit⟩
      · exact ⟨p₁, hcredit⟩

theorem UpdatePoint.endures (hQ : Enduring Q) (h : UpdatePoint b r s x p)
    (hv : Placed s.plan done todo tail) (hall : ∀ t ∈ todo, Q t) (hr : 0 ≤ r)
    (hrescales : RescalesWithin Q b r s) (hx : 0 ≤ x)
    (hq : updateRetiredInstructions x p = .ok q) :
    ∃ done' cur rest tail', Placed p done' (cur :: rest) tail' ∧ Q cur := by
  obtain ⟨p₁, hcredit⟩ := h.credit hq
  obtain ⟨c, rest, rfl⟩ := hv.retire_todo hr hcredit
  cases h with
  | reading => exact ⟨_, c, rest, _, hv, hall c List.mem_cons_self⟩
  | noSlot p₂ cur _ hpoint hcur hbump hfind =>
      obtain ⟨_, p₁, c₁, s₂, _, _, hcredit, hc₁, hstate, hsignal, rfl⟩ := preemptionPoint_eq_ok hpoint
      obtain ⟨_, done₂, cur₂, rest₂, tail₂, hv₂, _⟩ := hv.front hr hcredit (signalIfT2_eq_ok hsignal)
      have hall₂ := hQ.signalled hv hall hr hrescales
        (.running p₁ c₁ s₂ hcredit hc₁ hstate hsignal hv₂.toLayout.todoTasks_eq)
      rw [modifyTask_bump hv₂.toLayout] at hbump
      obtain rfl := Except.ok.inj hbump
      exact ⟨_, _, _, _, hv₂.bumped, hQ.bump (hall₂ cur₂ List.mem_cons_self)⟩
  | freeSlot p₂ cur _ first hpoint hcur hfree hnext =>
      obtain ⟨done₂, todo₂, tail₂, hv₂, hall₂⟩ := hQ.slot hv hall hr hrescales hpoint
      obtain ⟨rest₂, rfl⟩ := hv₂.of_readCurTask hcur (by omega)
      rw [hv₂.toLayout.updateCurProcess_next] at hnext
      obtain rfl := Except.ok.inj hnext
      have hvp := hv₂.passed
      have hstarted := hQ.startHead fun t ht => hall₂ t (List.mem_cons_of_mem cur ht)
      obtain ⟨n, more, heq⟩ := hvp.retire_todo hx hq
      rw [heq] at hvp hstarted
      exact ⟨_, n, more, _, hvp, hstarted n List.mem_cons_self⟩

theorem Placed.upToDate_iff (hv : Placed p done (cur :: rest) tail) (hcount : FinishedByCount cur)
    (hx : 0 ≤ x) (hq : updateRetiredInstructions x p = .ok q) :
    (∀ c, q.readCurTask = .ok c → UpToDate c) ↔
      ∀ c, p.readCurTask = .ok c → ¬ KeepsLateness x c := by
  obtain ⟨_, _, _, hvq, _⟩ := hv.credit hx hq
  have hiff := upToDate_credited_iff hx hcount
  constructor
  · intro h c hc
    obtain rfl := Except.ok.inj (hv.readCurTask.symm.trans hc)
    exact hiff.1 (h _ hvq.readCurTask)
  · intro h c hc
    obtain rfl := Except.ok.inj (hvq.readCurTask.symm.trans hc)
    exact hiff.2 (h cur hv.readCurTask)

theorem rescalesWithin_finishedByCount (b : Build) (r : Int) (s : System) :
    RescalesWithin FinishedByCount b r s :=
  fun _ _ _ _ _ => finishedByCount_rescale _ _

theorem Parsed.endures_update (hp : Parsed s.plan) (hf : Formatted s.plan) (hpmu : ∀ k, 0 ≤ pmu k)
    (hQ : Enduring Q) (hfresh : ∀ t, t.Fresh → Q t)
    (hrescales : ∀ j ≤ k, ∀ u, runTicks b pmu s j = .ok u → RescalesWithin Q b (pmu j) u)
    (hu : runTicks b pmu s k = .ok u) (hpoint : UpdatePoint b (pmu k) u x p) (hx : 0 ≤ x)
    (hq : updateRetiredInstructions x p = .ok q) :
    ∃ done cur rest tail, Placed p done (cur :: rest) tail ∧ Q cur := by
  obtain ⟨p₁, hcredit⟩ := hpoint.credit hq
  have hfirst := hp.firstReal_of_reached hf hpmu hu hcredit
  have hv := hp.placed hf (hp.first hf hfirst)
  obtain ⟨done, todo, tail, hvu, hall⟩ := hQ.run hv (fun t ht => hfresh t (hp.fresh t ht)) hpmu
    (fun j hj v hv => hrescales j hj.le v hv) hu
  exact hpoint.endures hQ hvu hall (hpmu k) (hrescales k (Nat.le_refl k) u hu) hx hq

end Updates

/-- As long as no signal rescales a late unfinished task to a planned length it has not exceeded, the
lateness of a task is up to date after each update of its counters.  Where it is not, the update has
found a late task unfinished and within its planned length, and left its lateness alone. -/
theorem updatesLateness_run_iff {text : List Char} {b : Build} {pmu : Nat → Int} {s : System}
    {k : Nat} (hparse : parsePlan text zeroedPlan = .ok s.plan) (hformatted : Formatted s.plan)
    (hpmu : ∀ k, 0 ≤ pmu k) :
    ((∀ j ≤ k, ∀ u, runTicks b pmu s j = .ok u → UpdatesLateness b (pmu j) u) ↔
      ∀ j ≤ k, ∀ u, runTicks b pmu s j = .ok u → KeepsNoLateness b (pmu j) u) ∧
    ((∀ j ≤ k, ∀ u, runTicks b pmu s j = .ok u → overtakesNone b (pmu j) u = true) →
      ∀ j ≤ k, ∀ u, runTicks b pmu s j = .ok u → UpdatesLateness b (pmu j) u) := by
  have hparsed := parsePlan_parsed hparse
  have hstates : ∀ t : PbsTask, t.Fresh → FinishedByCount t := fun t ht h => by
    rw [ht.state] at h
    cases h
  have hiff : ∀ j u, runTicks b pmu s j = .ok u →
      ∀ x p q, UpdatePoint b (pmu j) u x p → 0 ≤ x → updateRetiredInstructions x p = .ok q →
      ((∀ c, q.readCurTask = .ok c → UpToDate c) ↔
        ∀ c, p.readCurTask = .ok c → ¬ KeepsLateness x c) := by
    intro j u hu x p q hpoint hx hq
    obtain ⟨done, cur, rest, tail, hv, hcount⟩ := hparsed.endures_update hformatted hpmu
      enduring_finishedByCount hstates (fun _ _ _ _ => rescalesWithin_finishedByCount _ _ _) hu
      hpoint hx hq
    exact hv.upToDate_iff hcount hx hq
  constructor
  · constructor
    · intro h j hj u hu x p q c hpoint hx hq
      exact (hiff j u hu x p q hpoint hx hq).1 (fun c' => h j hj u hu x p q c' hpoint hx hq) c
    · intro h j hj u hu x p q c hpoint hx hq
      exact (hiff j u hu x p q hpoint hx hq).2 (fun c' => h j hj u hu x p q c' hpoint hx hq) c
  · intro h j hj u hu x p q c hpoint hx hq
    apply (hiff j u hu x p q hpoint hx hq).2
    intro c' hc'
    obtain ⟨done, cur, rest, tail, hv, hlate⟩ := hparsed.endures_update hformatted hpmu
      enduring_lateOverPlan (fun t ht => .inl ht.lateness)
      (fun i hi v hv => rescalesWithin_of_overtakesNone (h i (hi.trans hj) v hv)) hu hpoint hx hq
    obtain rfl := Except.ok.inj (hv.readCurTask.symm.trans hc')
    exact not_keepsLateness hx hlate

/-- Two readings of the counter, and one instruction in each tick behind them. -/
def readings (first second : Int) (k : Nat) : Int :=
  if k = 0 then first else if k = 1 then second else 1

theorem readings_nonneg {first second : Int} (hfirst : 0 ≤ first) (hsecond : 0 ≤ second) (k : Nat) :
    0 ≤ readings first second k := by
  unfold readings
  split
  · exact hfirst
  · split <;> omega

set_option maxRecDepth 4000 in
/-- The lateness of the node raises T2 when task 1 is 60 000 000 instructions over its planned
length, which is stretched by 50 000 000. -/
theorem updatesLateness_run_stretched :
    ∃ p t, parsePlan "1;0,0;;;0,0,2,2000000000;0,1,1000000000,5000000000;".toList zeroedPlan =
        .ok p ∧
      runTicks .userland (readings 2000000000 1060000000) ⟨p, zeroedSignals⟩ 2 = .ok t ∧
      t.plan.todoTasks.map PbsTask.lateness = [60000000] ∧
      t.plan.todoTasks.map PbsTask.instructionsPlanned = [1050000000] ∧
      UpdatesLateness .userland 1 t := by
  obtain ⟨p, t, hp, ht, hcheck⟩ :=
    @of_onRun .userland "1;0,0;;;0,0,2,2000000000;0,1,1000000000,5000000000;".toList
      (readings 2000000000 1060000000) 2
      (fun p t => decide (Formatted p ∧ t.plan.todoTasks.map PbsTask.lateness = [60000000] ∧
          t.plan.todoTasks.map PbsTask.instructionsPlanned = [1050000000]) &&
        allTicks (overtakesNone .userland) .userland (readings 2000000000 1060000000)
          ⟨p, zeroedSignals⟩ 3) (by decide +kernel)
  simp only [Bool.and_eq_true, decide_eq_true_eq] at hcheck
  obtain ⟨⟨hformatted, hlate, hplanned⟩, hovertakes⟩ := hcheck
  exact ⟨p, t, hp, ht, hlate, hplanned, (updatesLateness_run_iff (s := ⟨p, zeroedSignals⟩) hp
    hformatted (readings_nonneg (by decide) (by decide))).2
      (fun j hj u hu => of_allTicks hovertakes (by omega) hu) 2 (Nat.le_refl 2) t ht⟩

set_option maxRecDepth 4000 in
/-- Task 1 is 10 000 000 instructions over its planned length when it is stretched by 50 000 000:
with the next instruction it is still as late. -/
theorem lateness_stale :
    ∃ p t q cur, parsePlan "1;0,0;;;0,0,2,2000000000;0,1,1000000000,5000000000;".toList
        zeroedPlan = .ok p ∧ Admissible p ∧ DistinctIds p ∧
      runTicks .userland (readings 2000000000 1010000000) ⟨p, zeroedSignals⟩ 2 = .ok t ∧
      updateRetiredInstructions 1 t.plan = .ok q ∧ q.readCurTask = .ok cur ∧
      cur.state ≠ .finished ∧ cur.instructionsRetiredTask = 1010000001 ∧
      cur.instructionsPlanned = 1050000000 ∧ cur.instructionsReal = 5000000000 ∧
      cur.lateness = 10000000 ∧ ¬ UpdatesLateness .userland 1 t := by
  obtain ⟨p, t, hp, ht, hcheck⟩ :=
    @of_onRun .userland "1;0,0;;;0,0,2,2000000000;0,1,1000000000,5000000000;".toList
      (readings 2000000000 1010000000) 2
      (fun p t => decide (Admissible p ∧ DistinctIds p) &&
        onCurTask t.plan (fun c => decide (c.taskId ≠ -2)) &&
        onOk (updateRetiredInstructions 1 t.plan) fun q => onCurTask q fun cur =>
          decide (cur.state ≠ .finished ∧ cur.instructionsRetiredTask = 1010000001 ∧
            cur.instructionsPlanned = 1050000000 ∧ cur.instructionsReal = 5000000000 ∧
            cur.lateness = 10000000 ∧ ¬ UpToDate cur)) (by decide +kernel)
  simp only [Bool.and_eq_true, decide_eq_true_eq] at hcheck
  obtain ⟨⟨⟨hadmissible, hdistinct⟩, hlive⟩, hcheck⟩ := hcheck
  obtain ⟨c, hc, hlive⟩ := of_onCurTask hlive
  obtain ⟨q, hq, hcheck⟩ := of_onOk hcheck
  obtain ⟨cur, hcur, hcheck⟩ := of_onCurTask hcheck
  rw [decide_eq_true_eq] at hlive hcheck
  obtain ⟨hstate, hretired, hplanned, hreal, hlate, hstale⟩ := hcheck
  exact ⟨p, t, q, cur, hp, hadmissible, hdistinct, ht, hq, hcur, hstate, hretired, hplanned, hreal,
    hlate, fun h => hstale (h 1 t.plan q cur (.reading c hc hlive) (by decide) hq hcur)⟩

end PbsLevel2
