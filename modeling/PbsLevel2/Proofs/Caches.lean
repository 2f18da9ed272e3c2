import PbsLevel2.Proofs.Order
import PbsLevel2.Proofs.RoundTrip
import PbsLevel2.Proofs.States

/-!
# The sums over the tasks

`parse_plan` counts the tasks of every process and adds up the planned lengths, of a process
and of the whole plan.  A run never writes these sums again: the lengths agree with the task
list until a signal changes them, the counts until a task finishes.
-/

namespace PbsLevel2

open Lib

/-! ## The operations of a tick -/

/-- The sums of the parser over the tasks of a process. -/
def PbsProcess.sums (q : PbsProcess) : Int × Int :=
  (q.numTasksRemaining, q.lengthPlan)

/-- What a task adds to them. -/
def PbsTask.share (t : PbsTask) : Int × Int :=
  (t.processId, t.instructionsPlanned)

/-- From `p` to `q` the sums stay as they are, the list is the same up to order, as far as `g`
sees it, and entries of the processes `passed` are passed. -/
structure Carries {α : Type} (g : PbsTask → α) (p q : PbsPlan) (passed : List Int) : Prop where
  live : (q.liveTasks.map g).Perm (p.liveTasks.map g)
  done : q.doneTasks.map PbsTask.processId = p.doneTasks.map PbsTask.processId ++ passed
  sums : ∀ i, (processAt q.processes i).sums = (processAt p.processes i).sums

section Carries

variable {α : Type} {g : PbsTask → α} {o p q : PbsPlan} {cur : PbsTask}
  {done todo rest tail done' todo' tail' : List PbsTask} {passed passed' : List Int}
  {r surplus : Int} {b : Build} {s s₂ : System}

theorem Carries.trans (h : Carries g o p passed) (h' : Carries g p q passed') :
    Carries g o q (passed ++ passed') where
  live := h'.live.trans h.live
  done := by rw [h'.done, h.done, List.append_assoc]
  sums i := (h'.sums i).trans (h.sums i)

theorem Carries.of_same (htasks : q.tasks = p.tasks) (hindex : q.indexCurTask = p.indexCurTask)
    (hprocesses : q.processes = p.processes) : Carries g p q [] where
  live := by
    rw [PbsPlan.liveTasks, htasks]
    exact List.Perm.refl _
  done := by
    rw [PbsPlan.doneTasks, htasks, hindex]
    exact (List.append_nil _).symm
  sums i := by rw [hprocesses]

theorem Carries.of_layouts (hl : Layout p done todo tail) (hl' : Layout q done' todo' tail')
    (hlive : ((done' ++ todo').map g).Perm ((done ++ todo).map g))
    (hdone : done'.map PbsTask.processId = done.map PbsTask.processId ++ passed)
    (hsums : ∀ i, (processAt q.processes i).sums = (processAt p.processes i).sums) :
    Carries g p q passed where
  live := by
    rw [hl.liveTasks_eq, hl'.liveTasks_eq]
    exact hlive
  done := by
    rw [hl.doneTasks_eq, hl'.doneTasks_eq]
    exact hdone
  sums := hsums

theorem Carries.processIds (h : Carries PbsTask.share p q passed) :
    Carries PbsTask.processId p q passed where
  live := by
    have hlive := h.live.map Prod.fst
    rw [List.map_map, List.map_map] at hlive
    exact hlive
  done := h.done
  sums := h.sums

theorem map_processId_of_body {l m : List PbsTask} (h : l.map PbsTask.body = m.map PbsTask.body) :
    l.map PbsTask.processId = m.map PbsTask.processId :=
  map_of_view h fun _ => rfl

theorem share_credited (r : Int) (t : PbsTask) : (credited r t).share = t.share :=
  show (credited r t).frame.share = t.frame.share by rw [frame_credited]

theorem Placed.carries_credit (hv : Placed p done (cur :: rest) tail) (hr : 0 ≤ r)
    (h : updateRetiredInstructions r p = .ok q) : ∃ done' rest' tail',
      Placed q done' (credited r cur :: rest') tail' ∧ ProcessIndex p.curProcess ∧
      Carries PbsTask.share p q [] := by
  obtain ⟨done', rest', tail', hv', hdone, hrest, hi, heq⟩ := hv.credit hr h
  refine ⟨done', rest', tail', hv', hi, .of_layouts hv.toLayout hv'.toLayout ?_ ?_ fun i => ?_⟩
  · rw [List.map_append, List.map_append, List.map_cons, List.map_cons, share_credited,
      map_of_view hdone fun _ => rfl, map_of_view hrest fun _ => rfl]
  · rw [map_processId_of_body hdone, List.append_nil]
  · rw [heq]
    dsimp only
    rw [view_updateProcess hi PbsProcess.sums]
    exact fun _ => rfl

theorem Placed.carries_passed (hv : Placed p done (cur :: rest) tail) :
    Carries PbsTask.share p (p.passed done cur rest tail) [cur.processId] := by
  refine .of_layouts hv.toLayout hv.passed.toLayout ?_ ?_ fun i => rfl
  · rw [List.map_append, map_startHead PbsTask.share fun _ => rfl]
    simp
  · rw [List.map_append]
    rfl

theorem Placed.carries_finish (hv : Placed p done (cur :: rest) tail)
    (h : (bookFinishedTask surplus p >>= advanceCurTask) = .ok q) :
    Placed q (done ++ [cur]) (rest.modifyHead start) (startTail rest tail) ∧
      Carries PbsTask.share p q [cur.processId] := by
  obtain ⟨hi, rfl⟩ := finishTask_eq_ok hv h
  have hbooked : Carries PbsTask.share p (p.booked surplus cur) [] := by
    refine ⟨List.Perm.refl _, (List.append_nil _).symm, fun i => ?_⟩
    unfold PbsPlan.booked
    dsimp only
    rw [view_updateProcess hi PbsProcess.sums, view_updateProcess hi PbsProcess.sums]
    · exact fun _ => rfl
    · exact fun _ => rfl
  exact ⟨(hv.booked surplus).passed, hbooked.trans (hv.booked surplus).carries_passed⟩

theorem Placed.carries_skip (hv : Placed p done todo tail) (h : skipFreeSlot b p = .ok q) :
    ∃ passed done' todo' tail', Placed q done' todo' tail' ∧ (∀ i ∈ passed, i = -1) ∧
      Carries PbsTask.share p q passed := by
  rcases skipFreeSlot_eq_ok hv.toLayout h with ⟨_, rfl⟩ | ⟨cur, rest, first, rfl, hfree, _, hq⟩
  · exact ⟨[], done, todo, tail, hv, by simp, .of_same rfl rfl rfl⟩
  · have hpid : ∀ i ∈ [cur.processId], i = -1 := by
      simp [(hv.free cur (by simp)).1 hfree]
    by_cases hneg : -first.instructionsPlanned < 0
    · rw [updateRetiredInstructions_neg hneg] at hq
      obtain rfl := Except.ok.inj hq
      exact ⟨_, _, _, _, hv.passed.of_same rfl rfl rfl rfl, hpid,
        hv.carries_passed.trans (.of_same rfl rfl rfl)⟩
    · have hvp := hv.passed
      obtain ⟨c, more, heq⟩ := hvp.retire_todo (Int.not_lt.1 hneg) hq
      rw [heq] at hvp
      obtain ⟨done', rest', tail', hv', _, hcredit⟩ := hvp.carries_credit (Int.not_lt.1 hneg) hq
      exact ⟨_, done', _, tail', hv', hpid, hv.carries_passed.trans hcredit⟩

theorem Placed.carries_preempt (hv : Placed p done (cur :: rest) tail)
    (hleft : 0 ≤ cur.instructionsReal - cur.instructionsRetiredTask)
    (h : preemptCurTask b p = .ok q) :
    ∃ done' todo' tail', Placed q done' todo' tail' ∧ Carries PbsTask.share p q [] := by
  rcases preemptCurTask_eq_ok hv.toLayout h with
    ⟨blk, n, ns, f, post, hcut, _, rfl⟩ | ⟨_, q₁, hq₁, rfl⟩
  · refine ⟨_, _, _, hv.rotated hcut, .of_layouts hv.toLayout (hv.rotated hcut).toLayout ?_
      (List.append_nil _).symm fun i => rfl⟩
    have hperm := (hcut.view_perm f.taskId (v := PbsTask.share) (fun _ => rfl) (fun _ => rfl)
      (fun _ => rfl)).append_left (done.map PbsTask.share)
    rwa [← List.map_append, ← List.map_append] at hperm
  · have hbumped : Carries PbsTask.share p (p.bumped done cur (rest ++ tail)) [] := by
      refine .of_layouts hv.toLayout hv.bumped.toLayout ?_ (List.append_nil _).symm fun i => rfl
      rw [List.map_append, List.map_append]
      exact List.Perm.refl _
    obtain ⟨done', rest', tail', hv', _, hcredit⟩ := hv.bumped.carries_credit hleft hq₁
    exact ⟨done', _, tail', hv'.of_same rfl rfl rfl rfl,
      (hbumped.trans hcredit).trans (.of_same rfl rfl rfl)⟩

end Carries

/-! ## A tick -/

/-- The plan in which the signal of a tick, if it raises one, leaves the credited plan `p`. -/
inductive LeavesSignal (b : Build) (r : Int) (s : System) (p : PbsPlan) (s₂ : System) : Prop
  | silent (hpoint : signalPoint b r s = .ok none) (hs : s₂ = { s with plan := p })
  | t2 (hpoint : signalPoint b r s = .ok (some (.t2, p)))
      (hs : signalT2 b { s with plan := p } = .ok s₂)
  | tm2 (hpoint : signalPoint b r s = .ok (some (.tm2, p)))
      (hs : signalTm2 b { s with plan := p } = .ok s₂)

/-- The stages of a tick before the terminator: the credit that leads to `p`, with `cur` current,
the signal that leads to `s₂`, and the moves of the list. -/
structure Stages (b : Build) (r : Int) (s : System) (p : PbsPlan) (cur : PbsTask)
    (s₂ s' : System) : Prop where
  index : ProcessIndex s.plan.curProcess
  retired : updateRetiredInstructions r s.plan = .ok p
  credit : Carries PbsTask.share s.plan p []
  signal : LeavesSignal b r s p s₂
  move : ∃ passed, Carries PbsTask.share s₂.plan s'.plan passed ∧
    ∀ i, i ≠ -1 → passed.count i = if cur.state = .finished ∧ cur.processId = i then 1 else 0

section Stages

variable {p : PbsPlan} {done rest tail : List PbsTask} {cur c₀ : PbsTask} {r : Int} {b : Build}
  {s s₂ s' : System}

theorem leavesSignal_finished (hc₀ : s.plan.readCurTask = .ok c₀) (hlive : c₀.taskId ≠ -2)
    (hcredit : updateRetiredInstructions r s.plan = .ok p) (hcur : p.readCurTask = .ok cur)
    (hstate : cur.state = .finished) (hsignal : signalIfTm2 b { s with plan := p } = .ok s₂) :
    LeavesSignal b r s p s₂ := by
  obtain ⟨raised, hraised, hsignal⟩ := bind_eq_ok.1 hsignal
  have hpoint : signalPoint b r s = if raised then .ok (some (.tm2, p)) else .ok none := by
    rw [signalPoint, hc₀, ok_bind, if_neg hlive, hcredit, ok_bind, hcur, ok_bind, if_pos hstate,
      show raisesTm2 b p = .ok raised from hraised, ok_bind]
    rfl
  cases raised with
  | true => exact .tm2 hpoint hsignal
  | false => exact .silent hpoint (Except.ok.inj hsignal).symm

theorem leavesSignal_running (hc₀ : s.plan.readCurTask = .ok c₀) (hlive : c₀.taskId ≠ -2)
    (hcredit : updateRetiredInstructions r s.plan = .ok p) (hcur : p.readCurTask = .ok cur)
    (hstate : cur.state ≠ .finished) (hsignal : signalIfT2 b { s with plan := p } = .ok s₂) :
    LeavesSignal b r s p s₂ := by
  obtain ⟨raised, hraised, hsignal⟩ := bind_eq_ok.1 hsignal
  have hpoint : signalPoint b r s = if raised then .ok (some (.t2, p)) else .ok none := by
    rw [signalPoint, hc₀, ok_bind, if_neg hlive, hcredit, ok_bind, hcur, ok_bind, if_neg hstate,
      show raisesT2 b p = .ok raised from hraised, ok_bind]
    rfl
  cases raised with
  | true => exact .t2 hpoint hsignal
  | false => exact .silent hpoint (Except.ok.inj hsignal).symm

theorem count_skipped {passed : List Int} (hpassed : ∀ i ∈ passed, i = -1) {i : Int}
    (hi : i ≠ -1) : passed.count i = 0 :=
  List.count_eq_zero.2 fun hmem => hi (hpassed i hmem)

theorem Placed.moves_finished {surplus : Int} {p₃ p₄ : PbsPlan}
    (hv : Placed p done (cur :: rest) tail)
    (hbook : (bookFinishedTask surplus p >>= advanceCurTask) = .ok p₃)
    (hskip : skipFreeSlot b p₃ = .ok p₄) :
    ∃ done' todo' tail' passed, Placed p₄ done' todo' tail' ∧ Carries PbsTask.share p p₄ passed ∧
      ∀ i, i ≠ -1 → passed.count i = if cur.processId = i then 1 else 0 := by
  obtain ⟨hv₃, hcarries₃⟩ := hv.carries_finish hbook
  obtain ⟨passed, done', todo', tail', hv₄, hpassed, hcarries₄⟩ := hv₃.carries_skip hskip
  refine ⟨done', todo', tail', _, hv₄, hcarries₃.trans hcarries₄, fun i hne => ?_⟩
  rw [List.singleton_append, List.count_cons, count_skipped hpassed hne]
  simp

theorem Placed.moves_preempted {p₃ p₄ : PbsPlan} (hv : Placed p done (cur :: rest) tail)
    (hleft : 0 ≤ cur.instructionsReal - cur.instructionsRetiredTask)
    (hpreempt : preemptCurTask b p = .ok p₃) (hskip : skipFreeSlot b p₃ = .ok p₄) :
    ∃ done' todo' tail' passed, Placed p₄ done' todo' tail' ∧ Carries PbsTask.share p p₄ passed ∧
      ∀ i, i ≠ -1 → passed.count i = 0 := by
  obtain ⟨done₃, todo₃, tail₃, hv₃, hcarries₃⟩ := hv.carries_preempt hleft hpreempt
  obtain ⟨passed, done', todo', tail', hv₄, hpassed, hcarries₄⟩ := hv₃.carries_skip hskip
  exact ⟨done', todo', tail', passed, hv₄, hcarries₃.trans hcarries₄,
    fun _ hne => count_skipped hpassed hne⟩

theorem Placed.stages (hv : Placed s.plan done (cur :: rest) tail) (hr : 0 ≤ r)
    (htick : pbsRunTimerTick b r s = .ok s') :
    ∃ p done₁ rest₁ tail₁ s₂ done' todo' tail', Placed p done₁ (credited r cur :: rest₁) tail₁ ∧
      Placed s'.plan done' todo' tail' ∧ Stages b r s p (credited r cur) s₂ s' := by
  have hc₀ := hv.readCurTask
  have hlive := (hv.live cur (by simp)).1
  cases PbsLevel2.tick_cases htick with
  | ended c hc hend =>
      obtain rfl := Except.ok.inj (hc₀.symm.trans hc)
      exact absurd hend hlive
  | finished p₁ c s₂ p₃ p₄ _ hcredit hc hstate hsignal hbook hskip hs =>
      obtain ⟨done₁, rest₁, tail₁, hv₁, hi, hcarries₁⟩ := hv.carries_credit hr hcredit
      obtain rfl := Except.ok.inj (hc.symm.trans hv₁.readCurTask)
      obtain ⟨cur₂, rest₂, hv₂, hcur₂, _⟩ :=
        hv₁.signal (s := { s with plan := p₁ }) (signalIfTm2_eq_ok hsignal)
      obtain ⟨done', todo', tail', passed, hv₄, hcarries₄, hpassed⟩ :=
        hv₂.moves_finished hbook hskip
      have hend : Carries PbsTask.share p₄ s'.plan [] :=
        .of_same (by rw [hs]) (by rw [hs]) (by rw [hs])
      refine ⟨p₁, done₁, rest₁, tail₁, s₂, done', todo', tail', hv₁, ?_, hi, hcredit, hcarries₁,
        leavesSignal_finished hc₀ hlive hcredit hc hstate hsignal, _, hcarries₄.trans hend,
        fun i hne => ?_⟩
      · rw [hs]
        exact hv₄.of_same rfl rfl rfl rfl
      · rw [List.append_nil, hpassed i hne, job_processId (job_of_core hcur₂)]
        simp [hstate]
  | preempted p₁ c s₂ p₃ p₄ _ hcredit hc hstate hsignal ht1 hpreempt hskip hs =>
      obtain ⟨done₁, rest₁, tail₁, hv₁, hi, hcarries₁⟩ := hv.carries_credit hr hcredit
      obtain rfl := Except.ok.inj (hc.symm.trans hv₁.readCurTask)
      obtain ⟨cur₂, rest₂, hv₂, hcur₂, _⟩ :=
        hv₁.signal (s := { s with plan := p₁ }) (signalIfT2_eq_ok hsignal)
      have hleft : 0 ≤ cur₂.instructionsReal - cur₂.instructionsRetiredTask := by
        have hcredited := credited_state hstate
        rw [← real_of_core hcur₂, ← retiredTask_of_core hcur₂] at hcredited
        omega
      obtain ⟨done', todo', tail', passed, hv₄, hcarries₄, hpassed⟩ :=
        hv₂.moves_preempted hleft hpreempt hskip
      have hend : Carries PbsTask.share p₄ s'.plan [] :=
        .of_same (by rw [hs]) (by rw [hs]) (by rw [hs])
      refine ⟨p₁, done₁, rest₁, tail₁, s₂, done', todo', tail', hv₁, ?_, hi, hcredit, hcarries₁,
        leavesSignal_running hc₀ hlive hcredit hc hstate hsignal, _, hcarries₄.trans hend,
        fun i hne => ?_⟩
      · rw [hs]
        exact hv₄.of_same rfl rfl rfl rfl
      · rw [List.append_nil, hpassed i hne]
        simp [hstate]
  | waited p₁ c s₂ _ hcredit hc hstate hsignal ht1 hs =>
      obtain ⟨done₁, rest₁, tail₁, hv₁, hi, hcarries₁⟩ := hv.carries_credit hr hcredit
      obtain rfl := Except.ok.inj (hc.symm.trans hv₁.readCurTask)
      obtain ⟨cur₂, rest₂, hv₂, _⟩ :=
        hv₁.signal (s := { s with plan := p₁ }) (signalIfT2_eq_ok hsignal)
      rw [relieveStress_eq] at hs
      refine ⟨p₁, done₁, rest₁, tail₁, s₂, done₁, cur₂ :: rest₂, tail₁, hv₁, ?_, hi, hcredit, hcarries₁,
        leavesSignal_running hc₀ hlive hcredit hc hstate hsignal, [],
        .of_same (by rw [hs]) (by rw [hs]) (by rw [hs]), fun i hne => ?_⟩
      · rw [hs]
        exact hv₂.of_same rfl rfl rfl rfl
      · simp [hstate]

end Stages

/-! ## The signal of a tick -/

def factorOf (signal : Check) : Int :=
  if signal = .t2 then stretchConstant else shrinkConstant

def targetOf (signal : Check) (p : PbsPlan) : Int :=
  if signal = .t2 then (processAt p.processes p.curProcess).processId else 0

section Signal

variable {p : PbsPlan} {done todo rest tail : List PbsTask} {cur : PbsTask} {r : Int} {b : Build}
  {s s₂ s' t : System}

theorem Placed.sums_rescheduled (hi : ProcessIndex p.curProcess) (factor pid : Int) (i : Int) :
    (processAt (p.rescheduled done todo tail factor pid).processes i).sums =
      (processAt p.processes i).sums := by
  unfold PbsPlan.rescheduled
  dsimp only
  rw [view_updateProcess hi PbsProcess.sums]
  exact fun _ => rfl

theorem LeavesSignal.rescaled (h : LeavesSignal b r s p s₂) (hv : Placed p done todo tail) :
    (signalPoint b r s = .ok none ∧ s₂.plan = p) ∨
    ∃ signal, signalPoint b r s = .ok (some (signal, p)) ∧
      Placed s₂.plan done (todo.map (rescale (factorOf signal) (targetOf signal p))) tail ∧
      ∀ i, (processAt s₂.plan.processes i).sums = (processAt p.processes i).sums := by
  cases h with
  | silent hpoint hs => exact .inl ⟨hpoint, by rw [hs]⟩
  | t2 hpoint hs =>
      obtain ⟨hi, heq, _⟩ := signalT2_eq_ok (s := { s with plan := p }) hv.toLayout hs
      refine .inr ⟨.t2, hpoint, ?_, fun i => ?_⟩
      · rw [heq]
        exact (hv.stressed _).rescheduled _ _
      · rw [heq]
        exact Placed.sums_rescheduled (p := { p with stress := stressReset }) hi _ _ i
  | tm2 hpoint hs =>
      obtain ⟨hi, heq, _⟩ := signalTm2_eq_ok (s := { s with plan := p }) hv.toLayout hs
      refine .inr ⟨.tm2, hpoint, ?_, fun i => ?_⟩
      · rw [heq]
        exact (hv.stressed _).rescheduled _ _
      · rw [heq]
        exact Placed.sums_rescheduled (p := { p with stress := stressReset }) hi _ _ i

theorem map_processId_rescale (factor pid : Int) (l : List PbsTask) :
    (l.map (rescale factor pid)).map PbsTask.processId = l.map PbsTask.processId := by
  rw [List.map_map]
  exact List.map_congr_left fun t _ => job_processId (job_rescale factor pid t)

theorem LeavesSignal.carries (h : LeavesSignal b r s p s₂) (hv : Placed p done todo tail) :
    Carries PbsTask.processId p s₂.plan [] := by
  rcases h.rescaled hv with ⟨_, heq⟩ | ⟨signal, _, hv₂, hsums⟩
  · rw [heq]
    exact .of_same rfl rfl rfl
  · refine .of_layouts hv.toLayout hv₂.toLayout ?_ (List.append_nil _).symm hsums
    rw [List.map_append, map_processId_rescale, ← List.map_append]

/-- Along a run `P` holds up to tick `k` if and only if `C` holds of every tick before: it holds
at the start, a tick before the terminator passes it on exactly under `C`, and one at the
terminator satisfies `C`. -/
theorem placed_run_iff {P : PbsPlan → Prop} {C : Int → System → Prop}
    (hstep : ∀ {r s s' done cur rest tail}, Placed s.plan done (cur :: rest) tail → 0 ≤ r →
      pbsRunTimerTick b r s = .ok s' → P s.plan → (P s'.plan ↔ C r s))
    (hended : ∀ {r s done tail}, Placed s.plan done [] tail → C r s) {text : List Char}
    {pmu : Nat → Int} {k : Nat} (hparse : parsePlan text zeroedPlan = .ok s.plan)
    (hformatted : Formatted s.plan) (hpmu : ∀ k, 0 ≤ pmu k) (ht : runTicks b pmu s k = .ok t)
    (hstart : P s.plan) :
    (∀ j ≤ k, ∀ u, runTicks b pmu s j = .ok u → P u.plan) ↔
      ∀ j < k, ∀ u, runTicks b pmu s j = .ok u → C (pmu j) u := by
  have hparsed := parsePlan_parsed hparse
  refine run_forall_iff (P := fun _ u => P u.plan) (C := fun j u => C (pmu j) u) ht hstart
    fun j hj u v hu htick hbefore => ?_
  have hfirst := hparsed.firstReal_of_run hformatted hpmu (show 0 < k by omega) ht
  obtain ⟨done, todo, tail, hplaced, _⟩ :=
    hparsed.standing_run hformatted (hparsed.first hformatted hfirst) hpmu hu
  cases todo with
  | nil =>
      rw [hplaced.tick_ended htick]
      exact iff_of_true hbefore (hended hplaced)
  | cons cur rest => exact hstep hplaced (hpmu j) htick hbefore

end Signal

/-! ## The tasks that are left -/

/-- `num_tasks_remaining` of each process is the number of its tasks at or behind the current one,
so that it is 0 exactly if all of them were passed. -/
def RemainingFit (p : PbsPlan) : Prop :=
  ∀ i, ProcessIndex i →
    (processAt p.processes i).numTasksRemaining = (p.todoTasks.map PbsTask.processId).count i ∧
    ((processAt p.processes i).numTasksRemaining = 0 ↔ ∀ t ∈ p.todoTasks, t.processId ≠ i)

/-- The tick from `s` finishes its current task, which is no free slot. -/
def FinishesTask (r : Int) (s : System) : Prop :=
  ∃ cur ∈ s.plan.todoTasks.head?, cur.taskId ≠ -1 ∧ FinishedBy r cur

instance (r : Int) (s : System) : Decidable (FinishesTask r s) :=
  inferInstanceAs (Decidable (∃ cur ∈ s.plan.todoTasks.head?, cur.taskId ≠ -1 ∧
    (pbsUpdateRetiredInstructionsTask r cur).state = .finished))

section Remaining

variable {p q : PbsPlan} {done todo rest tail done' todo' tail' : List PbsTask} {cur : PbsTask}
  {passed : List Int} {r : Int} {b : Build} {s s' : System}

theorem remainingFit_iff_count : RemainingFit p ↔ ∀ i, ProcessIndex i →
    (processAt p.processes i).numTasksRemaining = (p.todoTasks.map PbsTask.processId).count i := by
  refine forall₂_congr fun i _ => and_iff_left_of_imp fun h => ?_
  rw [h, Int.natCast_eq_zero, List.count_eq_zero]
  simp

theorem processTotal_one (i : Int) (l : List PbsTask) :
    processTotal (fun _ => 1) i l = (l.map PbsTask.processId).count i := by
  induction l with
  | nil => rfl
  | cons t l ih =>
      rw [processTotal, total_cons, List.map_cons, List.count_cons]
      rw [processTotal] at ih
      rw [ih]
      by_cases h : t.processId = i
      · simp [h, Int.add_comm]
      · simp [h]

theorem Parsed.remainingFit (hp : Parsed p) (hf : Formatted p) : RemainingFit p := by
  refine remainingFit_iff_count.2 fun i hi => ?_
  rw [(hp.layout hf).todoTasks_eq, ← processTotal_one]
  exact hp.remaining i hi

theorem Carries.count_todo (h : Carries PbsTask.processId p q passed)
    (hl : Layout p done todo tail) (hl' : Layout q done' todo' tail') (i : Int) :
    (todo'.map PbsTask.processId).count i + passed.count i =
      (todo.map PbsTask.processId).count i := by
  have hlive := h.live.count_eq i
  have hdone := congrArg (List.count i) h.done
  rw [hl.liveTasks_eq, hl'.liveTasks_eq, List.map_append, List.map_append, List.count_append,
    List.count_append] at hlive
  rw [hl.doneTasks_eq, hl'.doneTasks_eq, List.count_append] at hdone
  omega

theorem Placed.finishesTask_iff (hv : Placed s.plan done (cur :: rest) tail) :
    FinishesTask r s ↔ cur.taskId ≠ -1 ∧ FinishedBy r cur := by
  rw [FinishesTask, hv.toLayout.todoTasks_eq]
  simp

theorem Placed.remaining_tick (hv : Placed s.plan done (cur :: rest) tail) (hr : 0 ≤ r)
    (htick : pbsRunTimerTick b r s = .ok s') (hfit : RemainingFit s.plan) :
    RemainingFit s'.plan ↔ ¬ FinishesTask r s := by
  obtain ⟨p, done₁, rest₁, tail₁, s₂, done', todo', tail', hv₁, hv', hstages⟩ := hv.stages hr htick
  obtain ⟨passed, hmove, hcount⟩ := hstages.move
  have hcarries : Carries PbsTask.processId s.plan s'.plan passed :=
    hstages.credit.processIds.trans ((hstages.signal.carries hv₁).trans hmove.processIds)
  have hleft := hcarries.count_todo hv.toLayout hv'.toLayout
  have hpid : (credited r cur).processId = cur.processId := job_processId (job_credited r cur)
  have hafter : RemainingFit s'.plan ↔ ∀ i, ProcessIndex i → passed.count i = 0 := by
    rw [remainingFit_iff_count] at hfit ⊢
    refine forall₂_congr fun i hi => ?_
    have hbefore := hfit i hi
    have hsums := congrArg Prod.fst (hcarries.sums i)
    change (processAt s'.plan.processes i).numTasksRemaining =
      (processAt s.plan.processes i).numTasksRemaining at hsums
    rw [hsums, hbefore, hv.toLayout.todoTasks_eq, hv'.toLayout.todoTasks_eq, ← hleft i]
    omega
  rw [hafter, hv.finishesTask_iff, FinishedBy, ← state_credited]
  constructor
  · rintro hnone ⟨hreal, hfinished⟩
    have hprocess := hv.process cur hv.readCurTask
    rw [processOf, if_pos hreal] at hprocess
    have hi : ProcessIndex cur.processId := hprocess ▸ hstages.index
    have hzero := hnone cur.processId hi
    rw [hcount cur.processId fun h => hreal ((hv.free cur (by simp)).2 h),
      if_pos ⟨hfinished, hpid⟩] at hzero
    cases hzero
  · intro hno i hi
    have hne : i ≠ -1 := by
      have := hi.1
      omega
    rw [hcount i hne, if_neg]
    rintro ⟨hfinished, rfl⟩
    refine hno ⟨fun hfree => hne ?_, hfinished⟩
    rw [hpid]
    exact (hv.free cur (by simp)).1 hfree

end Remaining

/-- Up to every tick of a run the counts of the tasks that are left fit if and only if no tick so
far finished a task. -/
theorem remainingFit_iff {text : List Char} {b : Build} {pmu : Nat → Int} {s t : System} {k : Nat}
    (hparse : parsePlan text zeroedPlan = .ok s.plan) (hformatted : Formatted s.plan)
    (hpmu : ∀ k, 0 ≤ pmu k) (ht : runTicks b pmu s k = .ok t) :
    (∀ j ≤ k, ∀ u, runTicks b pmu s j = .ok u → RemainingFit u.plan) ↔
      ∀ j < k, ∀ u, runTicks b pmu s j = .ok u → ¬ FinishesTask (pmu j) u := by
  apply placed_run_iff (P := RemainingFit) (C := fun r u => ¬ FinishesTask r u) ?_ ?_ hparse
    hformatted hpmu ht ((parsePlan_parsed hparse).remainingFit hformatted)
  · intro r s s' done cur rest tail hv hr htick hfit
    exact hv.remaining_tick hr htick hfit
  · rintro r s done tail hv ⟨cur, hcur, _⟩
    rw [hv.toLayout.todoTasks_eq] at hcur
    cases hcur

set_option maxRecDepth 4000 in
/-- Task 0 is preempted and moves behind task 1: all three tasks are still left. -/
theorem remainingFit_iff_moved :
    ∃ p t, parsePlan "2;0,0;1,0;;;0,0,2,90000000;1,1,2,2;0,2,2,2;".toList zeroedPlan = .ok p ∧
      runTicks .userland everyTick ⟨p, zeroedSignals⟩ 4 = .ok t ∧
      t.plan.todoTasks.map PbsTask.taskId = [1, 0, 2] ∧ RemainingFit t.plan := by
  obtain ⟨p, t, hp, ht, hcheck⟩ :=
    @of_onRun .userland "2;0,0;1,0;;;0,0,2,90000000;1,1,2,2;0,2,2,2;".toList everyTick 4
      (fun p t => decide (Formatted p ∧ t.plan.todoTasks.map PbsTask.taskId = [1, 0, 2]) &&
        allTicks (fun r u => decide (¬ FinishesTask r u)) .userland everyTick ⟨p, zeroedSignals⟩ 4)
      (by decide +kernel)
  simp only [Bool.and_eq_true, decide_eq_true_eq] at hcheck
  obtain ⟨⟨hformatted, htodo⟩, hticks⟩ := hcheck
  exact ⟨p, t, hp, ht, htodo, (remainingFit_iff (s := ⟨p, zeroedSignals⟩) hp hformatted
    everyTick_nonneg ht).2 (fun j hj u hu => of_decide_eq_true (of_allTicks hticks hj hu)) 4
    (Nat.le_refl 4) t ht⟩

set_option maxRecDepth 4000 in
/-- When both tasks have finished, their process still counts two tasks that are left. -/
theorem remainingFit_stale :
    ∃ p t, parsePlan "1;0,0;;;0,0,10,10;0,1,10,10;".toList zeroedPlan = .ok p ∧ Formatted p ∧
      runTicks .userland everyTick ⟨p, zeroedSignals⟩ 2 = .ok t ∧ t.plan.todoTasks = [] ∧
      (processAt t.plan.processes 0).numTasksRemaining = 2 ∧ ¬ RemainingFit t.plan := by
  obtain ⟨p, t, hp, ht, hcheck⟩ :=
    @of_onRun .userland "1;0,0;;;0,0,10,10;0,1,10,10;".toList everyTick 2
      (fun p t => decide (Formatted p ∧ t.plan.todoTasks = [] ∧
        (processAt t.plan.processes 0).numTasksRemaining = 2)) (by decide +kernel)
  obtain ⟨hformatted, htodo, hremaining⟩ := of_decide_eq_true hcheck
  refine ⟨p, t, hp, hformatted, ht, htodo, hremaining, fun hfit => ?_⟩
  obtain ⟨hcount, _⟩ := hfit 0 (by decide)
  rw [htodo, hremaining] at hcount
  cases hcount

/-! ## The planned lengths -/

def rescaledLength (factor : Int) (t : PbsTask) : Int :=
  (t.instructionsPlanned * factor).tdiv 100

/-- `instructions_planned` of the plan is the length computed from its tasks, and `length_plan` of
each process the sum over its tasks. -/
def LengthsFit (p : PbsPlan) : Prop :=
  calculateLengthPlan p = .ok p.instructionsPlanned ∧ ∀ i, ProcessIndex i →
    (processAt p.processes i).lengthPlan = processTotal PbsTask.instructionsPlanned i p.liveTasks

/-- The tasks of process `pid` at or behind the current one are together as long rescaled as they
are now. -/
def RescalesEvenly (factor pid : Int) (p : PbsPlan) : Prop :=
  processTotal (rescaledLength factor) pid p.todoTasks =
    processTotal PbsTask.instructionsPlanned pid p.todoTasks

instance (factor pid : Int) (p : PbsPlan) : Decidable (RescalesEvenly factor pid p) :=
  inferInstanceAs (Decidable (_ = _))

/-- If the tick from `s` raises a signal, the tasks that are rescaled stay as long in total. -/
def KeepsLengths (b : Build) (r : Int) (s : System) : Prop :=
  ∀ signal p, signalPoint b r s = .ok (some (signal, p)) →
    RescalesEvenly (factorOf signal) (targetOf signal p) p

section Lengths

variable {p q : PbsPlan} {done todo rest tail done' todo' tail' : List PbsTask} {cur : PbsTask}
  {passed : List Int} {r : Int} {b : Build} {s s' : System}

theorem stretchesEvenly_iff {pid : Int} (hplanned : ∀ t ∈ p.todoTasks, 0 ≤ t.instructionsPlanned) :
    RescalesEvenly stretchConstant pid p ↔
      ∀ t ∈ p.todoTasks, t.processId = pid → t.instructionsPlanned < 20 := by
  have hle : ∀ t ∈ p.todoTasks, t.instructionsPlanned ≤ rescaledLength stretchConstant t := by
    intro t ht
    have hnonneg := hplanned t ht
    rw [rescaledLength, stretchConstant, Int.tdiv_eq_ediv_of_nonneg (by omega)]
    omega
  rw [RescalesEvenly, eq_comm, processTotal, processTotal, total_eq_total_iff_of_le hle]
  refine forall₂_congr fun t ht => imp_congr_right fun _ => ?_
  have hnonneg := hplanned t ht
  rw [eq_comm, rescaledLength, stretch_eq_self]
  omega

theorem shrinksEvenly_iff {pid : Int} (hplanned : ∀ t ∈ p.todoTasks, 0 ≤ t.instructionsPlanned) :
    RescalesEvenly shrinkConstant pid p ↔
      ∀ t ∈ p.todoTasks, t.processId = pid → t.instructionsPlanned = 0 := by
  have hle : ∀ t ∈ p.todoTasks, rescaledLength shrinkConstant t ≤ t.instructionsPlanned := by
    intro t ht
    have hnonneg := hplanned t ht
    rw [rescaledLength, shrinkConstant, Int.tdiv_eq_ediv_of_nonneg (by omega)]
    omega
  rw [RescalesEvenly, processTotal, processTotal, total_eq_total_iff_of_le hle]
  refine forall₂_congr fun t _ => imp_congr_right fun _ => ?_
  rw [rescaledLength, shrink_eq_self]

theorem planned_rescale (factor pid : Int) (t : PbsTask) :
    (rescale factor pid t).instructionsPlanned =
      if t.processId = pid then rescaledLength factor t else t.instructionsPlanned := by
  rw [rescale]
  split <;> rfl

theorem sum_rescale (factor pid : Int) (l : List PbsTask) :
    ((l.map (rescale factor pid)).map PbsTask.instructionsPlanned).sum +
        processTotal PbsTask.instructionsPlanned pid l =
      (l.map PbsTask.instructionsPlanned).sum + processTotal (rescaledLength factor) pid l := by
  induction l with
  | nil => rfl
  | cons t l ih =>
      simp only [List.map_cons, List.sum_cons, processTotal, total_cons, planned_rescale] at ih ⊢
      split <;> omega

theorem processTotal_rescale (factor pid i : Int) (l : List PbsTask) :
    processTotal PbsTask.instructionsPlanned i (l.map (rescale factor pid)) =
      if i = pid then processTotal (rescaledLength factor) pid l
      else processTotal PbsTask.instructionsPlanned i l := by
  induction l with
  | nil => simp
  | cons t l ih =>
      have hpid : (rescale factor pid t).processId = t.processId := job_processId (job_rescale _ _ t)
      simp only [processTotal] at ih ⊢
      rw [List.map_cons, total_cons, hpid, planned_rescale, ih, total_cons, total_cons]
      by_cases hi : i = pid
      · rw [if_pos hi, if_pos hi, ← hi]
        by_cases ht : t.processId = i
        · rw [if_pos ht, if_pos ht, if_pos ht]
        · rw [if_neg ht, if_neg ht]
      · rw [if_neg hi, if_neg hi]
        by_cases ht : t.processId = i
        · rw [if_pos ht, if_neg (by omega), if_pos ht]
        · rw [if_neg ht, if_neg ht]

theorem Layout.calculateLengthPlan_eq (hl : Layout p done todo tail) :
    calculateLengthPlan p = .ok (p.liveTasks.map PbsTask.instructionsPlanned).sum := by
  obtain ⟨t, rest, rfl, hid, _⟩ := id hl.terminates
  have hlive : ∀ u ∈ done ++ todo, decide (u.taskId ≠ -2) = true := fun u hu => by
    simpa using (hl.live u hu).1
  rw [calculateLengthPlan, hl.tasks, ← List.append_assoc, lengthFrom_terminated _ hid,
    List.takeWhile_eq_self_iff.2 hlive, hl.liveTasks_eq]

theorem Layout.lengthsFit_sums (hl : Layout p done todo tail) : LengthsFit p ↔
    (p.liveTasks.map PbsTask.instructionsPlanned).sum = p.instructionsPlanned ∧
      ∀ i, ProcessIndex i → (processAt p.processes i).lengthPlan =
        processTotal PbsTask.instructionsPlanned i p.liveTasks := by
  rw [LengthsFit, hl.calculateLengthPlan_eq, Except.ok.injEq]

theorem Parsed.lengthsFit (hp : Parsed p) (hf : Formatted p) : LengthsFit p := by
  refine ⟨hp.instructionsPlanned, fun i hi => ?_⟩
  rw [(hp.layout hf).liveTasks_eq]
  exact (hp.processes i).2.2 hi

theorem Carries.lengthsFit_congr (h : Carries PbsTask.share p q passed) (hl : Layout p done todo tail)
    (hl' : Layout q done' todo' tail') (hheader : q.header = p.header) :
    LengthsFit q ↔ LengthsFit p := by
  have hplanned : q.instructionsPlanned = p.instructionsPlanned := congrArg (·.2.2) hheader
  have hsum : (q.liveTasks.map PbsTask.instructionsPlanned).sum =
      (p.liveTasks.map PbsTask.instructionsPlanned).sum := by
    have hperm := (h.live.map Prod.snd).sum_eq
    rwa [List.map_map, List.map_map] at hperm
  have htotal : ∀ i, processTotal PbsTask.instructionsPlanned i q.liveTasks =
      processTotal PbsTask.instructionsPlanned i p.liveTasks := by
    intro i
    have hperm : total Prod.fst Prod.snd i (q.liveTasks.map PbsTask.share) =
        total Prod.fst Prod.snd i (p.liveTasks.map PbsTask.share) := total_perm h.live
    rwa [total_map, total_map] at hperm
  have hlength : ∀ i, (processAt q.processes i).lengthPlan = (processAt p.processes i).lengthPlan :=
    fun i => congrArg Prod.snd (h.sums i)
  rw [hl.lengthsFit_sums, hl'.lengthsFit_sums, hsum, hplanned]
  simp only [htotal, hlength]

theorem Placed.lengthsFit_rescaled {factor pid : Int} (hv : Placed p done todo tail)
    (hv' : Placed q done (todo.map (rescale factor pid)) tail)
    (hsums : ∀ i, (processAt q.processes i).sums = (processAt p.processes i).sums)
    (hheader : q.header = p.header) (hfit : LengthsFit p) :
    LengthsFit q ↔ RescalesEvenly factor pid p := by
  have hplanned : q.instructionsPlanned = p.instructionsPlanned := congrArg (·.2.2) hheader
  have hlength : ∀ i, (processAt q.processes i).lengthPlan = (processAt p.processes i).lengthPlan :=
    fun i => congrArg Prod.snd (hsums i)
  have hsum := sum_rescale factor pid todo
  rw [hv.toLayout.lengthsFit_sums, hv.toLayout.liveTasks_eq, List.map_append, List.sum_append] at hfit
  rw [hv'.toLayout.lengthsFit_sums, hv'.toLayout.liveTasks_eq, List.map_append, List.sum_append,
    hplanned, RescalesEvenly, hv.toLayout.todoTasks_eq]
  obtain ⟨hplan, hprocesses⟩ := hfit
  constructor
  · rintro ⟨heven, _⟩
    omega
  · intro heven
    refine ⟨by omega, fun i hi => ?_⟩
    have hbefore := hprocesses i hi
    have hrescaled : processTotal PbsTask.instructionsPlanned i (todo.map (rescale factor pid)) =
        processTotal PbsTask.instructionsPlanned i todo := by
      rw [processTotal_rescale]
      split <;> rename_i htarget
      · rw [htarget, heven]
      · rfl
    calc
      (processAt q.processes i).lengthPlan = (processAt p.processes i).lengthPlan := hlength i
      _ = processTotal PbsTask.instructionsPlanned i done +
            processTotal PbsTask.instructionsPlanned i todo := hbefore.trans (total_append _ _)
      _ = processTotal PbsTask.instructionsPlanned i (done ++ todo.map (rescale factor pid)) := by
            rw [← hrescaled]
            exact (total_append _ _).symm

theorem LeavesSignal.signalled {s₂ : System} (h : LeavesSignal b r s p s₂) :
    Signalled b { s with plan := p } s₂ := by
  cases h with
  | silent _ hs => exact .inl hs
  | t2 _ hs => exact .inr (.inl hs)
  | tm2 _ hs => exact .inr (.inr hs)

theorem Placed.lengths_tick (hv : Placed s.plan done (cur :: rest) tail) (hr : 0 ≤ r)
    (htick : pbsRunTimerTick b r s = .ok s') (hfit : LengthsFit s.plan) :
    LengthsFit s'.plan ↔ KeepsLengths b r s := by
  obtain ⟨p, done₁, rest₁, tail₁, s₂, done', todo', tail', hv₁, hv', hstages⟩ := hv.stages hr htick
  obtain ⟨passed, hmove, _⟩ := hstages.move
  have hheader₁ : p.header = s.plan.header :=
    header_of_settings (keepsSettings_updateRetiredInstructions _ _ _ hstages.retired)
  have hheader₂ : s₂.plan.header = p.header := header_signalled hstages.signal.signalled
  have hheader' : s'.plan.header = s₂.plan.header :=
    (header_tick htick).trans (hheader₂.trans hheader₁).symm
  have hfit₁ := (hstages.credit.lengthsFit_congr hv.toLayout hv₁.toLayout hheader₁).2 hfit
  rcases hstages.signal.rescaled hv₁ with ⟨hpoint, heq⟩ | ⟨signal, hpoint, hv₂, hsums⟩
  · rw [heq] at hmove hheader'
    refine iff_of_true ((hmove.lengthsFit_congr hv₁.toLayout hv'.toLayout hheader').2 hfit₁) ?_
    intro signal q hq
    cases hpoint.symm.trans hq
  · rw [hmove.lengthsFit_congr hv₂.toLayout hv'.toLayout hheader',
      hv₁.lengthsFit_rescaled hv₂ hsums hheader₂ hfit₁]
    constructor
    · intro heven signal' q hq
      cases hpoint.symm.trans hq
      exact heven
    · intro hkeeps
      exact hkeeps signal p hpoint

end Lengths

/-- Up to every tick of a run the planned lengths fit if and only if every signal so far was raised
when the tasks it rescales stayed as long in total. -/
theorem lengthsFit_iff {text : List Char} {b : Build} {pmu : Nat → Int} {s t : System} {k : Nat}
    (hparse : parsePlan text zeroedPlan = .ok s.plan) (hformatted : Formatted s.plan)
    (hpmu : ∀ k, 0 ≤ pmu k) (ht : runTicks b pmu s k = .ok t) :
    (∀ j ≤ k, ∀ u, runTicks b pmu s j = .ok u → LengthsFit u.plan) ↔
      ∀ j < k, ∀ u, runTicks b pmu s j = .ok u → KeepsLengths b (pmu j) u := by
  apply placed_run_iff (P := LengthsFit) (C := KeepsLengths b) ?_ ?_ hparse hformatted hpmu ht
    ((parsePlan_parsed hparse).lengthsFit hformatted)
  · intro r s s' done cur rest tail hv hr htick hfit
    exact hv.lengths_tick hr htick hfit
  · intro r s done tail hv signal p hpoint
    obtain ⟨cur, hcur, hend⟩ := hv.toLayout.ended
    rw [signalPoint, hcur, ok_bind, if_pos hend] at hpoint
    cases hpoint

/-- Checks the plan in which a tick raises a signal, if it raises one. -/
def atSignal (check : Check → PbsPlan → Bool) (b : Build) (r : Int) (t : System) : Bool :=
  match signalPoint b r t with
  | .ok (some (signal, p)) => check signal p
  | _ => true

theorem keepsLengths_of_atSignal {b : Build} {r : Int} {t : System}
    (h : atSignal (fun signal p => decide (RescalesEvenly (factorOf signal) (targetOf signal p) p))
      b r t = true) : KeepsLengths b r t := by
  intro signal p hpoint
  rw [atSignal, hpoint] at h
  exact of_decide_eq_true h

set_option maxRecDepth 4000 in
/-- Task 0 leaves its process 10 seconds late.  T2 stretches task 1, which is too short to become
any longer. -/
theorem lengthsFit_iff_short :
    ∃ p t, parsePlan "1;0,0;;;0,0,2,10000000000;0,1,19,1000;".toList zeroedPlan = .ok p ∧
      runTicks .userland (fun k => if k = 0 then 10000000000 else 1) ⟨p, zeroedSignals⟩ 2 = .ok t ∧
      t.signals.predictionFailuresCaused = 1 ∧ LengthsFit t.plan := by
  obtain ⟨p, t, hp, ht, hcheck⟩ :=
    @of_onRun .userland "1;0,0;;;0,0,2,10000000000;0,1,19,1000;".toList
      (fun k => if k = 0 then 10000000000 else 1) 2
      (fun p t => decide (Formatted p ∧ t.signals.predictionFailuresCaused = 1) &&
        allTicks (atSignal (fun signal q =>
            decide (RescalesEvenly (factorOf signal) (targetOf signal q) q)) .userland)
          .userland (fun k => if k = 0 then 10000000000 else 1) ⟨p, zeroedSignals⟩ 2)
      (by decide +kernel)
  simp only [Bool.and_eq_true, decide_eq_true_eq] at hcheck
  obtain ⟨⟨hformatted, hsignals⟩, hticks⟩ := hcheck
  exact ⟨p, t, hp, ht, hsignals, (lengthsFit_iff (s := ⟨p, zeroedSignals⟩) hp hformatted
    (fun k => by split <;> omega) ht).2
      (fun j hj u hu => keepsLengths_of_atSignal (of_allTicks hticks hj hu)) 2 (Nat.le_refl 2) t ht⟩

set_option maxRecDepth 4000 in
/-- Task 0 finishes far too early.  Tm2 shrinks both tasks of the process, and neither the length of
the plan nor that of the process follows. -/
theorem lengthsFit_shrunk :
    ∃ p t, parsePlan "1;0,0;;;0,0,1000000000,1;0,1,4,4;".toList zeroedPlan = .ok p ∧ Formatted p ∧
      runTicks .userland everyTick ⟨p, zeroedSignals⟩ 1 = .ok t ∧
      t.plan.instructionsPlanned = 1000000004 ∧
      (processAt t.plan.processes 0).lengthPlan = 1000000004 ∧
      t.plan.liveTasks.map PbsTask.instructionsPlanned = [950000000, 3] ∧
      ¬ LengthsFit t.plan := by
  obtain ⟨p, t, hp, ht, hcheck⟩ :=
    @of_onRun .userland "1;0,0;;;0,0,1000000000,1;0,1,4,4;".toList everyTick 1
      (fun p t => decide (Formatted p ∧ t.plan.instructionsPlanned = 1000000004 ∧
        (processAt t.plan.processes 0).lengthPlan = 1000000004 ∧
        t.plan.liveTasks.map PbsTask.instructionsPlanned = [950000000, 3] ∧
        processTotal PbsTask.instructionsPlanned 0 t.plan.liveTasks = 950000003)) (by decide +kernel)
  obtain ⟨hformatted, hplanned, hlength, hlive, htotal⟩ := of_decide_eq_true hcheck
  refine ⟨p, t, hp, hformatted, ht, hplanned, hlength, hlive, fun hfit => ?_⟩
  have hprocess := hfit.2 0 (by decide)
  omega

end PbsLevel2
