import PbsLevel2.Proofs.Runs

/-!
# The reach of a signal

Which tasks a rescheduling signal stretches or shrinks.  T2 is aimed at the process the
table holds at `cur_process`, Tm2 at process 0 whatever the current task is.
-/

namespace PbsLevel2

open Lib

/-! ## The states of the tasks ahead -/

/-- Only the current task can be finished, and a finished task executed its real length. -/
structure Unfinished (p : PbsPlan) : Prop where
  executed : ∀ t ∈ p.todoTasks, t.state = .finished → t.instructionsReal ≤ t.instructionsRetiredTask
  behind : ∀ t ∈ p.todoTasks.tail, t.state ≠ .finished

/-- What decides whether a task is finished. -/
def PbsTask.progress (t : PbsTask) : Int × Int × TaskState :=
  (t.instructionsReal, t.instructionsRetiredTask, t.state)

theorem progress_of_body {t u : PbsTask} (h : t.body = u.body) : t.progress = u.progress :=
  show t.body.progress = u.body.progress by rw [h]

theorem state_of_progress {t u : PbsTask} (h : t.progress = u.progress) : t.state = u.state :=
  congrArg (fun x => x.2.2) h

section Unfinished

variable {p q : PbsPlan} {done todo tail done' todo' tail' rest : List PbsTask} {cur : PbsTask}
  {r : Int}

theorem Unfinished.of_layout (hl : Layout p done todo tail)
    (hexecuted : ∀ t ∈ todo, t.state = .finished → t.instructionsReal ≤ t.instructionsRetiredTask)
    (hbehind : ∀ t ∈ todo.tail, t.state ≠ .finished) : Unfinished p := by
  constructor
  · rw [hl.todoTasks_eq]
    exact hexecuted
  · rw [hl.todoTasks_eq]
    exact hbehind

theorem Unfinished.ahead (h : Unfinished p) (hl : Layout p done todo tail) :
    (∀ t ∈ todo, t.state = .finished → t.instructionsReal ≤ t.instructionsRetiredTask) ∧
      ∀ t ∈ todo.tail, t.state ≠ .finished := by
  obtain ⟨hexecuted, hbehind⟩ := h
  rw [hl.todoTasks_eq] at hexecuted hbehind
  exact ⟨hexecuted, hbehind⟩

theorem Unfinished.of_map (h : Unfinished p) (hl : Layout p done todo tail)
    (hl' : Layout q done' todo' tail')
    (hmap : todo'.map PbsTask.progress = todo.map PbsTask.progress) : Unfinished q := by
  obtain ⟨hexecuted, hbehind⟩ := h.ahead hl
  refine .of_layout hl' (fun t ht hstate => ?_) fun t ht hstate => ?_
  · obtain ⟨u, hu, hprogress⟩ := mem_of_map_eq hmap ht
    simp only [PbsTask.progress, Prod.mk.injEq] at hprogress
    have hle := hexecuted u hu (hprogress.2.2.trans hstate)
    omega
  · have htail : todo'.tail.map PbsTask.progress = todo.tail.map PbsTask.progress := by
      rw [List.map_tail, List.map_tail, hmap]
    obtain ⟨u, hu, hprogress⟩ := mem_of_map_eq htail ht
    exact hbehind u hu ((state_of_progress hprogress).trans hstate)

theorem Unfinished.of_passed (h : Unfinished p) (hl : Layout p done (cur :: rest) tail)
    (hl' : Layout q done' (rest.modifyHead start) tail') : Unfinished q := by
  obtain ⟨hexecuted, hbehind⟩ := h.ahead hl
  cases rest with
  | nil => exact .of_layout hl' (by simp) (by simp)
  | cons n rest =>
      refine .of_layout hl' (fun t ht hstate => ?_) fun t ht => hbehind t (by simp_all)
      rcases List.mem_cons.1 ht with rfl | ht
      · cases hstate
      · exact hexecuted t (by simp [ht]) hstate

theorem upheld_unfinished : Upheld Unfinished where
  congr := by
    intro p q hsame h
    have htodo : q.todoTasks = p.todoTasks := by
      rw [PbsPlan.todoTasks, PbsPlan.todoTasks, hsame.tasks, hsame.indexCurTask]
    exact ⟨htodo ▸ h.executed, htodo ▸ h.behind⟩
  credit := by
    intro p q done rest tail cur r hv hr hq h
    obtain ⟨done', rest', tail', hv', hd, hrest, _⟩ := hv.credit hr hq
    obtain ⟨hexecuted, hbehind⟩ := h.ahead hv.toLayout
    refine .of_layout hv'.toLayout (fun t ht hstate => ?_) fun t ht hstate => ?_
    · rcases List.mem_cons.1 ht with rfl | ht
      · exact credited_finished hstate (hexecuted cur (by simp)) hr
      · obtain ⟨u, hu, hbody⟩ := mem_of_map_eq hrest ht
        exact absurd ((state_of_progress (progress_of_body hbody)).trans hstate) (hbehind u hu)
    · obtain ⟨u, hu, hbody⟩ := mem_of_map_eq hrest ht
      exact hbehind u hu ((state_of_progress (progress_of_body hbody)).trans hstate)
  signal := by
    intro p done todo tail factor pid hv _ h
    refine h.of_map hv.toLayout (hv.rescheduled factor pid).toLayout ?_
    rw [List.map_map]
    refine List.map_congr_left fun t _ => ?_
    change (rescale factor pid t).progress = t.progress
    rw [rescale]
    split <;> rfl
  finish := fun hv _ h => h.of_passed hv.toLayout (hv.booked _).passed.toLayout
  skip := fun hv h => h.of_passed hv.toLayout hv.passed.toLayout
  bump := fun hv h => h.of_map hv.toLayout hv.bumped.toLayout rfl
  rotate := by
    intro p done todo tail blk ns post cur n f hv hrun hc h
    obtain ⟨hexecuted, hbehind⟩ := h.ahead hv.toLayout
    rw [hc.todo_eq] at hexecuted hbehind
    have hnone : ∀ t ∈ cur :: (blk ++ (n :: ns ++ f :: post)), t.state ≠ .finished := by
      intro t ht hstate
      rcases List.mem_cons.1 ht with rfl | ht
      · have hle := hexecuted t (by simp) hstate
        omega
      · exact hbehind t ht hstate
    have hnone' : ∀ t ∈ changeTaskState n .running :: ns ++
        ((bump cur :: blk).map (hosted f.taskId) ++ f :: post), t.state ≠ .finished := by
      intro t ht
      simp only [List.cons_append, List.mem_cons, List.mem_append, List.mem_map] at ht hnone
      rcases ht with rfl | ht | ⟨u, hu, rfl⟩ | rfl | ht
      · simp [changeTaskState]
      · exact hnone t (by simp [ht])
      · rcases hu with rfl | hu
        · exact hnone cur (by simp)
        · exact hnone u (by simp [hu])
      · exact hnone t (by simp)
      · exact hnone t (by simp [ht])
    exact .of_layout (hv.rotated hc).toLayout (fun t ht hstate => absurd hstate (hnone' t ht))
      fun t ht => hnone' t (List.mem_of_mem_tail ht)

theorem kept_unfinished : Kept (fun _ => True) Unfinished :=
  upheld_unfinished.kept

theorem Parsed.unfinished (hp : Parsed p) (hf : Formatted p) : Unfinished p := by
  refine .of_layout (hp.layout hf) (fun u hu hstate => ?_) fun u hu hstate => ?_
  · rw [(hp.fresh u hu).state] at hstate
    cases hstate
  · rw [(hp.fresh u (List.mem_of_mem_tail hu)).state] at hstate
    cases hstate

/-! ## The ids of the process table -/

theorem upheld_processIds (ids : Int → Int) :
    Upheld fun p => ∀ i, (processAt p.processes i).processId = ids i :=
  upheld_process PbsProcess.processId (fun _ _ => rfl) (fun _ _ => rfl) (fun _ => rfl) ids

end Unfinished

/-! ## The point of a signal -/

/-- The signal a tick raises and the plan it raises it on. -/
def signalPoint (b : Build) (r : Int) (s : System) : Exec (Option (Check × PbsPlan)) := do
  let cur ← s.plan.readCurTask
  if cur.taskId = -2 then return none
  else
    let p ← updateRetiredInstructions r s.plan
    let cur ← p.readCurTask
    if cur.state = .finished then
      if ← raisesTm2 b p then return some (.tm2, p) else return none
    else if ← raisesT2 b p then return some (.t2, p)
    else return none

/-- From `p` to `p'` the planned lengths of exactly the unfinished tasks of process `pid` at or
behind the current one were rescaled, and that of no free slot. -/
def RescalesOnly (pid stretchFactor : Int) (p p' : PbsPlan) : Prop :=
  p'.doneTasks.map PbsTask.instructionsPlanned = p.doneTasks.map PbsTask.instructionsPlanned ∧
  p'.todoTasks.map PbsTask.instructionsPlanned = p.todoTasks.map fun t =>
    if t.processId = pid ∧ t.taskId ≠ -1 ∧ t.state ≠ .finished then
      (t.instructionsPlanned * stretchFactor).tdiv 100
    else t.instructionsPlanned

instance (pid stretchFactor : Int) (p p' : PbsPlan) :
    Decidable (RescalesOnly pid stretchFactor p p') :=
  inferInstanceAs (Decidable (_ ∧ _))

/-- The entry `entry` of the process table is that of the current task, which is no free slot, or
nothing of either is long enough to be stretched. -/
def T2Fits (entry : Int) (cur : PbsTask) (p : PbsPlan) : Prop :=
  entry = cur.processId ∧ cur.taskId ≠ -1 ∨
  ∀ t ∈ p.todoTasks, t.processId = entry ∨ t.processId = cur.processId ∧ t.taskId ≠ -1 →
    -20 < t.instructionsPlanned ∧ t.instructionsPlanned < 20

/-- The finished task is an empty one of process 0, or one of another process with nothing to
shrink behind it: no task of process 0, none of its own. -/
def Tm2Fits (cur : PbsTask) (p : PbsPlan) : Prop :=
  if cur.processId = 0 then cur.instructionsPlanned = 0
  else ∀ t ∈ p.todoTasks.tail, t.processId = 0 ∨ t.processId = cur.processId ∧ t.taskId ≠ -1 →
    t.instructionsPlanned = 0

section Signal

variable {p p' : PbsPlan} {done todo tail rest : List PbsTask} {cur : PbsTask} {b : Build} {r : Int}
  {s s' : System} {target pid factor entry : Int}

theorem signalPoint_raises {signal : Check} (h : signalPoint b r s = .ok (some (signal, p))) :
    signal = .t2 ∨ signal = .tm2 := by
  obtain ⟨_, _, h⟩ := bind_eq_ok.1 h
  split at h
  · cases h
  · obtain ⟨_, _, h⟩ := bind_eq_ok.1 h
    obtain ⟨_, _, h⟩ := bind_eq_ok.1 h
    split at h
    · obtain ⟨raised, _, h⟩ := bind_eq_ok.1 h
      cases raised <;> cases h
      exact .inr rfl
    · obtain ⟨raised, _, h⟩ := bind_eq_ok.1 h
      cases raised <;> cases h
      exact .inl rfl

theorem signalPoint_eq_ok {signal : Check} (h : signalPoint b r s = .ok (some (signal, p))) :
    ∃ cur, updateRetiredInstructions r s.plan = .ok p ∧ p.readCurTask = .ok cur ∧
      (cur.state = .finished ↔ signal = .tm2) := by
  obtain ⟨_, _, h⟩ := bind_eq_ok.1 h
  split at h
  · cases h
  · obtain ⟨p₁, hcredit, h⟩ := bind_eq_ok.1 h
    obtain ⟨cur, hcur, h⟩ := bind_eq_ok.1 h
    split at h <;> rename_i hstate
    · obtain ⟨raised, _, h⟩ := bind_eq_ok.1 h
      cases raised <;> cases h
      exact ⟨cur, hcredit, hcur, iff_of_true hstate rfl⟩
    · obtain ⟨raised, _, h⟩ := bind_eq_ok.1 h
      cases raised <;> cases h
      exact ⟨cur, hcredit, hcur, iff_of_false hstate (by decide)⟩

theorem rescalesOnly_iff (hl : Layout p done todo tail)
    (hl' : Layout p' done (todo.map (rescale factor target)) tail) :
    RescalesOnly pid factor p p' ↔ ∀ t ∈ todo,
      (t.processId = target ↔ t.processId = pid ∧ t.taskId ≠ -1 ∧ t.state ≠ .finished) ∨
      (t.instructionsPlanned * factor).tdiv 100 = t.instructionsPlanned := by
  rw [RescalesOnly, hl.doneTasks_eq, hl.todoTasks_eq, hl'.doneTasks_eq, hl'.todoTasks_eq,
    List.map_map]
  refine (and_iff_right rfl).trans (List.map_inj_left.trans (forall₂_congr fun t _ => ?_))
  have hplanned : (rescale factor target t).instructionsPlanned =
      if t.processId = target then (t.instructionsPlanned * factor).tdiv 100
      else t.instructionsPlanned := by
    rw [rescale]
    split <;> rfl
  rw [Function.comp_apply, hplanned]
  by_cases htarget : t.processId = target
  · by_cases hpid : t.processId = pid ∧ t.taskId ≠ -1 ∧ t.state ≠ .finished
    · rw [if_pos htarget, if_pos hpid]
      exact iff_of_true rfl (.inl (iff_of_true htarget hpid))
    · rw [if_pos htarget, if_neg hpid, iff_true_left htarget, or_iff_right hpid]
  · by_cases hpid : t.processId = pid ∧ t.taskId ≠ -1 ∧ t.state ≠ .finished
    · rw [if_neg htarget, if_pos hpid, iff_false_left htarget, or_iff_right (not_not.2 hpid), eq_comm]
    · rw [if_neg htarget, if_neg hpid]
      exact iff_of_true rfl (.inl (iff_of_false htarget hpid))

theorem stretch_eq_self (n : Int) : (n * stretchConstant).tdiv 100 = n ↔ -20 < n ∧ n < 20 := by
  rw [stretchConstant]
  rcases Int.le_total 0 n with hn | hn
  · rw [Int.tdiv_eq_ediv_of_nonneg (by omega)]
    omega
  · rw [← Int.neg_neg n, Int.neg_mul, Int.neg_tdiv, Int.tdiv_eq_ediv_of_nonneg (by omega)]
    omega

theorem shrink_eq_self (n : Int) : (n * shrinkConstant).tdiv 100 = n ↔ n = 0 := by
  rw [shrinkConstant]
  rcases Int.le_total 0 n with hn | hn
  · rw [Int.tdiv_eq_ediv_of_nonneg (by omega)]
    omega
  · rw [← Int.neg_neg n, Int.neg_mul, Int.neg_tdiv, Int.tdiv_eq_ediv_of_nonneg (by omega)]
    omega

theorem stretches_iff (hv : Placed p done (cur :: rest) tail)
    (hl' : Layout p' done ((cur :: rest).map (rescale stretchConstant entry)) tail)
    (hstate : ∀ t ∈ cur :: rest, t.state ≠ .finished) :
    RescalesOnly cur.processId stretchConstant p p' ↔ T2Fits entry cur p := by
  have hfree : ∀ t ∈ cur :: rest, t.taskId = -1 ↔ t.processId = -1 :=
    fun t ht => hv.free t (List.mem_append_right _ ht)
  have hcur := hfree cur (by simp)
  rw [rescalesOnly_iff hv.toLayout hl', T2Fits, hv.toLayout.todoTasks_eq]
  by_cases hentry : entry = cur.processId ∧ cur.taskId ≠ -1
  · refine iff_of_true (fun t ht => .inl ?_) (.inl hentry)
    have htask := hfree t ht
    rw [hentry.1, and_iff_left (hstate t ht)]
    exact ⟨fun hpid => ⟨hpid, by omega⟩, And.left⟩
  · rw [or_iff_right hentry]
    refine forall₂_congr fun t ht => ?_
    have htask := hfree t ht
    rw [stretch_eq_self, and_iff_left (hstate t ht)]
    grind

theorem shrinks_iff (hv : Placed p done (cur :: rest) tail)
    (hl' : Layout p' done ((cur :: rest).map (rescale shrinkConstant 0)) tail)
    (hcur : cur.state = .finished) (hstate : ∀ t ∈ rest, t.state ≠ .finished) :
    RescalesOnly cur.processId shrinkConstant p p' ↔ Tm2Fits cur p := by
  have hfree : ∀ t ∈ rest, t.taskId = -1 ↔ t.processId = -1 :=
    fun t ht => hv.free t (List.mem_append_right _ (List.mem_cons_of_mem _ ht))
  rw [rescalesOnly_iff hv.toLayout hl', Tm2Fits, hv.toLayout.todoTasks_eq, List.forall_mem_cons,
    List.tail_cons]
  simp only [shrink_eq_self, hcur, ne_eq, not_true_eq_false, and_false, iff_false]
  split <;> rename_i hpid
  · refine (and_iff_left fun t ht => .inl ?_).trans (or_iff_right (not_not.2 hpid))
    have htask := hfree t ht
    rw [hpid, and_iff_left (hstate t ht)]
    exact ⟨fun hzero => ⟨hzero, by omega⟩, And.left⟩
  · refine (and_iff_right (.inl hpid)).trans (forall₂_congr fun t ht => ?_)
    rw [and_iff_left (hstate t ht)]
    grind

end Signal

/-! ## Signals in a run -/

/-- Whenever T2 is raised, exactly the unfinished tasks of the current process are stretched,
if and only if the header lists the process at its own index (or none of the tasks concerned
is long enough).  Whenever Tm2 is raised, exactly the unfinished tasks of the current process
are shrunk, if and only if there is nothing to shrink behind the finished task and, when that
is one of process 0, nothing to shrink in it.  `processOf cur` is the index of `cur_process`, which
is the process id unless a free slot runs: a signal for a free slot is to rescale nothing. -/
theorem signals_rescale_iff {text : List Char} {b : Build} {pmu : Nat → Int} {s t : System}
    {k : Nat} (hparse : parsePlan text zeroedPlan = .ok s.plan) (hformatted : Formatted s.plan)
    (hpmu : ∀ k, 0 ≤ pmu k) (ht : runTicks b pmu s k = .ok t) {p : PbsPlan} {cur : PbsTask}
    (hcur : p.readCurTask = .ok cur) :
    (signalPoint b (pmu k) t = .ok (some (.t2, p)) →
      ∀ s', signalT2 b { t with plan := p } = .ok s' →
        (RescalesOnly cur.processId stretchConstant p s'.plan ↔
          T2Fits (processAt s.plan.processes (processOf cur)).processId cur p)) ∧
    (signalPoint b (pmu k) t = .ok (some (.tm2, p)) →
      ∀ s', signalTm2 b { t with plan := p } = .ok s' →
        (RescalesOnly cur.processId shrinkConstant p s'.plan ↔ Tm2Fits cur p)) := by
  have hparsed := parsePlan_parsed hparse
  have hupheld := upheld_unfinished.and
    (upheld_processIds fun i => (processAt s.plan.processes i).processId)
  have hpoint : ∀ signal, signalPoint b (pmu k) t = .ok (some (signal, p)) →
      (cur.state = .finished ↔ signal = .tm2) ∧
      (∀ i, (processAt p.processes i).processId = (processAt s.plan.processes i).processId) ∧
      ∃ done rest tail, Placed p done (cur :: rest) tail ∧ ∀ u ∈ rest, u.state ≠ .finished := by
    intro signal hsignal
    obtain ⟨cur', hcredit, hcur', hstate⟩ := signalPoint_eq_ok hsignal
    obtain rfl := Except.ok.inj (hcur.symm.trans hcur')
    have hfirst := hparsed.firstReal_of_reached hformatted hpmu ht hcredit
    have hholds := hupheld.reached hparse hformatted hfirst hpmu
      ⟨hparsed.unfinished hformatted, fun _ => rfl⟩ ht
    obtain ⟨_, _, _, _, hun, hids⟩ := hupheld.creditAt hholds (hpmu k) hcredit
    obtain ⟨done, todo, tail, hv, _⟩ := hholds
    obtain ⟨c, rest, rfl⟩ := hv.retire_todo (hpmu k) hcredit
    obtain ⟨done₁, rest₁, tail₁, hv₁, _⟩ := hv.credit (hpmu k) hcredit
    obtain rfl := Except.ok.inj (hcur.symm.trans hv₁.readCurTask)
    exact ⟨hstate, hids, done₁, rest₁, tail₁, hv₁, (hun.ahead hv₁.toLayout).2⟩
  constructor
  · intro hsignal s' hs'
    obtain ⟨hstate, hids, done, rest, tail, hv, hrest⟩ := hpoint _ hsignal
    obtain ⟨_, heq, _⟩ := signalT2_eq_ok (s := { t with plan := p }) hv.toLayout hs'
    have hvr := (hv.stressed stressReset).rescheduled stretchConstant
      (processAt p.processes p.curProcess).processId
    have hentry : (processAt s.plan.processes (processOf cur)).processId =
        (processAt p.processes p.curProcess).processId := by rw [hv.process cur hcur, hids]
    rw [heq, hentry]
    refine stretches_iff hv hvr.toLayout fun u hu hfinished => ?_
    rcases List.mem_cons.1 hu with rfl | hu
    · cases hstate.1 hfinished
    · exact hrest u hu hfinished
  · intro hsignal s' hs'
    obtain ⟨hstate, _, done, rest, tail, hv, hrest⟩ := hpoint _ hsignal
    obtain ⟨_, heq, _⟩ := signalTm2_eq_ok (s := { t with plan := p }) hv.toLayout hs'
    rw [heq]
    exact shrinks_iff hv ((hv.stressed stressReset).rescheduled shrinkConstant 0).toLayout
      (hstate.2 rfl) hrest

/-- Evaluates a signal at the given plan. -/
def onSignal (b : Build) (r : Int) (t : System) (check : Check → PbsPlan → PbsPlan → Bool) : Bool :=
  match signalPoint b r t with
  | .ok (some (signal, p)) =>
      match (if signal = .t2 then signalT2 b { t with plan := p }
        else signalTm2 b { t with plan := p }) with
      | .ok s' => check signal p s'.plan
      | .error _ => false
  | _ => false

theorem of_onSignal {b : Build} {r : Int} {t : System} {check : Check → PbsPlan → PbsPlan → Bool}
    (h : onSignal b r t check = true) : ∃ signal p s', signalPoint b r t = .ok (some (signal, p)) ∧
      (if signal = .t2 then signalT2 b { t with plan := p }
        else signalTm2 b { t with plan := p }) = .ok s' ∧ check signal p s'.plan = true := by
  rw [onSignal] at h
  split at h
  · rename_i signal p hpoint
    split at h
    · rename_i s' hs'
      exact ⟨signal, p, s', hpoint, hs', h⟩
    · cases h
  · cases h

set_option maxRecDepth 4000 in
/-- Task 0 leaves its process 10 seconds late, and T2 stretches task 1. -/
theorem signals_rescale_stretched :
    ∃ p t q s', parsePlan "1;0,0;;;0,0,2,10000000000;0,1,1000,1000;".toList zeroedPlan = .ok p ∧
      runTicks .userland (fun k => if k = 0 then 10000000000 else 1) ⟨p, zeroedSignals⟩ 1 = .ok t ∧
      signalPoint .userland 1 t = .ok (some (.t2, q)) ∧
      signalT2 .userland { t with plan := q } = .ok s' ∧
      s'.plan.todoTasks.map PbsTask.instructionsPlanned = [1050] ∧
      RescalesOnly 0 stretchConstant q s'.plan := by
  obtain ⟨p, t, hp, ht, hcheck⟩ :=
    @of_onRun .userland "1;0,0;;;0,0,2,10000000000;0,1,1000,1000;".toList
      (fun k => if k = 0 then 10000000000 else 1) 1
      (fun p t => decide (Formatted p ∧ (processAt p.processes 0).processId = 0) &&
        onSignal .userland 1 t fun signal q q' => decide (signal = .t2 ∧
          q'.todoTasks.map PbsTask.instructionsPlanned = [1050]) &&
            onCurTask q fun c => decide (c.processId = 0 ∧ c.taskId ≠ -1)) (by decide +kernel)
  simp only [Bool.and_eq_true, decide_eq_true_eq] at hcheck
  obtain ⟨⟨hformatted, hentry⟩, hsignal⟩ := hcheck
  obtain ⟨signal, q, s', hpoint, hs', hsignal⟩ := of_onSignal hsignal
  simp only [Bool.and_eq_true, decide_eq_true_eq] at hsignal
  obtain ⟨⟨rfl, hplanned⟩, hcur⟩ := hsignal
  rw [if_pos rfl] at hs'
  obtain ⟨cur, hread, hcur⟩ := of_onCurTask hcur
  obtain ⟨hpid, hreal⟩ := of_decide_eq_true hcur
  refine ⟨p, t, q, s', hp, ht, hpoint, hs', hplanned, ?_⟩
  have hfits : T2Fits (processAt p.processes (processOf cur)).processId cur q :=
    .inl ⟨by rw [processOf, if_pos hreal, hpid, hentry], hreal⟩
  have hrescales := ((signals_rescale_iff (s := ⟨p, zeroedSignals⟩) hp hformatted
    (fun k => by split <;> omega) ht hread).1 hpoint s' hs').2 hfits
  rwa [hpid] at hrescales

set_option maxRecDepth 4000 in
/-- A task of process 1 finishes far too early.  Tm2 shrinks the task of process 0 and leaves
the other task of process 1 alone. -/
theorem signals_misdirected :
    ∃ p q s', parsePlan "2;0,0;1,0;;;1,0,1000000000,1;1,1,1000,1000;0,2,1000,1000;".toList
        zeroedPlan = .ok p ∧ Admissible p ∧ DistinctIds p ∧
      signalPoint .userland (everyTick 0) ⟨p, zeroedSignals⟩ = .ok (some (.tm2, q)) ∧
      signalTm2 .userland ⟨q, zeroedSignals⟩ = .ok s' ∧
      q.todoTasks.map (fun t => (t.processId, t.instructionsPlanned)) =
        [(1, 1000000000), (1, 1000), (0, 1000)] ∧
      s'.plan.todoTasks.map (fun t => (t.processId, t.instructionsPlanned)) =
        [(1, 1000000000), (1, 1000), (0, 950)] ∧
      ¬ RescalesOnly 1 shrinkConstant q s'.plan := by
  obtain ⟨p, t, hp, ht, hcheck⟩ :=
    @of_onRun .userland "2;0,0;1,0;;;1,0,1000000000,1;1,1,1000,1000;0,2,1000,1000;".toList
      everyTick 0
      (fun p t => decide (Admissible p ∧ DistinctIds p) &&
        onSignal .userland (everyTick 0) t fun signal q q' => decide (signal = .tm2 ∧
          q.todoTasks.map (fun t => (t.processId, t.instructionsPlanned)) =
            [(1, 1000000000), (1, 1000), (0, 1000)] ∧
          q'.todoTasks.map (fun t => (t.processId, t.instructionsPlanned)) =
            [(1, 1000000000), (1, 1000), (0, 950)] ∧
          ¬ RescalesOnly 1 shrinkConstant q q')) (by decide +kernel)
  simp only [Bool.and_eq_true, decide_eq_true_eq] at hcheck
  obtain ⟨⟨hadmissible, hdistinct⟩, hsignal⟩ := hcheck
  obtain rfl := Except.ok.inj ht
  obtain ⟨signal, q, s', hpoint, hs', hsignal⟩ := of_onSignal hsignal
  simp only [decide_eq_true_eq] at hsignal
  obtain ⟨rfl, hbefore, hafter, hwrong⟩ := hsignal
  exact ⟨p, q, s', hp, hadmissible, hdistinct, hpoint, hs', hbefore, hafter, hwrong⟩

end PbsLevel2
