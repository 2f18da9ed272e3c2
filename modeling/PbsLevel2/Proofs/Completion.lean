import Mathlib.Algebra.Order.Floor.Div
import PbsLevel2.Proofs.Signals
import PbsLevel2.Proofs.Totality

/-!
# Completion

A run of the kernel build in which no preemption reads beyond the task array comes to the
terminator, after as many ticks as the real lengths of the tasks allow for, and has executed
every task exactly once.
-/

namespace PbsLevel2

open Lib

/-! ## The tasks that were passed -/

/-- A finished task executed its real length. -/
def Executed (t : PbsTask) : Prop :=
  t.state = .finished ∧ t.instructionsReal ≤ t.instructionsRetiredTask

/-- The tasks that were passed are executed, and `tasks_finished` counts them. -/
structure Delivered (p : PbsPlan) : Prop where
  executed : ∀ t ∈ p.doneTasks, t.taskId ≠ -1 → Executed t
  counted : p.tasksFinished = (realIds p.doneTasks).length

section Delivered

variable {p q : PbsPlan} {done todo tail done' todo' tail' rest : List PbsTask} {cur : PbsTask}
  {r : Int}

theorem Delivered.of_layout (hl : Layout p done todo tail)
    (hexecuted : ∀ t ∈ done, t.taskId ≠ -1 → Executed t)
    (hcounted : p.tasksFinished = (realIds done).length) : Delivered p := by
  constructor <;> rw [hl.doneTasks_eq] <;> assumption

theorem Delivered.behind (h : Delivered p) (hl : Layout p done todo tail) :
    (∀ t ∈ done, t.taskId ≠ -1 → Executed t) ∧ p.tasksFinished = (realIds done).length := by
  obtain ⟨hexecuted, hcounted⟩ := h
  rw [hl.doneTasks_eq] at hexecuted hcounted
  exact ⟨hexecuted, hcounted⟩

theorem Delivered.of_body (h : Delivered p) (hl : Layout p done todo tail)
    (hl' : Layout q done' todo' tail') (hd : done'.map PbsTask.body = done.map PbsTask.body)
    (hcount : q.tasksFinished = p.tasksFinished) : Delivered q := by
  obtain ⟨hexecuted, hcounted⟩ := h.behind hl
  refine .of_layout hl' (fun t ht hreal => ?_) ?_
  · obtain ⟨u, hu, hbody⟩ := mem_of_map_eq hd ht
    have hprogress := progress_of_body hbody
    simp only [PbsTask.progress, Prod.mk.injEq] at hprogress
    rw [← job_taskId (job_of_body hbody)] at hreal
    obtain ⟨hstate, hle⟩ := hexecuted u hu hreal
    exact ⟨hprogress.2.2 ▸ hstate, by omega⟩
  · have hids := realIds_of_jobs (.of_eq (map_job_of_body hd))
    rw [hcount, hcounted, hids.length_eq]

theorem kept_delivered : Kept Executed Delivered where
  congr := by
    intro p q hsame h
    have hdone : q.doneTasks = p.doneTasks := by
      rw [PbsPlan.doneTasks, PbsPlan.doneTasks, hsame.tasks, hsame.indexCurTask]
    refine ⟨hdone ▸ h.executed, ?_⟩
    rw [hsame.tasksFinished, hdone]
    exact h.counted
  credit := by
    intro p q done rest tail cur r hv hcur hr hq h
    obtain ⟨done', rest', tail', hv', hd, hrest, _, heq⟩ := hv.credit hr hq
    exact h.of_body hv.toLayout hv'.toLayout hd (by rw [heq])
  signal := fun hv _ h => h.of_body hv.toLayout (hv.rescheduled _ _).toLayout rfl rfl
  finish := by
    intro p done rest tail cur hv hcur _ hF h
    obtain ⟨hexecuted, hcounted⟩ := h.behind hv.toLayout
    refine .of_layout (hv.booked _).passed.toLayout (fun t ht hreal => ?_) ?_
    · rcases List.mem_append.1 ht with ht | ht
      · exact hexecuted t ht hreal
      · obtain rfl := List.mem_singleton.1 ht
        exact hF
    · change p.tasksFinished + 1 = _
      simp [hcounted, realIds, hcur]
  skip := by
    intro p done rest tail cur hv hfree h
    obtain ⟨hexecuted, hcounted⟩ := h.behind hv.toLayout
    refine .of_layout hv.passed.toLayout (fun t ht hreal => ?_) ?_
    · rcases List.mem_append.1 ht with ht | ht
      · exact hexecuted t ht hreal
      · obtain rfl := List.mem_singleton.1 ht
        exact absurd hfree hreal
    · change p.tasksFinished = _
      simp [hcounted, realIds, hfree]
  bump := fun hv _ h => h.of_body hv.toLayout hv.bumped.toLayout rfl rfl
  rotate := fun hv hcur _ hc h => h.of_body hv.toLayout (hv.rotated hcur hc).toLayout rfl rfl

end Delivered

/-! ## The calls that are left -/

/-- The calls of the tick that the rest of a task takes: one for each started quantum of
instructions, and one to finish. -/
def callsLeft (t : PbsTask) : Nat :=
  if t.taskId = -1 then 0
  else (t.instructionsReal - t.instructionsRetiredTask).toNat ⌈/⌉ insPerTick.toNat + 1

def PbsPlan.callsLeft (p : PbsPlan) : Nat :=
  (p.todoTasks.map PbsLevel2.callsLeft).sum

section CallsLeft

variable {p q : PbsPlan} {done todo tail done' todo' tail' rest : List PbsTask} {cur t : PbsTask}
  {r : Int} {s s' : System} {a : Agenda Job} {b : Build}

theorem ceilDiv_insPerTick (n : Nat) :
    n ⌈/⌉ insPerTick.toNat = (n + insPerTick.toNat - 1) / insPerTick.toNat :=
  Nat.ceilDiv_eq_add_pred_div n _

theorem callsLeft_real (h : t.taskId ≠ -1) : callsLeft t =
    (t.instructionsReal - t.instructionsRetiredTask).toNat ⌈/⌉ insPerTick.toNat + 1 :=
  if_neg h

theorem callsLeft_congr {u : PbsTask} (hjob : t.job = u.job)
    (hretired : t.instructionsRetiredTask = u.instructionsRetiredTask) :
    callsLeft t = callsLeft u := by
  have hreal : t.instructionsReal = u.instructionsReal := congrArg Job.instructionsReal hjob
  rw [callsLeft, callsLeft, job_taskId hjob, hreal, hretired]

theorem callsLeft_credited (cur : PbsTask) (hr : 0 ≤ r) :
    callsLeft (credited r cur) ≤ callsLeft cur := by
  by_cases hfree : cur.taskId = -1
  · have hfree' : (credited r cur).taskId = -1 := (frame_taskId (frame_credited r cur)).trans hfree
    rw [callsLeft, callsLeft, if_pos hfree, if_pos hfree']
  · have hreal : (credited r cur).taskId ≠ -1 := by rwa [frame_taskId (frame_credited r cur)]
    rw [callsLeft_real hfree, callsLeft_real hreal, instructionsReal_credited, retiredTask_credited,
      ceilDiv_insPerTick, ceilDiv_insPerTick]
    have hle : (cur.instructionsReal - (cur.instructionsRetiredTask + r)).toNat ≤
        (cur.instructionsReal - cur.instructionsRetiredTask).toNat := by omega
    have hdiv := @Nat.div_le_div_right _ _ insPerTick.toNat
      (show _ + insPerTick.toNat - 1 ≤ _ + insPerTick.toNat - 1 by
        exact Nat.sub_le_sub_right (Nat.add_le_add_right hle _) 1)
    omega

theorem callsLeft_credited_lt (hcur : cur.taskId ≠ -1)
    (hrun : (credited insPerTick cur).instructionsRetiredTask <
      (credited insPerTick cur).instructionsReal) :
    callsLeft (credited insPerTick cur) < callsLeft cur := by
  have hreal : (credited insPerTick cur).taskId ≠ -1 := by
    rwa [frame_taskId (frame_credited insPerTick cur)]
  rw [callsLeft_real hcur, callsLeft_real hreal]
  rw [instructionsReal_credited, retiredTask_credited] at hrun ⊢
  have hquantum : insPerTick.toNat = 10000000 := rfl
  have hsame : insPerTick = 10000000 := rfl
  rw [ceilDiv_insPerTick, ceilDiv_insPerTick, hquantum]
  omega

theorem Layout.callsLeft_eq (hl : Layout p done todo tail) :
    p.callsLeft = (todo.map PbsLevel2.callsLeft).sum := by
  rw [PbsPlan.callsLeft, hl.todoTasks_eq]

theorem Layout.callsLeft_passed (hl : Layout p done (cur :: rest) tail)
    (hl' : Layout q done' (rest.modifyHead start) tail') :
    p.callsLeft = PbsLevel2.callsLeft cur + q.callsLeft := by
  have hhead := map_startHead PbsLevel2.callsLeft (fun _ => rfl) rest
  rw [hl.callsLeft_eq, hl'.callsLeft_eq, hhead, List.map_cons, List.sum_cons]

theorem map_callsLeft_of_body {l m : List PbsTask} (h : l.map PbsTask.body = m.map PbsTask.body) :
    l.map callsLeft = m.map callsLeft :=
  map_of_view h fun _ => rfl

theorem Layout.callsLeft_credit (hl : Layout p done (cur :: rest) tail) {rest' : List PbsTask}
    (hl' : Layout q done' (credited r cur :: rest') tail')
    (hrest : rest'.map PbsTask.body = rest.map PbsTask.body) :
    q.callsLeft + PbsLevel2.callsLeft cur = p.callsLeft + PbsLevel2.callsLeft (credited r cur) := by
  rw [hl.callsLeft_eq, hl'.callsLeft_eq, List.map_cons, List.map_cons, List.sum_cons,
    List.sum_cons, map_callsLeft_of_body hrest]
  omega

theorem kept_callsLeft (m : Nat) : Kept (fun _ => True) fun p => p.callsLeft ≤ m where
  congr := by
    intro p q hsame h
    rwa [PbsPlan.callsLeft, PbsPlan.todoTasks, hsame.tasks, hsame.indexCurTask]
  credit := by
    intro p q done rest tail cur r hv hcur hr hq h
    obtain ⟨done', rest', tail', hv', hd, hrest, _⟩ := hv.credit hr hq
    have hsum := hv.toLayout.callsLeft_credit hv'.toLayout hrest
    have hle := callsLeft_credited cur hr
    omega
  signal := by
    intro p done todo tail factor pid hv _ h
    have hsame : ∀ t, callsLeft (rescale factor pid t) = callsLeft t := fun t =>
      callsLeft_congr (job_rescale factor pid t) (by rw [rescale]; split <;> rfl)
    rw [hv.toLayout.callsLeft_eq] at h
    rw [(hv.rescheduled factor pid).toLayout.callsLeft_eq, List.map_map]
    rwa [show callsLeft ∘ rescale factor pid = callsLeft from funext hsame]
  finish := by
    intro p done rest tail cur hv _ _ _ h
    have hvb := hv.booked (cur.instructionsRetiredSlot - cur.instructionsReal)
    have hsum := hvb.toLayout.callsLeft_passed hvb.passed.toLayout
    rw [show (p.booked _ cur).callsLeft = p.callsLeft from rfl] at hsum
    omega
  skip := by
    intro p done rest tail cur hv _ h
    have hsum := hv.toLayout.callsLeft_passed hv.passed.toLayout
    omega
  bump := by
    intro p done todo tail cur hv _ h
    rw [hv.toLayout.callsLeft_eq] at h
    rwa [hv.bumped.toLayout.callsLeft_eq]
  rotate := by
    intro p done todo tail blk ns post cur n f hv hcur _ hc h
    rw [hv.toLayout.callsLeft_eq, hc.todo_eq] at h
    rw [(hv.rotated hcur hc).toLayout.callsLeft_eq]
    have hmoved : ((bump cur :: blk).map (hosted f.taskId)).map PbsLevel2.callsLeft =
        (cur :: blk).map PbsLevel2.callsLeft := by
      rw [List.map_map]
      rfl
    rw [List.map_append, List.map_append, hmoved]
    simp only [List.map_append, List.map_cons, List.cons_append, List.sum_cons, List.sum_append,
      show callsLeft (changeTaskState n .running) = callsLeft n from rfl] at h ⊢
    omega

end CallsLeft

section Tick

variable {p q : PbsPlan} {done todo tail rest : List PbsTask} {cur : PbsTask} {r : Int}
  {s s' : System} {a : Agenda Job} {b : Build}

theorem At.of_true {K : PbsPlan → Prop} (h : At (fun _ => True) a p) (hK : K p) : At K a p := by
  obtain ⟨done, todo, tail, hv, ha, _⟩ := h
  exact ⟨done, todo, tail, hv, ha, hK⟩

theorem callsLeft_credit_lt (h : At (fun _ => True) a p) (hh : HeadReal p)
    (hq : updateRetiredInstructions insPerTick p = .ok q) (hcur : q.readCurTask = .ok cur)
    (hstate : cur.state ≠ .finished) : q.callsLeft < p.callsLeft := by
  have hr : 0 ≤ insPerTick := by decide
  obtain ⟨c, hc, hc', _⟩ := Kept.readCurTask_credit h hr hq
  obtain rfl := Except.ok.inj (hcur.symm.trans hc')
  obtain ⟨done, todo, tail, hv, _⟩ := h
  obtain ⟨c', rest, rfl⟩ := hv.retire_todo hr hq
  obtain rfl := Except.ok.inj (hc.symm.trans hv.readCurTask)
  obtain ⟨done', rest', tail', hv', hd, hrest, _⟩ := hv.credit hr hq
  have hsum := hv.toLayout.callsLeft_credit hv'.toLayout hrest
  have hlt := callsLeft_credited_lt (hh c hc) (credited_state hstate)
  omega

/-- As long as the terminator is not reached, every tick uses a call. -/
theorem callsLeft_tick (h : At (fun _ => True) a s.plan) (hh : HeadReal s.plan)
    (hlive : ∀ c, s.plan.readCurTask = .ok c → c.taskId ≠ -2)
    (htick : pbsRunTimerTick b insPerTick s = .ok s') : s'.plan.callsLeft < s.plan.callsLeft := by
  have hr : 0 ≤ insPerTick := by decide
  cases tick_cases htick with
  | ended cur hcur hend hs => exact absurd hend (hlive cur hcur)
  | finished p₁ cur s₂ p₃ p₄ _ hcredit hcur hstate hsignal hbook hskip hs =>
      have hk := kept_callsLeft s.plan.callsLeft
      obtain ⟨⟨_, _, _, _, _, hle⟩, hreal, _, planned, done, rest, tail, hv⟩ :=
        hk.signalled (h.of_true le_rfl) hh hr hcredit hcur (signalIfTm2_eq_ok hsignal)
      obtain ⟨_, rfl⟩ := finishTask_eq_ok hv.toPlaced hbook
      have hvb := hv.booked (cur.instructionsRetiredSlot - cur.instructionsReal)
      have hsum := hvb.toLayout.callsLeft_passed hvb.passed.toLayout
      rw [show (s₂.plan.booked _ _).callsLeft = s₂.plan.callsLeft from rfl,
        callsLeft_real (by exact hreal)] at hsum
      have hk' := kept_callsLeft (s.plan.callsLeft - 1)
      obtain ⟨_, h₄, _⟩ := hk'.skipAt (fun _ _ => True)
        ⟨_, _, _, hvb.passed, rfl, by omega⟩ hskip
      obtain ⟨_, _, _, _, _, hlt⟩ := h₄
      rw [hs]
      change p₄.callsLeft < _
      omega
  | preempted p₁ cur s₂ p₃ p₄ hlive hcredit hcur hstate hsignal ht1 hpreempt hskip hs =>
      have hlt := callsLeft_credit_lt h hh hcredit hcur hstate
      have hk := kept_callsLeft p₁.callsLeft
      obtain ⟨c, _, hc, hclive⟩ := Kept.readCurTask_credit h hr hcredit
      obtain rfl := Except.ok.inj (hcur.symm.trans hc)
      rw [← job_taskId (job_credited insPerTick c)] at hclive
      obtain ⟨h₁, hh₁⟩ := kept_true.creditAt h hh hr hcredit
      obtain ⟨h₂, hh₂, hcur₂⟩ := hk.signalAt (s := { s with plan := p₁ }) (h₁.of_true le_rfl)
        (signalIfT2_eq_ok hsignal)
      obtain ⟨planned, hread₂⟩ := hcur₂ _ hcur
      obtain ⟨_, h₃, _⟩ := hk.preemptAt h₂ (hh₂ hh₁) hread₂ hclive (credited_state hstate)
        (allowedAt_any _) hpreempt
      obtain ⟨_, ⟨_, _, _, _, _, hle⟩, _⟩ := hk.skipAt (fun _ _ => True) h₃ hskip
      rw [hs]
      exact lt_of_le_of_lt hle hlt
  | waited p₁ cur s₂ hlive hcredit hcur hstate hsignal ht1 hs =>
      have hlt := callsLeft_credit_lt h hh hcredit hcur hstate
      obtain ⟨h₁, _⟩ := kept_true.creditAt h hh hr hcredit
      obtain ⟨⟨_, _, _, _, _, hle⟩, _⟩ := (kept_callsLeft p₁.callsLeft).signalAt
        (s := { s with plan := p₁ }) (h₁.of_true le_rfl) (signalIfT2_eq_ok hsignal)
      rw [hs, relieveStress_eq]
      exact lt_of_le_of_lt hle hlt

end Tick

/-! ## The run -/

/-- The current task is the terminator. -/
def Ended (p : PbsPlan) : Prop :=
  ∃ cur, p.readCurTask = .ok cur ∧ cur.taskId = -2

/-- The run of the plan `o` has ended in `p`, and every task was executed exactly once. -/
structure Completed (o p : PbsPlan) : Prop where
  ended : Ended p
  once : ∀ u ∈ o.parsedTasks, u.taskId ≠ -1 →
    ∃ v, p.liveTasks.filter (·.taskId = u.taskId) = [v] ∧ v.job = u.job ∧ Executed v
  counted : p.tasksFinished = (realIds o.parsedTasks).length

/-- The quanta of the real length of a task, rounded up, and one more call. -/
def callsNeeded (t : PbsTask) : Nat :=
  if t.taskId = -1 then 0 else t.instructionsReal.toNat ⌈/⌉ insPerTick.toNat + 1

/-- The calls that the tasks of a parsed plan need together. -/
def PbsPlan.callBound (p : PbsPlan) : Nat :=
  (p.parsedTasks.map callsNeeded).sum

section Run

variable {o p q : PbsPlan} {done todo tail : List PbsTask} {s s' t : System} {a : Agenda Job}
  {b : Build} {pmu : Nat → Int} {text : List Char} {k : Nat}

theorem Parsed.callsLeft_eq (hp : Parsed p) (ha : Admissible p) : p.callsLeft = p.callBound := by
  rw [(hp.valid ha).toLayout.callsLeft_eq, PbsPlan.callBound]
  congr 1
  refine List.map_congr_left fun t ht => ?_
  rw [callsLeft, callsNeeded, (hp.fresh t ht).retiredTask, Int.sub_zero]

theorem Parsed.delivered (hp : Parsed p) (ha : Admissible p) : Delivered p :=
  .of_layout (hp.valid ha).toLayout (by simp) hp.counters.2.2.2

/-- In every state reached the tasks that were passed are executed. -/
theorem delivered_run (hparse : parsePlan text zeroedPlan = .ok s.plan)
    (hadmissible : Admissible s.plan) (hpmu : ∀ k, 0 ≤ pmu k) (ht : runTicks b pmu s k = .ok t) :
    ∃ a, At Delivered a t.plan ∧ a.jobs.Perm (s.plan.parsedTasks.map PbsTask.job) := by
  have hparsed := parsePlan_parsed hparse
  obtain ⟨a, hat, _, hmoves⟩ := kept_delivered.run hpmu
    ⟨_, _, _, hparsed.valid hadmissible, rfl, hparsed.delivered hadmissible⟩
    (hparsed.headReal hadmissible)
    (fun j _ u c hu hc hlive hstate planned => ⟨hstate, by
      obtain ⟨_, ⟨done, todo, tail, hv, _, hun⟩, _⟩ := kept_unfinished.reached hparse hadmissible
        hpmu (hparsed.unfinished hadmissible.entries) hu
      obtain ⟨rest, rfl⟩ := hv.of_readCurTask hc hlive
      exact credited_finished hstate ((hun.ahead hv.toLayout).1 c (by simp)) (hpmu j)⟩)
    (fun _ _ _ p _ _ => allowedAt_any p) ht
  exact ⟨a, hat, hmoves.perm⟩

theorem Layout.todo_of_ended (hl : Layout p done todo tail) (h : Ended p) : todo = [] := by
  obtain ⟨cur, hcur, hend⟩ := h
  cases todo with
  | nil => rfl
  | cons c rest =>
      obtain rfl := Except.ok.inj (hcur.symm.trans hl.readCurTask)
      exact absurd hend (hl.live cur (by simp)).1

theorem At.completed (h : At Delivered a p) (hjobs : a.jobs.Perm (o.parsedTasks.map PbsTask.job))
    (hdistinct : DistinctIds o) (hend : Ended p) : Completed o p := by
  obtain ⟨done, todo, tail, hv, rfl, hdelivered⟩ := h
  obtain rfl := hv.toLayout.todo_of_ended hend
  have hlive : p.liveTasks = done := by rw [hv.toLayout.liveTasks_eq, List.append_nil]
  have hperm : (done.map PbsTask.job).Perm (o.parsedTasks.map PbsTask.job) := by
    simpa [Agenda.jobs, agenda] using hjobs
  have hids := realIds_of_jobs hperm
  obtain ⟨hexecuted, hcounted⟩ := hdelivered.behind hv.toLayout
  refine ⟨hend, fun u hu hreal => ?_, hcounted.trans (by rw [hids.length_eq])⟩
  obtain ⟨v, hmem, hjob⟩ := List.mem_map.1 (hperm.mem_iff.2 (List.mem_map_of_mem hu))
  rw [← job_taskId hjob] at hreal ⊢
  refine ⟨v, ?_, hjob, hexecuted v hmem hreal⟩
  obtain ⟨pre, post, rfl⟩ := List.append_of_mem hmem
  obtain ⟨hpre, hpost⟩ := ne_of_nodup (hids.nodup_iff.2 hdistinct) hreal
  rw [hlive, List.filter_append, List.filter_cons_of_pos (by simp),
    List.filter_eq_nil_iff.2 (by simpa using hpre), List.filter_eq_nil_iff.2 (by simpa using hpost),
    List.nil_append]

theorem run_of_ended (hparse : parsePlan text zeroedPlan = .ok s.plan)
    (hadmissible : Admissible s.plan) (hpmu : ∀ k, 0 ≤ pmu k) (ht : runTicks b pmu s k = .ok t)
    (hend : Ended t.plan) (i : Nat) : runTicks b pmu s (k + i) = .ok t := by
  induction i with
  | zero => exact ht
  | succ i ih =>
      obtain ⟨cur, hcur, hid⟩ := hend
      obtain ⟨_, ⟨_, _, _, _, _, hheader⟩, _⟩ :=
        (upheld_header s.plan.header).kept.reached hparse hadmissible hpmu rfl ht
      have hnum : t.plan.numTasks < 400 :=
        (congrArg (fun x => x.2.1) hheader).trans_lt (parsePlan_parsed hparse).numTasks_lt
      rw [runTicks, ← Nat.add_assoc, run_succ_of_eq ih]
      exact tick_of_ended hnum hcur hid

/-- If all preemptions up to the terminator read entries of the array only, then every task is
executed exactly once. -/
theorem Ready.completes (ho : Ready s.plan) (hparse : parsePlan text zeroedPlan = .ok s.plan)
    (hroom : ∀ j t p, runTicks .kernel everyTick s j = .ok t →
      preemptionPoint .kernel (everyTick j) t = .ok (some p) → readsInside .kernel p = true) :
    ∃ k t, k ≤ s.plan.callBound ∧ runTicks .kernel everyTick s k = .ok t ∧
      Completed s.plan t.plan := by
  obtain ⟨k, t, hk, ht, _, hend⟩ := @run_reaches _ _
    (fun k => pbsRunTimerTick .kernel (everyTick k)) s
    (fun t => (∃ j, runTicks .kernel everyTick s j = .ok t) ∧ Bookable t.plan)
    (fun t => Ended t.plan) (fun t => t.plan.callsLeft) ⟨⟨0, rfl⟩, ho.bookable⟩ (by
      rintro k t ⟨⟨j, hj⟩, hb⟩ hlive
      obtain ⟨a, hat, hhead, hjobs⟩ :=
        (kept_sound s.plan).reached hparse ho.admissible everyTick_nonneg ho.sound hj
      obtain ⟨u, htick, hbu⟩ := ho.tick hat hhead hjobs hb
        (show 0 < insPerTick by decide) fun p => hroom j t p hj
      refine ⟨u, htick, ⟨⟨j + 1, (run_succ_of_eq hj).trans htick⟩, hbu⟩, ?_⟩
      obtain ⟨done, todo, tail, hv, rfl, _⟩ := hat
      exact callsLeft_tick ⟨done, todo, tail, hv, rfl, trivial⟩ hhead
        (fun c hc hid => hlive ⟨c, hc, hid⟩) htick)
  obtain ⟨a, hat, hjobs⟩ := delivered_run hparse ho.admissible everyTick_nonneg ht
  exact ⟨k, t, ho.parsed.callsLeft_eq ho.admissible ▸ hk, ht, hat.completed hjobs ho.distinct hend⟩

theorem readsInside_of_preempts (h : At (fun _ => True) a p) {cur : PbsTask}
    (hcur : p.readCurTask = .ok cur) (hlive : cur.taskId ≠ -2)
    (hq : preemptCurTask .kernel p = .ok q) : readsInside .kernel p = true := by
  obtain ⟨done, todo, tail, hv, _⟩ := h
  obtain ⟨rest, rfl⟩ := hv.of_readCurTask hcur hlive
  rcases exists_cut_or_noSlot cur rest with ⟨blk, n, ns, f, post, hc⟩ | hno
  · rw [preemptCurTask_kernel_cut hv.toLayout hc] at hq
    split at hq <;> rename_i hroom
    · exact (hc.readsInside_iff hv.toLayout).2 hroom
    · cases hq
  · rw [readsInside, hcur]
    dsimp only
    rw [findSlotToMoveTo_noSlot hv.toLayout hno]

end Run

/-- The kernel build brings the current task to the terminator within the bound, with every task
executed exactly once, if and only if no preemption reads beyond the task array. -/
theorem completes_iff {text : List Char} {s : System}
    (hparse : parsePlan text zeroedPlan = .ok s.plan) (hadmissible : Admissible s.plan)
    (hdistinct : DistinctIds s.plan) (hprocesses : 1 ≤ s.plan.numProcesses)
    (hplanned : ∀ u ∈ s.plan.parsedTasks, 0 < u.instructionsPlanned) :
    (∃ k t, k ≤ s.plan.callBound ∧ runTicks .kernel everyTick s k = .ok t ∧
      Completed s.plan t.plan) ↔
    ∀ j t p, runTicks .kernel everyTick s j = .ok t →
      preemptionPoint .kernel (everyTick j) t = .ok (some p) → readsInside .kernel p = true := by
  constructor
  · rintro ⟨k, t, _, ht, hcompleted⟩ j u p hu hpoint
    obtain ⟨_, hat, hhead, _⟩ :=
      kept_true.reached hparse hadmissible everyTick_nonneg trivial hu
    obtain ⟨hatp, _, cur, hcur, hlive, _⟩ :=
      kept_true.preemptionPointAt hat hhead (everyTick_nonneg j) hpoint
    -- the run goes on behind step `j`, since it ends and stays where it ended
    have hgoes : runTicks .kernel everyTick s (k + (j + 1)) = .ok t :=
      run_of_ended hparse hadmissible everyTick_nonneg ht hcompleted.ended _
    obtain ⟨v, hv⟩ := run_prefix hgoes (show j + 1 ≤ k + (j + 1) by omega)
    have htick := (run_succ_of_eq hu).symm.trans hv
    obtain ⟨q, hq⟩ := preempts_of_tick hpoint htick
    exact readsInside_of_preempts hatp hcur hlive hq
  · exact Ready.completes
      ⟨parsePlan_parsed hparse, hadmissible, hdistinct, hprocesses, hplanned⟩ hparse

theorem readsInside_of_small {text : List Char} {s : System}
    (hparse : parsePlan text zeroedPlan = .ok s.plan) (hadmissible : Admissible s.plan)
    (hsmall : 2 * s.plan.numTasks ≤ maxNumberTasksInPlan) {b : Build} {pmu : Nat → Int}
    (hpmu : ∀ k, 0 ≤ pmu k) {j : Nat} {t : System} {p : PbsPlan}
    (ht : runTicks b pmu s j = .ok t) (hpoint : preemptionPoint b (pmu j) t = .ok (some p)) :
    readsInside b p = true := by
  obtain ⟨a, hat, hhead, hjobs⟩ := kept_true.reached hparse hadmissible hpmu trivial ht
  obtain ⟨⟨done, todo, tail, hv, rfl, _⟩, _, cur, hcur, hlive, _⟩ :=
    kept_true.preemptionPointAt hat hhead (hpmu j) hpoint
  obtain ⟨rest, rfl⟩ := hv.of_readCurTask hcur hlive
  have hlength := hjobs.length_eq
  simp only [Agenda.jobs, agenda, List.length_append, List.length_map, PbsPlan.parsedTasks,
    List.length_take] at hlength
  rcases exists_cut_or_noSlot cur rest with ⟨blk, n, ns, f, post, hc⟩ | hno
  · rw [hc.readsInside_iff hv.toLayout]
    rw [hc.todo_eq] at hlength
    simp only [List.length_cons, List.length_append] at hlength
    omega
  · rw [readsInside, hcur]
    dsimp only
    rw [findSlotToMoveTo_noSlot hv.toLayout hno]

set_option maxRecDepth 4000 in
/-- Task 0 is preempted in front of task 1 of another process and goes on in the slot of task 2. -/
theorem completes_iff_preempted :
    ∃ p, parsePlan "2;0,0;1,0;;;0,0,1,90000000;1,1,1,1;0,2,1,1;".toList zeroedPlan = .ok p ∧
      ∃ k t, k ≤ 14 ∧ runTicks .kernel everyTick ⟨p, zeroedSignals⟩ k = .ok t ∧
        Completed p t.plan := by
  obtain ⟨p, t, hp, ht, hcheck⟩ :=
    @of_onRun .kernel "2;0,0;1,0;;;0,0,1,90000000;1,1,1,1;0,2,1,1;".toList everyTick 0
      (fun p _ => decide (Admissible p ∧ DistinctIds p ∧ 1 ≤ p.numProcesses ∧
        (∀ u ∈ p.parsedTasks, 0 < u.instructionsPlanned) ∧
        2 * p.numTasks ≤ maxNumberTasksInPlan ∧ p.callBound ≤ 14)) (by decide +kernel)
  simp only [decide_eq_true_eq] at hcheck
  obtain ⟨hadmissible, hdistinct, hprocesses, hplanned, hsmall, hbound⟩ := hcheck
  obtain ⟨k, t, hk, hrun, hcompleted⟩ := (completes_iff (s := ⟨p, zeroedSignals⟩) hp hadmissible
    hdistinct hprocesses hplanned).2 fun j t q ht hq =>
      readsInside_of_small (s := ⟨p, zeroedSignals⟩) hp hadmissible hsmall everyTick_nonneg ht hq
  exact ⟨p, hp, k, t, hk.trans hbound, hrun, hcompleted⟩

/-- The entries of the tasks `start`, …, `start + n - 1` of process 1, in the plan language. -/
def otherTasks : Nat → Nat → List Char
  | 0, _ => []
  | n + 1, start =>
      "1,".toList ++ Nat.toDigits 10 start ++ ",1,1;".toList ++ otherTasks n (start + 1)

/-- 399 tasks: the tasks 0, 2, 4 and 6 of process 0 stand between tasks of process 1 and gather
in one slot, and task 398 of process 0 stands in front of the terminator. -/
def crowdedText : List Char :=
  ("2;0,0;1,0;;;0,0,1,900000000;1,1,1,1;0,2,1,1;1,3,1,1;0,4,1,1;1,5,1,1;0,6,1,1;").toList ++
    otherTasks 391 7 ++ "0,398,1,1;".toList

set_option maxRecDepth 4000 in
/-- The stack of four tasks moves in front of task 398, and the shift reads entry 400. -/
theorem completes_crowded :
    ∃ p, parsePlan crowdedText zeroedPlan = .ok p ∧ Admissible p ∧ DistinctIds p ∧
      p.numProcesses = 2 ∧
      (∀ u ∈ p.parsedTasks, 0 < u.instructionsPlanned ∧ 0 < u.instructionsReal) ∧
      runTicks .kernel everyTick ⟨p, zeroedSignals⟩ 20 = .error .outOfBounds ∧
      ¬ ∃ k t, runTicks .kernel everyTick ⟨p, zeroedSignals⟩ k = .ok t ∧ Ended t.plan := by
  obtain ⟨p, _, hp, _, hcheck⟩ :=
    @of_onRun .kernel crowdedText everyTick 0
      (fun p _ => decide (Admissible p ∧ (realIds p.parsedTasks).IsChain (· < ·) ∧
        p.numProcesses = 2 ∧
        (∀ u ∈ p.parsedTasks, 0 < u.instructionsPlanned ∧ 0 < u.instructionsReal) ∧
        faultOf (runTicks .kernel everyTick ⟨p, zeroedSignals⟩ 20) = some .outOfBounds))
      (by decide +kernel)
  simp only [decide_eq_true_eq] at hcheck
  obtain ⟨hadmissible, hascending, hprocesses, hpositive, hfault⟩ := hcheck
  have hdistinct : DistinctIds p := (List.isChain_iff_pairwise.1 hascending).imp fun h => h.ne
  have herror := eq_error_of_faultOf hfault
  refine ⟨p, hp, hadmissible, hdistinct, hprocesses, hpositive, herror, ?_⟩
  rintro ⟨k, t, ht, hend⟩
  have hstays := run_of_ended (s := ⟨p, zeroedSignals⟩) hp hadmissible everyTick_nonneg ht hend 20
  obtain ⟨u, hu⟩ := run_prefix hstays (show 20 ≤ k + 20 by omega)
  rw [show run _ _ 20 = _ from herror] at hu
  cases hu

end PbsLevel2
