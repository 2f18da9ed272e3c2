import PbsLevel2.Proofs.Caches
import PbsLevel2.Proofs.Owners

/-!
# Processes that do not run

A tick works for the process of the current task.  What the plan holds of another process stays
as it is, unless a signal is aimed at that process.
-/

namespace PbsLevel2

open Lib

/-- What a plan holds of a process: its tasks that were passed, those ahead and its entry in the
table. -/
structure Portion where
  done : List PbsTask
  todo : List PbsTask
  process : PbsProcess

def PbsPlan.portion (p : PbsPlan) (pid : Int) : Portion where
  done := p.doneTasks.filter (·.processId = pid)
  todo := p.todoTasks.filter (·.processId = pid)
  process := processAt p.processes pid

def RunsElsewhere (pid : Int) (p : PbsPlan) : Prop :=
  ∀ cur, p.readCurTask = .ok cur → cur.processId ≠ pid

section Portion

variable {p q : PbsPlan} {done todo rest tail l m : List PbsTask} {cur t : PbsTask}
  {pid r surplus : Int} {b : Build} {s s₂ s' : System} {a : Agenda Job}

theorem Layout.portion_eq (hl : Layout p done todo tail) (pid : Int) : p.portion pid =
    ⟨done.filter (·.processId = pid), todo.filter (·.processId = pid),
      processAt p.processes pid⟩ := by
  rw [PbsPlan.portion, hl.doneTasks_eq, hl.todoTasks_eq]

theorem filter_pid_cons (h : t.processId ≠ pid) (l : List PbsTask) :
    (t :: l).filter (·.processId = pid) = l.filter (·.processId = pid) :=
  List.filter_cons_of_neg (by simpa using h)

theorem filter_pid_nil (h : ∀ t ∈ l, t.processId ≠ pid) : l.filter (·.processId = pid) = [] := by
  rw [List.filter_eq_nil_iff]
  intro t ht
  simpa using h t ht

theorem filter_pid_startHead (h : ∀ n ∈ l.head?, n.processId ≠ pid) :
    (l.modifyHead start).filter (·.processId = pid) = l.filter (·.processId = pid) := by
  cases l with
  | nil => rfl
  | cons n l =>
      have hn : n.processId ≠ pid := h n rfl
      rw [List.modifyHead_cons, filter_pid_cons hn, filter_pid_cons (t := start n) hn]

theorem filter_pid_rescale {factor target : Int} (h : target ≠ pid) (l : List PbsTask) :
    (l.map (rescale factor target)).filter (·.processId = pid) =
      l.filter (·.processId = pid) := by
  induction l with
  | nil => rfl
  | cons t l ih =>
      have hpid : (rescale factor target t).processId = t.processId :=
        job_processId (job_rescale factor target t)
      rw [List.map_cons]
      by_cases ht : t.processId = pid
      · have hsame : rescale factor target t = t := by
          rw [rescale, if_neg (by omega)]
        rw [hsame, List.filter_cons_of_pos (by simpa using ht),
          List.filter_cons_of_pos (by simpa using ht), ih]
      · rw [filter_pid_cons ht, filter_pid_cons (hpid.trans_ne ht), ih]

theorem RunsElsewhere.head (h : RunsElsewhere pid p) (hl : Layout p done todo tail) :
    ∀ n ∈ todo.head?, n.processId ≠ pid := by
  intro n hn
  cases todo with
  | nil => cases hn
  | cons c todo =>
      obtain rfl : c = n := by simpa using hn
      exact h c hl.readCurTask

theorem Layout.runsElsewhere (hl : Layout p done (cur :: rest) tail) (h : cur.processId ≠ pid) :
    RunsElsewhere pid p := by
  intro c hc
  obtain rfl := Except.ok.inj (hl.readCurTask.symm.trans hc)
  exact h

/-! ## The operations -/

theorem Placed.process_ne (hv : Placed p done (cur :: rest) tail) (hreal : cur.taskId ≠ -1)
    (haway : cur.processId ≠ pid) : pid ≠ p.curProcess := by
  rw [hv.process cur hv.readCurTask, processOf, if_pos hreal]
  exact haway.symm

theorem Owned.portion_credit (h : Owned p) (hv : Valid p done (cur :: rest) tail)
    (hreal : cur.taskId ≠ -1) (haway : cur.processId ≠ pid) (hr : 0 ≤ r)
    (hq : updateRetiredInstructions r p = .ok q) : q.portion pid = p.portion pid := by
  obtain ⟨_, _, _, _, _, _, hi, _⟩ := hv.credit hr hq
  obtain ⟨a, o, b, hsplit, hpid, _, _, hv', heq⟩ := h.updateRetiredInstructions_eq hv.toPlaced hr hi
  have hq' := Except.ok.inj (hq.symm.trans heq)
  have hlq : Layout q done (a ++ creditSlot r o :: b) tail := by
    rw [hq']
    exact hv'.toLayout.of_same rfl rfl rfl
  rw [hv.toLayout.portion_eq, hlq.portion_eq, hq']
  congr 1
  · have ho : o.processId ≠ pid := hpid.trans_ne haway
    calc (a ++ creditSlot r o :: b).filter (·.processId = pid)
        = (a ++ o :: b).filter (·.processId = pid) := by
          rw [List.filter_append, List.filter_append, filter_pid_cons ho,
            filter_pid_cons (t := creditSlot r o) ho]
      _ = (cur :: rest).filter (·.processId = pid) := by
          rw [← hsplit, filter_pid_cons haway, filter_pid_cons (by rwa [retire_processId])]
  · rw [processAt_updateProcess _ _ hi, if_neg (hv.process_ne hreal haway)]

theorem Placed.portion_rescheduled (hv : Placed p done (cur :: rest) tail)
    (hreal : cur.taskId ≠ -1) (haway : cur.processId ≠ pid) (hi : ProcessIndex p.curProcess)
    {factor target : Int} (htarget : target ≠ pid) :
    (p.rescheduled done (cur :: rest) tail factor target).portion pid = p.portion pid := by
  rw [hv.toLayout.portion_eq, (hv.rescheduled factor target).toLayout.portion_eq,
    filter_pid_rescale htarget]
  congr 1
  unfold PbsPlan.rescheduled
  dsimp only
  rw [processAt_updateProcess _ _ hi, if_neg (hv.process_ne hreal haway)]

theorem Placed.portion_passed (hv : Placed p done (cur :: rest) tail)
    (haway : cur.processId ≠ pid) (hnext : RunsElsewhere pid (p.passed done cur rest tail)) :
    (p.passed done cur rest tail).portion pid = p.portion pid := by
  have hvp := hv.passed
  have hhead : ∀ n ∈ rest.head?, n.processId ≠ pid := by
    intro n hn
    have hstarted := hnext.head hvp.toLayout
    cases rest with
    | nil => cases hn
    | cons c rest =>
        obtain rfl : c = n := by simpa using hn
        exact hstarted (start c) rfl
  rw [hv.toLayout.portion_eq, hvp.toLayout.portion_eq, List.filter_append,
    filter_pid_cons haway, filter_pid_cons haway, filter_pid_startHead hhead, List.filter_nil,
    List.append_nil]
  rfl

theorem Placed.portion_booked (hv : Placed p done (cur :: rest) tail) (hreal : cur.taskId ≠ -1)
    (haway : cur.processId ≠ pid) (hi : ProcessIndex p.curProcess) (surplus : Int) :
    (p.booked surplus cur).portion pid = p.portion pid := by
  have hne := hv.process_ne hreal haway
  rw [hv.toLayout.portion_eq, (hv.booked surplus).toLayout.portion_eq]
  congr 1
  unfold PbsPlan.booked
  dsimp only
  rw [processAt_updateProcess _ _ hi, if_neg hne, processAt_updateProcess _ _ hi, if_neg hne]

theorem Placed.portion_rotated (hv : Placed p done (cur :: todo) tail)
    {blk ns post : List PbsTask} {n f : PbsTask} (hc : Cut cur todo blk n ns f post)
    (haway : cur.processId ≠ pid)
    (hnext : RunsElsewhere pid (p.rotated done n ns cur blk f (post ++ tail))) :
    (p.rotated done n ns cur blk f (post ++ tail)).portion pid = p.portion pid := by
  have hvr := hv.rotated hc
  have hn : n.processId ≠ pid := hnext.head hvr.toLayout (changeTaskState n .running) rfl
  have hblk : ∀ u ∈ blk, u.processId ≠ pid := fun u hu => (hc.stack u hu).2.1.symm.trans_ne haway
  have hmoved : ∀ u ∈ (bump cur :: blk).map (hosted f.taskId), u.processId ≠ pid := by
    intro u hu
    obtain ⟨w, hw, rfl⟩ := List.mem_map.1 hu
    rcases List.mem_cons.1 hw with rfl | hw
    · exact haway
    · exact hblk w hw
  rw [hv.toLayout.portion_eq, hvr.toLayout.portion_eq]
  congr 1
  -- the stack that moves holds no task of the process
  calc (changeTaskState n .running :: ns ++
        ((bump cur :: blk).map (hosted f.taskId) ++ f :: post)).filter (·.processId = pid)
      = (ns ++ f :: post).filter (·.processId = pid) := by
        rw [List.cons_append, filter_pid_cons (t := changeTaskState n .running) hn,
          List.filter_append, List.filter_append, filter_pid_nil hmoved, List.nil_append,
          List.filter_append]
    _ = (n :: ns ++ f :: post).filter (·.processId = pid) := by
        rw [List.cons_append, filter_pid_cons hn]
    _ = (cur :: todo).filter (·.processId = pid) := by
        rw [filter_pid_cons haway, hc.todo_eq, List.filter_append blk, filter_pid_nil hblk,
          List.nil_append]

theorem Placed.portion_bumped (hv : Placed p done (cur :: todo) tail)
    (haway : cur.processId ≠ pid) :
    (p.bumped done cur (todo ++ tail)).portion pid = p.portion pid := by
  rw [hv.toLayout.portion_eq, hv.bumped.toLayout.portion_eq, filter_pid_cons haway,
    filter_pid_cons (t := bump cur) haway]
  rfl

theorem Placed.portion_finish (hv : Placed p done (cur :: rest) tail) (hreal : cur.taskId ≠ -1)
    (haway : cur.processId ≠ pid) (hq : (bookFinishedTask surplus p >>= advanceCurTask) = .ok q)
    (hnext : RunsElsewhere pid q) : q.portion pid = p.portion pid := by
  obtain ⟨hi, rfl⟩ := finishTask_eq_ok hv hq
  exact ((hv.booked surplus).portion_passed haway hnext).trans
    (hv.portion_booked hreal haway hi surplus)

theorem Owned.portion_preempt (h : Owned p) (hv : Valid p done (cur :: todo) tail)
    (hreal : cur.taskId ≠ -1) (haway : cur.processId ≠ pid)
    (hrun : cur.instructionsRetiredTask < cur.instructionsReal) (hq : preemptCurTask b p = .ok q)
    (hnext : RunsElsewhere pid q) : q.portion pid = p.portion pid := by
  rcases preemptCurTask_eq_ok hv.toLayout hq with
    ⟨blk, n, ns, f, post, hc, _, rfl⟩ | ⟨_, q₁, hq₁, rfl⟩
  · exact hv.toPlaced.portion_rotated hc haway hnext
  · have hbumped := kept_owned.bump hv hreal h
    have hleft := Int.sub_nonneg_of_le (Int.le_of_lt hrun)
    have hcredit : q₁.portion pid = (p.bumped done cur (todo ++ tail)).portion pid :=
      hbumped.portion_credit hv.bumped hreal haway hleft hq₁
    exact hcredit.trans (hv.toPlaced.portion_bumped haway)

theorem portion_skip (h : At Owned a p) (hpid : pid ≠ -1) (hq : skipFreeSlot b p = .ok q)
    (hnext : RunsElsewhere pid q) : RunsElsewhere pid p ∧ q.portion pid = p.portion pid := by
  obtain ⟨done, todo, tail, hv, _, howned⟩ := h
  rcases skipFreeSlot_eq_ok hv.toLayout hq with ⟨_, rfl⟩ | ⟨cur, rest, first, rfl, hfree, _, hq⟩
  · exact ⟨hnext, rfl⟩
  · have haway : cur.processId ≠ pid := by
      rw [(hv.free cur (by simp)).1 hfree]
      exact hpid.symm
    apply And.intro (hv.toLayout.runsElsewhere haway)
    have hvp := hv.passed
    by_cases hneg : -first.instructionsPlanned < 0
    · rw [updateRetiredInstructions_neg hneg] at hq
      obtain rfl := Except.ok.inj hq
      exact hv.toPlaced.portion_passed haway hnext
    · have hr := Int.not_lt.1 hneg
      obtain ⟨n, more, hmore⟩ := hvp.retire_todo hr hq
      rw [hmore] at hvp
      obtain ⟨_, _, _, hv', _⟩ := hvp.credit hr hq
      have hn : n.processId ≠ pid := by
        rw [← job_processId (job_credited (-first.instructionsPlanned) n)]
        exact hnext _ hv'.readCurTask
      have hreal := hv.headReal_passed hfree n hvp.readCurTask
      rw [(kept_owned.skip hv hfree howned).portion_credit hvp hreal hn hr hq]
      exact hv.toPlaced.portion_passed haway (hvp.toLayout.runsElsewhere hn)

end Portion

/-! ## A tick -/

section Tick

variable {p q : PbsPlan} {cur : PbsTask} {pid r : Int} {b : Build} {s s₂ s' : System}
  {a : Agenda Job}

/-- The signal of the tick, if it raises one, is not aimed at process `pid`. -/
def AimsElsewhere (pid : Int) (b : Build) (r : Int) (s : System) : Prop :=
  ∀ signal p, signalPoint b r s = .ok (some (signal, p)) → targetOf signal p ≠ pid

theorem portion_signalled (h : At Owned a s.plan) (hh : HeadReal s.plan) (hr : 0 ≤ r)
    (haway : RunsElsewhere pid s.plan) (haims : AimsElsewhere pid b r s)
    (hcredit : updateRetiredInstructions r s.plan = .ok p) (hleaves : LeavesSignal b r s p s₂) :
    RunsElsewhere pid s₂.plan ∧ s₂.plan.portion pid = s.plan.portion pid := by
  obtain ⟨h₁, hh₁⟩ := kept_owned.creditAt h hh hr hcredit
  obtain ⟨done, todo, tail, hv, _, howned⟩ := h
  obtain ⟨cur, rest, rfl⟩ := hv.retire_todo hr hcredit
  have hcur := haway cur hv.readCurTask
  have hportion := howned.portion_credit hv (hh cur hv.readCurTask) hcur hr hcredit
  obtain ⟨done₁, rest₁, tail₁, hv₁, _⟩ := hv.credit hr hcredit
  have hcur₁ : (credited r cur).processId ≠ pid := by rwa [job_processId (job_credited r cur)]
  have hreal₁ := hh₁ _ hv₁.readCurTask
  have hraised : ∀ {factor target : Int}, target ≠ pid → ProcessIndex p.curProcess →
      s₂.plan = PbsPlan.rescheduled { p with stress := stressReset } done₁
        (credited r cur :: rest₁) tail₁ factor target →
      RunsElsewhere pid s₂.plan ∧ s₂.plan.portion pid = s.plan.portion pid := by
    intro factor target htarget hi heq
    have hvs := hv₁.toPlaced.stressed stressReset
    have hpid : (rescale factor target (credited r cur)).processId ≠ pid := by
      rwa [job_processId (job_rescale factor target _)]
    rw [heq]
    apply And.intro ((hvs.rescheduled factor target).toLayout.runsElsewhere hpid)
    exact (hvs.portion_rescheduled hreal₁ hcur₁ hi htarget).trans hportion
  cases hleaves with
  | silent _ hs =>
      rw [hs]
      exact ⟨hv₁.toLayout.runsElsewhere hcur₁, hportion⟩
  | t2 hpoint hs =>
      obtain ⟨hi, heq, _⟩ := signalT2_eq_ok (s := { s with plan := p }) hv₁.toLayout hs
      exact hraised (haims _ _ hpoint) hi heq
  | tm2 hpoint hs =>
      obtain ⟨hi, heq, _⟩ := signalTm2_eq_ok (s := { s with plan := p }) hv₁.toLayout hs
      exact hraised (haims _ _ hpoint) hi heq

/-- A tick that starts and ends with a task of another process, and aims no signal at process
`pid`, leaves its portion alone. -/
theorem portion_tick (h : At Owned a s.plan) (hh : HeadReal s.plan) (hr : 0 ≤ r) (hpid : pid ≠ -1)
    (haway : RunsElsewhere pid s.plan) (hnext : RunsElsewhere pid s'.plan)
    (haims : AimsElsewhere pid b r s) (htick : pbsRunTimerTick b r s = .ok s') :
    s'.plan.portion pid = s.plan.portion pid := by
  cases tick_cases htick with
  | ended cur hcur hend hs => rw [hs]
  | finished p₁ cur s₂ p₃ p₄ hlive hcredit hcur hstate hsignal hbook hskip hs =>
      obtain ⟨c, hc, _, hclive⟩ := Kept.readCurTask_credit h hr hcredit
      have hleaves := leavesSignal_finished hc hclive hcredit hcur hstate hsignal
      obtain ⟨haway₂, hportion₂⟩ := portion_signalled h hh hr haway haims hcredit hleaves
      obtain ⟨_, h₃, _⟩ := kept_owned.finishedAt (fun _ _ => True) h hh hr
        (fun _ _ _ _ _ => trivial) hcredit hcur hstate hsignal hbook
      rw [hs] at hnext ⊢
      obtain ⟨haway₃, hportion₄⟩ := portion_skip h₃ hpid hskip hnext
      obtain ⟨_, hreal, _, _, _, _, _, hv₂⟩ :=
        kept_owned.signalled h hh hr hcredit hcur (signalIfTm2_eq_ok hsignal)
      have hportion₃ :=
        hv₂.toPlaced.portion_finish hreal (haway₂ _ hv₂.readCurTask) hbook haway₃
      exact hportion₄.trans (hportion₃.trans hportion₂)
  | preempted p₁ cur s₂ p₃ p₄ hlive hcredit hcur hstate hsignal ht1 hpreempt hskip hs =>
      obtain ⟨c, hc, _, hclive⟩ := Kept.readCurTask_credit h hr hcredit
      have hleaves := leavesSignal_running hc hclive hcredit hcur hstate hsignal
      obtain ⟨haway₂, hportion₂⟩ := portion_signalled h hh hr haway haims hcredit hleaves
      have hpoint := preemptionPoint_eq hc hclive hcredit hcur hstate hsignal ht1
      obtain ⟨h₂, hh₂, cur₂, hcur₂, hlive₂, hrun⟩ := kept_owned.preemptionPointAt h hh hr hpoint
      obtain ⟨_, h₃, _⟩ :=
        kept_owned.preemptAt h₂ hh₂ hcur₂ hlive₂ hrun (allowedAt_any _) hpreempt
      rw [hs] at hnext ⊢
      obtain ⟨haway₃, hportion₄⟩ := portion_skip h₃ hpid hskip hnext
      obtain ⟨done, todo, tail, hv₂, _, howned⟩ := h₂
      obtain ⟨rest, rfl⟩ := hv₂.of_readCurTask hcur₂ hlive₂
      have hportion₃ := howned.portion_preempt hv₂ (hh₂ _ hcur₂) (haway₂ _ hcur₂) hrun hpreempt
        haway₃
      exact hportion₄.trans (hportion₃.trans hportion₂)
  | waited p₁ cur s₂ hlive hcredit hcur hstate hsignal ht1 hs =>
      obtain ⟨c, hc, _, hclive⟩ := Kept.readCurTask_credit h hr hcredit
      have hleaves := leavesSignal_running hc hclive hcredit hcur hstate hsignal
      obtain ⟨_, hportion₂⟩ := portion_signalled h hh hr haway haims hcredit hleaves
      rw [hs, relieveStress_eq]
      exact hportion₂

end Tick

/-! ## Runs -/

/-- The process of every task stands in the table under its id. -/
def ListsProcesses (p : PbsPlan) : Prop :=
  ∀ t ∈ p.parsedTasks, t.taskId ≠ -1 →
    (processAt p.processes t.processId).processId = t.processId

instance (p : PbsPlan) : Decidable (ListsProcesses p) :=
  inferInstanceAs (Decidable (∀ _ ∈ _, _))

section Run

variable {p : PbsPlan} {pid r : Int} {b : Build} {s : System} {a : Agenda Job} {ids : Int → Int}

/-- T2 is aimed at the process that runs, Tm2 at process 0. -/
theorem aimsElsewhere_of {K : PbsPlan → Prop} (hK : Kept (fun _ => True) K)
    (hkept : ∀ p, K p → ∀ i, (processAt p.processes i).processId = ids i)
    (h : At K a s.plan) (hh : HeadReal s.plan) (hr : 0 ≤ r)
    (hlisted : ∀ x ∈ a.jobs, x.taskId ≠ -1 → ids x.processId = x.processId)
    (haway : RunsElsewhere pid s.plan)
    (htm2 : pid = 0 → ∀ p, signalPoint b r s ≠ .ok (some (.tm2, p))) :
    AimsElsewhere pid b r s := by
  intro signal p hpoint
  obtain ⟨c, hcredit, hc, _⟩ := signalPoint_eq_ok hpoint
  obtain ⟨⟨done, todo, tail, hv, rfl, hp⟩, hh₁⟩ := hK.creditAt h hh hr hcredit
  obtain ⟨c₀, hc₀, hc₁, hlive⟩ := Kept.readCurTask_credit h hr hcredit
  obtain rfl := Except.ok.inj (hc.symm.trans hc₁)
  have haway₁ : (credited r c₀).processId ≠ pid := by
    rw [job_processId (job_credited r c₀)]
    exact haway c₀ hc₀
  rcases signalPoint_raises hpoint with rfl | rfl
  · have hreal := hh₁ _ hc
    obtain ⟨rest, rfl⟩ := hv.of_readCurTask hc (by rwa [job_taskId (job_credited r c₀)])
    have hmem : (credited r c₀).job ∈ (agenda done (credited r c₀ :: rest)).jobs := by
      rw [Agenda.jobs, agenda, List.map_cons]
      exact List.mem_append_right _ List.mem_cons_self
    rw [targetOf, if_pos rfl, hkept p hp, hv.process _ hc, processOf, if_pos hreal]
    exact (hlisted _ hmem hreal).trans_ne haway₁
  · rw [targetOf, if_neg (by decide)]
    exact fun hzero => htm2 hzero.symm p hpoint

/-- As long as the tasks of other processes run, the plan keeps all it holds of a process: the
order of its tasks and every field of them, and every field of its entry in the table.  Only Tm2,
which is aimed at process 0, reaches a process that does not run. -/
theorem isolated_run {text : List Char} {pmu : Nat → Int} {t u : System} {j k : Nat}
    (hparse : parsePlan text zeroedPlan = .ok s.plan) (hadmissible : Admissible s.plan)
    (hdistinct : DistinctIds s.plan) (hlisted : ListsProcesses s.plan) (hpmu : ∀ k, 0 ≤ pmu k)
    (hpid : pid ≠ -1) (hjk : j ≤ k) (hu : runTicks b pmu s j = .ok u)
    (ht : runTicks b pmu s k = .ok t)
    (haway : ∀ i, j ≤ i → i ≤ k → ∀ v, runTicks b pmu s i = .ok v → RunsElsewhere pid v.plan)
    (htm2 : pid = 0 → ∀ i, j ≤ i → i < k → ∀ v p, runTicks b pmu s i = .ok v →
      signalPoint b (pmu i) v ≠ .ok (some (.tm2, p))) :
    t.plan.portion pid = u.plan.portion pid := by
  have hparsed := parsePlan_parsed hparse
  have hkept := kept_owned.and
    (upheld_processIds fun i => (processAt s.plan.processes i).processId).kept
  refine run_between (V := fun v : System => v.plan.portion pid) hjk hu ht
    fun i hi hlt v w hv hw => ?_
  obtain ⟨a, hat, hhead, hjobs⟩ := hkept.reached hparse hadmissible hpmu
    ⟨hparsed.owned hadmissible.entries hdistinct, fun _ => rfl⟩ hv
  have hjoblisted : ∀ x ∈ a.jobs, x.taskId ≠ -1 →
      (processAt s.plan.processes x.processId).processId = x.processId := by
    intro x hx hreal
    obtain ⟨y, hy, rfl⟩ := List.mem_map.1 (hjobs.subset hx)
    exact hlisted y hy hreal
  have haims := aimsElsewhere_of hkept (fun _ h => h.2) hat hhead (hpmu i) hjoblisted
    (haway i hi hlt.le v hv) fun hzero q => htm2 hzero i hi hlt v q hv
  obtain ⟨done, todo, tail, hvalid, ha, howned, _⟩ := hat
  exact portion_tick ⟨done, todo, tail, hvalid, ha, howned⟩ hhead (hpmu i) hpid
    (haway i hi hlt.le v hv) (haway (i + 1) (by omega) hlt w (by rw [runTicks, run_succ_of_eq hv, hw]))
    haims hw

set_option maxRecDepth 4000 in
/-- The preempted task 0 moves behind task 2 of process 1, whose portion stays as it is. -/
theorem isolated_run_overtaken :
    ∃ p t, parsePlan
        "3;0,0;1,0;2,0;;;0,0,1,90000000;2,1,1,90000000;1,2,1,1;0,3,1,1;".toList zeroedPlan =
        .ok p ∧ runTicks .userland everyTick ⟨p, zeroedSignals⟩ 4 = .ok t ∧
      t.plan.todoTasks.map PbsTask.taskId = [1, 2, 0, 3] ∧
      (p.portion 1).todo.map PbsTask.taskId = [2] ∧ t.plan.portion 1 = p.portion 1 := by
  obtain ⟨p, t, hp, ht, hcheck⟩ :=
    @of_onRun .userland
      "3;0,0;1,0;2,0;;;0,0,1,90000000;2,1,1,90000000;1,2,1,1;0,3,1,1;".toList everyTick 4
      (fun p t => decide (Admissible p ∧ DistinctIds p ∧ ListsProcesses p ∧
          t.plan.todoTasks.map PbsTask.taskId = [1, 2, 0, 3] ∧
          (p.portion 1).todo.map PbsTask.taskId = [2]) &&
        allTicks (fun _ u => onCurTask u.plan fun cur => decide (cur.processId ≠ 1)) .userland
          everyTick ⟨p, zeroedSignals⟩ 5) (by decide +kernel)
  simp only [Bool.and_eq_true, decide_eq_true_eq] at hcheck
  obtain ⟨⟨hadmissible, hdistinct, hlisted, horder, hown⟩, haway⟩ := hcheck
  refine ⟨p, t, hp, ht, horder, hown, ?_⟩
  refine isolated_run (s := ⟨p, zeroedSignals⟩) (j := 0) (k := 4) hp hadmissible hdistinct hlisted
    everyTick_nonneg (by decide) (by decide) rfl ht (fun i _ hi v hv => ?_) fun hzero => ?_
  · obtain ⟨cur, hcur, hne⟩ := of_onCurTask (of_allTicks haway (show i < 5 by omega) hv)
    intro c hc
    obtain rfl := Except.ok.inj (hcur.symm.trans hc)
    exact of_decide_eq_true hne
  · exact absurd hzero (by decide)

end Run

end PbsLevel2
