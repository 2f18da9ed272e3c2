import PbsLevel2.Proofs.Parsing
import PbsLevel2.Proofs.Rotation
import PbsLevel2.Proofs.Upheld

/-!
# Runs of parsed plans

The plans a run starts from, the lists in which claims about a run are stated, and checks
of concrete runs by evaluation.
-/

namespace PbsLevel2

open Lib

/-! ## Plans that may be run -/

/-- The tasks `parse_plan` read. -/
def PbsPlan.parsedTasks (p : PbsPlan) : List PbsTask :=
  p.tasks.toList.take p.numTasks

/-- A parsed plan the scheduler admits: no entry passes for the terminator, the free slots are
those with task id and process id -1, the first entry is none, no two are adjacent. -/
structure Admissible (p : PbsPlan) : Prop where
  entries : ∀ t ∈ p.parsedTasks, t.taskId ≠ -2 ∧ (t.taskId = -1 ↔ t.processId = -1)
  first : ∀ t ∈ p.tasks.toList.head?, t.taskId ≠ -1
  spaced : p.parsedTasks.IsChain fun t u => ¬ (t.taskId = -1 ∧ u.taskId = -1)

instance (p : PbsPlan) : Decidable (Admissible p) :=
  decidable_of_iff
    ((∀ t ∈ p.parsedTasks, t.taskId ≠ -2 ∧ (t.taskId = -1 ↔ t.processId = -1)) ∧
      (∀ t ∈ p.tasks.toList.head?, t.taskId ≠ -1) ∧
      p.parsedTasks.IsChain fun t u => ¬ (t.taskId = -1 ∧ u.taskId = -1))
    ⟨fun h => ⟨h.1, h.2.1, h.2.2⟩, fun h => ⟨h.1, h.2, h.3⟩⟩

/-- No entry passes for the terminator, and the free slots are those with task id and process
id -1. -/
def Formatted (p : PbsPlan) : Prop :=
  ∀ t ∈ p.parsedTasks, t.taskId ≠ -2 ∧ (t.taskId = -1 ↔ t.processId = -1)

instance (p : PbsPlan) : Decidable (Formatted p) :=
  inferInstanceAs (Decidable (∀ _ ∈ _, _))

/-- No two tasks that are no free slots share an id. -/
def DistinctIds (p : PbsPlan) : Prop :=
  (realIds p.parsedTasks).Nodup

instance (p : PbsPlan) : Decidable (DistinctIds p) :=
  inferInstanceAs (Decidable (List.Nodup _))

/-! ## The lists of a reached state -/

/-- The tasks before `index_cur_task`. -/
def PbsPlan.doneTasks (p : PbsPlan) : List PbsTask :=
  p.tasks.toList.take p.indexCurTask

/-- The tasks from `index_cur_task` up to the terminator. -/
def PbsPlan.todoTasks (p : PbsPlan) : List PbsTask :=
  (p.tasks.toList.drop p.indexCurTask).takeWhile fun t => t.taskId ≠ -2

section Lists

variable {p : PbsPlan} {done todo tail : List PbsTask}

theorem Layout.doneTasks_eq (hl : Layout p done todo tail) : p.doneTasks = done := by
  rw [PbsPlan.doneTasks, hl.tasks, hl.index, List.take_left]

theorem Layout.todoTasks_eq (hl : Layout p done todo tail) : p.todoTasks = todo := by
  obtain ⟨t, rest, rfl, hid, _⟩ := hl.terminates
  have hlive : ∀ u ∈ todo, decide (u.taskId ≠ -2) = true := fun u hu => by
    simpa using (hl.live u (by simp [hu])).1
  rw [PbsPlan.todoTasks, hl.tasks, hl.index, List.drop_left, List.takeWhile_append_of_pos hlive,
    List.takeWhile_cons_of_neg (by simpa using hid), List.append_nil]

end Lists

/-! ## The start of a run -/

section Start

variable {p : PbsPlan}

theorem Parsed.layout (hp : Parsed p) (hf : Formatted p) :
    Layout p [] p.parsedTasks (p.tasks.toList.drop p.numTasks) := by
  refine ⟨?_, ⟨_, _, hp.tail, rfl, rfl⟩, ?_, hp.curTask, hp.indexCurTask⟩
  · rw [PbsPlan.parsedTasks, List.nil_append, List.take_append_drop]
  · intro t ht
    refine ⟨(hf t ht).1, ?_⟩
    by_cases hpid : t.processId = -1
    · omega
    · have := (hp.pid t ht hpid).1
      omega

theorem Parsed.placed (hp : Parsed p) (hf : Formatted p)
    (hfirst : ∀ t ∈ p.tasks.toList.head?, t.taskId ≠ -1) :
    Placed p [] p.parsedTasks (p.tasks.toList.drop p.numTasks) := by
  have hl := hp.layout hf
  refine ⟨hl, fun t ht => (hf t ht).2, ?_⟩
  intro cur hcur
  rw [hp.curProcess cur hcur, processOf]
  split
  · rfl
  · rename_i hid
    exfalso
    obtain ⟨c, rest, heq, hc⟩ := hl.head
    obtain rfl := Except.ok.inj (hcur.symm.trans hc)
    refine hfirst cur ?_ (by omega)
    rw [hl.tasks, List.nil_append, heq]
    rfl

theorem Parsed.valid (hp : Parsed p) (ha : Admissible p) :
    Valid p [] p.parsedTasks (p.tasks.toList.drop p.numTasks) := by
  refine ⟨hp.placed ha.entries ha.first, ?_⟩
  rw [SpacedJobs, Agenda.Spaced, List.isChain_map]
  refine ha.spaced.imp_of_mem_imp ?_
  rintro t u ht hu hne ⟨hidle, hidle'⟩
  exact hne ⟨(ha.entries t ht).2.2 hidle, (ha.entries u hu).2.2 hidle'⟩

theorem Parsed.headReal (hp : Parsed p) (ha : Admissible p) : HeadReal p := by
  intro cur hcur
  obtain ⟨c, rest, heq, hc⟩ := (hp.valid ha).head
  obtain rfl := Except.ok.inj (hcur.symm.trans hc)
  refine ha.first cur ?_
  rw [(hp.valid ha).tasks, List.nil_append, heq]
  rfl

end Start

/-- What the operations of a tick keep holds in every state reached from a parsed plan, and the
jobs are those that were parsed. -/
theorem Maintained.reached {K : PbsPlan → Prop} (hk : Maintained (fun _ => True) K)
    {text : List Char} {b : Build} {pmu : Nat → Int} {s t : System} {k : Nat}
    (hparse : parsePlan text zeroedPlan = .ok s.plan) (hadmissible : Admissible s.plan)
    (hpmu : ∀ k, 0 ≤ pmu k) (hK : K s.plan) (ht : runTicks b pmu s k = .ok t) :
    ∃ a, At K a t.plan ∧ HeadReal t.plan ∧ a.jobs.Perm (s.plan.parsedTasks.map PbsTask.job) := by
  have hparsed := parsePlan_parsed hparse
  obtain ⟨a, hat, hhead, hmoves⟩ := hk.run hpmu ⟨_, _, _, hparsed.valid hadmissible, rfl, hK⟩
    (hparsed.headReal hadmissible) (fun _ _ _ _ _ _ _ _ _ => trivial)
    (fun _ _ _ p _ _ => allowedAt_any p) ht
  exact ⟨a, hat, hhead, hmoves.perm⟩

/-! ## The first entry -/

def FirstReal (p : PbsPlan) : Prop :=
  ∀ t ∈ p.parsedTasks.head?, t.taskId ≠ -1

section First

variable {p q : PbsPlan} {b : Build} {r : Int} {s s' : System}

theorem Parsed.headReal_iff (hp : Parsed p) (hf : Formatted p) : HeadReal p ↔ FirstReal p := by
  have hl := hp.layout hf
  obtain ⟨cur, more, heq, hcur⟩ := hl.head
  have hhead : HeadReal p ↔ cur.taskId ≠ -1 := by
    refine ⟨fun h => h cur hcur, fun h c hc => ?_⟩
    exact Except.ok.inj (hcur.symm.trans hc) ▸ h
  rw [hhead, FirstReal]
  cases htasks : p.parsedTasks with
  | nil =>
      obtain ⟨t, rest, htail, hid, _⟩ := hl.terminates
      rw [htasks, List.nil_append, htail] at heq
      obtain ⟨rfl, _⟩ := List.cons.inj heq
      simp [hid]
  | cons t l =>
      rw [htasks, List.cons_append] at heq
      obtain ⟨rfl, _⟩ := List.cons.inj heq
      simp

theorem Parsed.first (hp : Parsed p) (hf : Formatted p) (hfirst : FirstReal p) :
    ∀ t ∈ p.tasks.toList.head?, t.taskId ≠ -1 := by
  have hl := hp.layout hf
  obtain ⟨cur, more, heq, hcur⟩ := hl.head
  intro t ht
  rw [hl.tasks, List.nil_append, heq] at ht
  exact Option.some.inj ht ▸ (hp.headReal_iff hf).2 hfirst cur hcur

/-- In a plan that starts with a free slot the first credit fails: `cur_process` points in front of
the table. -/
theorem Parsed.firstReal_of_credit (hp : Parsed p) (hf : Formatted p) (hr : 0 ≤ r)
    (hcredit : updateRetiredInstructions r p = .ok q) : FirstReal p := by
  intro cur hcur hfree
  obtain ⟨rest, htasks⟩ := List.head?_eq_some_iff.1 hcur
  have hl := hp.layout hf
  rw [htasks] at hl
  have hmem : cur ∈ p.parsedTasks := by simp [htasks]
  obtain ⟨_, _, _, _, _, _, _, hindex, _⟩ := hl.retire hr hcredit
  rw [hp.curProcess cur hl.readCurTask, (hf cur hmem).2.1 hfree] at hindex
  exact absurd hindex.1 (by decide)

theorem Parsed.firstReal_of_tick (hp : Parsed s.plan) (hf : Formatted s.plan) (hr : 0 ≤ r)
    (htick : pbsRunTimerTick b r s = .ok s') : FirstReal s.plan := by
  cases tick_cases htick with
  | ended c hc hend =>
      intro cur hcur hfree
      obtain ⟨rest, htasks⟩ := List.head?_eq_some_iff.1 hcur
      have hl := hp.layout hf
      rw [htasks] at hl
      obtain rfl := Except.ok.inj (hl.readCurTask.symm.trans hc)
      omega
  | finished p₁ c s₂ p₃ p₄ _ hcredit => exact hp.firstReal_of_credit hf hr hcredit
  | preempted p₁ c s₂ p₃ p₄ _ hcredit => exact hp.firstReal_of_credit hf hr hcredit
  | waited p₁ c s₂ _ hcredit => exact hp.firstReal_of_credit hf hr hcredit

theorem Parsed.firstReal_of_run {pmu : Nat → Int} {t : System} {k : Nat} (hp : Parsed s.plan)
    (hf : Formatted s.plan) (hpmu : ∀ k, 0 ≤ pmu k) (hk : 0 < k)
    (ht : runTicks b pmu s k = .ok t) : FirstReal s.plan := by
  obtain ⟨u₁, hu₁⟩ := run_prefix ht hk
  obtain ⟨u₀, hu₀, htick⟩ := run_succ_eq_ok.1 hu₁
  obtain rfl := Except.ok.inj hu₀
  exact hp.firstReal_of_tick hf (hpmu 0) htick

theorem Parsed.firstReal_of_reached {pmu : Nat → Int} {t : System} {k : Nat} (hp : Parsed s.plan)
    (hf : Formatted s.plan) (hpmu : ∀ k, 0 ≤ pmu k) (ht : runTicks b pmu s k = .ok t)
    (hcredit : updateRetiredInstructions (pmu k) t.plan = .ok q) : FirstReal s.plan := by
  cases k with
  | zero =>
      obtain rfl := Except.ok.inj ht
      exact hp.firstReal_of_credit hf (hpmu 0) hcredit
  | succ k => exact hp.firstReal_of_run hf hpmu (Nat.succ_pos k) ht

end First

theorem Upheld.reached {K : PbsPlan → Prop} (hk : Upheld K) {text : List Char} {b : Build}
    {pmu : Nat → Int} {s t : System} {k : Nat} (hparse : parsePlan text zeroedPlan = .ok s.plan)
    (hformatted : Formatted s.plan) (hfirst : FirstReal s.plan) (hpmu : ∀ k, 0 ≤ pmu k)
    (hK : K s.plan) (ht : runTicks b pmu s k = .ok t) : Holds K t.plan := by
  have hparsed := parsePlan_parsed hparse
  exact hk.run hpmu ⟨_, _, _, hparsed.placed hformatted (hparsed.first hformatted hfirst), hK⟩ ht

/-! ## Concrete runs -/

/-- The readings of the counter stub. -/
def everyTick : Nat → Int :=
  fun _ => getRetiredInstructions

theorem everyTick_nonneg (k : Nat) : 0 ≤ everyTick k := by
  change 0 ≤ getRetiredInstructions
  decide

/-- Evaluates a run of `k` ticks of the plan in `text` and checks its two ends. -/
def onRun (b : Build) (text : List Char) (pmu : Nat → Int) (k : Nat)
    (check : PbsPlan → System → Bool) : Bool :=
  match parsePlan text zeroedPlan with
  | .error _ => false
  | .ok p =>
      match runTicks b pmu ⟨p, zeroedSignals⟩ k with
      | .error _ => false
      | .ok t => check p t

theorem of_onRun {b : Build} {text : List Char} {pmu : Nat → Int} {k : Nat}
    {check : PbsPlan → System → Bool} (h : onRun b text pmu k check = true) :
    ∃ p t, parsePlan text zeroedPlan = .ok p ∧ runTicks b pmu ⟨p, zeroedSignals⟩ k = .ok t ∧
      check p t = true := by
  rw [onRun] at h
  split at h
  · cases h
  · rename_i p hp
    split at h
    · cases h
    · rename_i t ht
      exact ⟨p, t, hp, ht, h⟩

def onOk {α : Type} (x : Exec α) (check : α → Bool) : Bool :=
  match x with
  | .error _ => false
  | .ok a => check a

theorem of_onOk {α : Type} {x : Exec α} {check : α → Bool} (h : onOk x check = true) :
    ∃ a, x = .ok a ∧ check a = true := by
  cases x with
  | error e => cases h
  | ok a => exact ⟨a, rfl, h⟩

def onSome {α : Type} (x : Exec (Option α)) (check : α → Bool) : Bool :=
  onOk x fun found => found.any check

theorem of_onSome {α : Type} {x : Exec (Option α)} {check : α → Bool} (h : onSome x check = true) :
    ∃ a, x = .ok (some a) ∧ check a = true := by
  obtain ⟨found, hx, hcheck⟩ := of_onOk h
  cases found with
  | none => cases hcheck
  | some a => exact ⟨a, hx, hcheck⟩

def onCurTask (p : PbsPlan) (check : PbsTask → Bool) : Bool :=
  match p.readCurTask with
  | .error _ => false
  | .ok cur => check cur

theorem of_onCurTask {p : PbsPlan} {check : PbsTask → Bool} (h : onCurTask p check = true) :
    ∃ cur, p.readCurTask = .ok cur ∧ check cur = true := by
  rw [onCurTask] at h
  split at h
  · cases h
  · rename_i cur hcur
    exact ⟨cur, hcur, h⟩

/-- Checks the plan at a point of the tick from `t`, if the tick has that point. -/
def atPoint (point : Build → Int → System → Exec (Option PbsPlan)) (check : PbsPlan → Bool)
    (b : Build) (r : Int) (t : System) : Bool :=
  match point b r t with
  | .ok (some p) => check p
  | _ => true

theorem of_atPoint {point : Build → Int → System → Exec (Option PbsPlan)} {check : PbsPlan → Bool}
    {b : Build} {r : Int} {t : System} (h : atPoint point check b r t = true) {p : PbsPlan}
    (hp : point b r t = .ok (some p)) : check p = true := by
  rwa [atPoint, hp] at h

def allTicks (check : Int → System → Bool) (b : Build) (pmu : Nat → Int) (s : System) (k : Nat) :
    Bool :=
  (List.range k).all fun j =>
    match runTicks b pmu s j with
    | .error _ => true
    | .ok t => check (pmu j) t

theorem of_allTicks {check : Int → System → Bool} {b : Build} {pmu : Nat → Int} {s : System}
    {k : Nat} (h : allTicks check b pmu s k = true) {j : Nat} (hj : j < k) {t : System}
    (ht : runTicks b pmu s j = .ok t) : check (pmu j) t = true := by
  have hcheck := List.all_eq_true.1 h j (List.mem_range.2 hj)
  rwa [ht] at hcheck

def faultOf {α : Type} (x : Exec α) : Option Fault :=
  match x with
  | .error e => some e
  | .ok _ => none

theorem eq_error_of_faultOf {α : Type} {x : Exec α} {e : Fault} (h : faultOf x = some e) :
    x = .error e := by
  cases x with
  | error e' => rw [Option.some.inj h]
  | ok a => cases h

end PbsLevel2
