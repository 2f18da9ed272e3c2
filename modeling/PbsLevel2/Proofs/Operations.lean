import PbsLevel2.Lib.Agenda
import PbsLevel2.Proofs.Preemption
import PbsLevel2.Source.Scheduler

/-!
# What the operations of a tick do to the task list

Every function a tick calls either keeps all jobs in place, lets the due job leave, or
puts off a block of jobs.  `Valid` is what they all keep.
-/

namespace PbsLevel2

open Lib

/-! ## The agenda of a plan -/

/-- What identifies a task and decides how long it runs. -/
structure Job where
  taskId : Int
  processId : Int
  instructionsReal : Int
  deriving DecidableEq

def PbsTask.job (t : PbsTask) : Job :=
  ⟨t.taskId, t.processId, t.instructionsReal⟩

/-- Free slots belong to process -1. -/
def Idle (processId : Int) : Prop :=
  processId = -1

/-- The abstract view of a plan: its jobs, cut at the current task. -/
def agenda (done todo : List PbsTask) : Agenda Job :=
  ⟨done.map PbsTask.job, todo.map PbsTask.job⟩

abbrev SpacedJobs (todo : List PbsTask) : Prop :=
  Agenda.Spaced Job.processId Idle (todo.map PbsTask.job)

/-- Free slots are those of process -1, and `cur_process` belongs to the current entry. -/
structure Placed (p : PbsPlan) (done todo tail : List PbsTask) : Prop
    extends Layout p done todo tail where
  free : ∀ t ∈ done ++ todo, t.taskId = -1 ↔ t.processId = -1
  process : ∀ cur, p.readCurTask = .ok cur → p.curProcess = processOf cur

structure Valid (p : PbsPlan) (done todo tail : List PbsTask) : Prop
    extends Placed p done todo tail where
  spaced : SpacedJobs todo

def HeadReal (p : PbsPlan) : Prop :=
  ∀ cur, p.readCurTask = .ok cur → cur.taskId ≠ -1

section Valid

variable {p q : PbsPlan} {done todo tail done' todo' tail' rest : List PbsTask} {cur : PbsTask}

theorem job_taskId {t u : PbsTask} (h : t.job = u.job) : t.taskId = u.taskId :=
  congrArg Job.taskId h

theorem job_processId {t u : PbsTask} (h : t.job = u.job) : t.processId = u.processId :=
  congrArg Job.processId h

theorem processOf_job {t u : PbsTask} (h : t.job = u.job) : processOf t = processOf u := by
  rw [processOf, processOf, job_taskId h, job_processId h]

theorem Placed.of_jobs (h : Placed p done todo tail)
    (hq : q.tasks.toList = done' ++ (todo' ++ tail'))
    (hdone : done'.map PbsTask.job = done.map PbsTask.job)
    (htodo : todo'.map PbsTask.job = todo.map PbsTask.job)
    (htail : tail'.map PbsTask.job = tail.map PbsTask.job)
    (hcur : q.curTask = p.curTask) (hindex : q.indexCurTask = p.indexCurTask)
    (hprocess : q.curProcess = p.curProcess) : Placed q done' todo' tail' := by
  have hlen : done'.length = done.length := by
    rw [← List.length_map (f := PbsTask.job), hdone, List.length_map]
  have hahead : (done' ++ todo').map PbsTask.job = (done ++ todo).map PbsTask.job := by
    rw [List.map_append, List.map_append, hdone, htodo]
  have hrest : (todo' ++ tail').map PbsTask.job = (todo ++ tail).map PbsTask.job := by
    rw [List.map_append, List.map_append, htodo, htail]
  have hl : Layout q done' todo' tail' := by
    refine ⟨hq, ?_, ?_, by rw [hcur, hlen, h.cur], by rw [hindex, hlen, h.index]⟩
    · obtain ⟨t, rest, rfl, hid, hpid⟩ := h.terminates
      obtain ⟨t', rest', rfl, hjob, _⟩ := List.map_eq_cons_iff.1 htail
      exact ⟨t', rest', rfl, (job_taskId hjob).trans hid, (job_processId hjob).trans hpid⟩
    · intro t ht
      obtain ⟨u, hu, hjob⟩ := mem_of_map_eq hahead ht
      rw [← job_taskId hjob, ← job_processId hjob]
      exact h.live u hu
  refine ⟨hl, ?_, ?_⟩
  · intro t ht
    obtain ⟨u, hu, hjob⟩ := mem_of_map_eq hahead ht
    rw [← job_taskId hjob, ← job_processId hjob]
    exact h.free u hu
  · intro cur' hread
    obtain ⟨c', r', heq', hc'⟩ := hl.head
    obtain ⟨c, r, heq, hc⟩ := h.head
    rw [hread] at hc'
    cases hc'
    rw [heq', heq] at hrest
    have hjob : cur'.job = c.job := (List.cons.inj hrest).1
    rw [hprocess, h.process c hc, processOf_job hjob]

theorem Placed.of_same (hv : Placed p done todo tail) (htasks : q.tasks = p.tasks)
    (hcur : q.curTask = p.curTask) (hindex : q.indexCurTask = p.indexCurTask)
    (hprocess : q.curProcess = p.curProcess) : Placed q done todo tail :=
  hv.of_jobs (by rw [htasks]; exact hv.tasks) rfl rfl rfl hcur hindex hprocess

theorem Valid.of_same (hv : Valid p done todo tail) (htasks : q.tasks = p.tasks)
    (hcur : q.curTask = p.curTask) (hindex : q.indexCurTask = p.indexCurTask)
    (hprocess : q.curProcess = p.curProcess) : Valid q done todo tail :=
  ⟨hv.toPlaced.of_same htasks hcur hindex hprocess, hv.spaced⟩

theorem Valid.of_placed (h : Valid p done todo tail) (h' : Placed q done' todo' tail')
    (htodo : todo'.map PbsTask.job = todo.map PbsTask.job) : Valid q done' todo' tail' :=
  ⟨h', show SpacedJobs todo' by rw [SpacedJobs, htodo]; exact h.spaced⟩

theorem Valid.of_jobs (h : Valid p done todo tail)
    (hq : q.tasks.toList = done' ++ (todo' ++ tail'))
    (hdone : done'.map PbsTask.job = done.map PbsTask.job)
    (htodo : todo'.map PbsTask.job = todo.map PbsTask.job)
    (htail : tail'.map PbsTask.job = tail.map PbsTask.job)
    (hcur : q.curTask = p.curTask) (hindex : q.indexCurTask = p.indexCurTask)
    (hprocess : q.curProcess = p.curProcess) : Valid q done' todo' tail' :=
  h.of_placed (h.toPlaced.of_jobs hq hdone htodo htail hcur hindex hprocess) htodo

end Valid

/-! ## `update_retired_instructions` -/

def PbsTask.body (t : PbsTask) : PbsTask :=
  { t with instructionsRetiredSlot := 0 }

theorem job_of_body {t u : PbsTask} (h : t.body = u.body) : t.job = u.job :=
  show t.body.job = u.body.job by rw [h]

theorem map_job_of_body {l m : List PbsTask} (h : l.map PbsTask.body = m.map PbsTask.body) :
    l.map PbsTask.job = m.map PbsTask.job :=
  map_of_view h fun _ => rfl

/-- The current task after a credit, which includes its slot if it runs in its own. -/
def credited (r : Int) (cur : PbsTask) : PbsTask :=
  if cur.slotOwner = cur.taskId then creditSlot r (pbsUpdateRetiredInstructionsTask r cur)
  else pbsUpdateRetiredInstructionsTask r cur

@[simp] theorem job_credited (r : Int) (t : PbsTask) : (credited r t).job = t.job := by
  rw [credited, PbsTask.job, PbsTask.job]
  split <;> simp [creditSlot]

@[simp] theorem frame_credited (r : Int) (t : PbsTask) : (credited r t).frame = t.frame := by
  rw [credited]
  split <;> simp

@[simp] theorem instructionsReal_credited (r : Int) (t : PbsTask) :
    (credited r t).instructionsReal = t.instructionsReal :=
  frame_instructionsReal (frame_credited r t)

theorem retiredTask_credited (r : Int) (t : PbsTask) :
    (credited r t).instructionsRetiredTask = t.instructionsRetiredTask + r := by
  rw [credited]
  split <;> simp [creditSlot]

theorem retiredSlot_credited (r : Int) (t : PbsTask) :
    (credited r t).instructionsRetiredSlot =
      t.instructionsRetiredSlot + if t.slotOwner = t.taskId then r else 0 := by
  rw [credited]
  split <;> simp [creditSlot]

theorem state_credited (r : Int) (t : PbsTask) :
    (credited r t).state = (pbsUpdateRetiredInstructionsTask r t).state := by
  rw [credited]
  split <;> rfl

theorem findTaskFrom_some {taskId : Int} {l : List PbsTask} {i k : Nat}
    (h : findTaskFrom taskId l i = .ok (some k)) :
    ∃ j t, k = i + j ∧ l[j]? = some t ∧ t.taskId = taskId := by
  induction l generalizing i with
  | nil => cases h
  | cons u l ih =>
      rw [findTaskFrom] at h
      split at h
      · cases h
      · split at h <;> rename_i hid
        · cases h
          exact ⟨0, u, rfl, rfl, hid⟩
        · obtain ⟨j, t, rfl, ht, hid⟩ := ih h
          exact ⟨j + 1, t, by omega, ht, hid⟩

section Retire

variable {p q : PbsPlan} {done tail rest : List PbsTask} {cur : PbsTask} {r : Int}

theorem updateRetiredInstructions_eq_ok (hr : 0 ≤ r) (h : updateRetiredInstructions r p = .ok q) :
    ∃ p₁ slot p₂, p.modifyTask p.curTask (pbsUpdateRetiredInstructionsTask r) = .ok p₁ ∧
      slotOfCurTask p₁ = .ok slot ∧ p₁.modifyTask slot (creditSlot r) = .ok p₂ ∧
      ProcessIndex p₂.curProcess ∧
      q = { p₂ with
        processes := updateProcess p₂.processes p₂.curProcess (updateRetiredInstructionsProcess r)
        instructionsRetired := p₂.instructionsRetired + r } := by
  rw [updateRetiredInstructions, if_neg (by omega)] at h
  obtain ⟨p₁, h₁, h⟩ := bind_eq_ok.1 h
  obtain ⟨slot, hslot, h⟩ := bind_eq_ok.1 h
  obtain ⟨p₂, h₂, h⟩ := bind_eq_ok.1 h
  obtain ⟨p₃, h₃, h⟩ := bind_eq_ok.1 h
  obtain ⟨hi, rfl⟩ := modifyProcess_eq_ok h₃
  exact ⟨p₁, slot, p₂, h₁, hslot, h₂, hi, (Except.ok.inj h).symm⟩

theorem slotOfCurTask_eq_ok {slot : Nat} (hcur : p.readCurTask = .ok cur)
    (h : slotOfCurTask p = .ok slot) :
    if cur.slotOwner = cur.taskId then slot = p.curTask
    else ∃ t, p.tasks.toList[slot]? = some t ∧ t.taskId = cur.slotOwner := by
  rw [slotOfCurTask, hcur, ok_bind] at h
  split at h <;> rename_i hown
  · rw [if_pos hown]
    exact (Except.ok.inj h).symm
  · rw [if_neg hown]
    obtain ⟨k, hk, h⟩ := bind_eq_ok.1 h
    cases k with
    | none => cases h
    | some k =>
        obtain rfl : k = slot := Except.ok.inj h
        obtain ⟨j, t, hj, ht, hid⟩ := findTaskFrom_some hk
        rw [Nat.zero_add] at hj
        exact ⟨t, hj ▸ ht, hid⟩

theorem set_elsewhere {α : Type} {view : PbsTask → α} {done rest tail : List PbsTask}
    {u t t' : PbsTask} {i : Nat} (ht : (done ++ u :: (rest ++ tail))[i]? = some t)
    (hne : i ≠ done.length) (hview : view t' = view t) :
    ∃ done' rest' tail', (done ++ u :: (rest ++ tail)).set i t' = done' ++ u :: (rest' ++ tail') ∧
      done'.map view = done.map view ∧ rest'.map view = rest.map view ∧
      tail'.map view = tail.map view := by
  have hmap := map_set_of_eq ht hview
  rw [List.map_append, List.map_cons, List.map_append] at hmap
  obtain ⟨done', rest₁, hsplit, hdone, hrest₁⟩ := List.map_eq_append_iff.1 hmap
  obtain ⟨u', rest₂, rfl, _, hrest₂⟩ := List.map_eq_cons_iff.1 hrest₁
  obtain ⟨rest', tail', rfl, hrest, htail⟩ := List.map_eq_append_iff.1 hrest₂
  have hlen : done'.length = done.length := by
    rw [← List.length_map (f := view), hdone, List.length_map]
  have hget : ((done ++ u :: (rest ++ tail)).set i t')[done.length]? = some u := by
    rw [List.getElem?_set_ne hne, List.getElem?_append_right (Nat.le_refl _), Nat.sub_self]
    rfl
  rw [hsplit, ← hlen, List.getElem?_append_right (Nat.le_refl _), Nat.sub_self] at hget
  obtain rfl := Option.some.inj hget
  exact ⟨done', rest', tail', hsplit, hdone, hrest, htail⟩

/-- Whatever slot the lookup finds, the counters of the current task are credited, and of
the other tasks at most one slot counter. -/
theorem Layout.retire (hl : Layout p done (cur :: rest) tail) (hr : 0 ≤ r)
    (h : updateRetiredInstructions r p = .ok q) :
    ∃ done' rest' tail',
      q.tasks.toList = done' ++ (credited r cur :: rest' ++ tail') ∧
      done'.map PbsTask.body = done.map PbsTask.body ∧
      rest'.map PbsTask.body = rest.map PbsTask.body ∧
      tail'.map PbsTask.body = tail.map PbsTask.body ∧
      ProcessIndex p.curProcess ∧
      q = { p with
        tasks := q.tasks
        processes := updateProcess p.processes p.curProcess (updateRetiredInstructionsProcess r)
        instructionsRetired := p.instructionsRetired + r } := by
  set u := pbsUpdateRetiredInstructionsTask r cur with hu
  obtain ⟨p₁, slot, p₂, h₁, hslot, h₂, hi, rfl⟩ := updateRetiredInstructions_eq_ok hr h
  have hmod : p.modifyTask p.curTask (pbsUpdateRetiredInstructionsTask r) =
      .ok (p.withTasks (done ++ u :: (rest ++ tail))) := by
    rw [hl.cur]
    exact modifyTask_joint hl.tasks_cons _
  obtain rfl := Except.ok.inj (hmod.symm.trans h₁)
  have hl₁ := toList_withTasks_joint hl.tasks_cons u
  have hslot := slotOfCurTask_eq_ok (readCurTask_joint hl₁ hl.cur) hslot
  have howner : u.slotOwner = cur.slotOwner ∧ u.taskId = cur.taskId := by simp [hu]
  rw [howner.1, howner.2] at hslot
  obtain ⟨t, ht, rfl, hl₂⟩ := modifyTask_eq_ok h₂
  by_cases hown : cur.slotOwner = cur.taskId
  · rw [if_pos hown] at hslot
    obtain rfl : slot = done.length := hslot.trans hl.cur
    obtain rfl : t = u := by
      rw [hl₁, List.getElem?_append_right (Nat.le_refl _), Nat.sub_self] at ht
      exact (Option.some.inj ht).symm
    refine ⟨done, rest, tail, hl₂.trans ?_, rfl, rfl, rfl, hi, rfl⟩
    rw [hl₁, List.set_append_right _ _ (Nat.le_refl _), Nat.sub_self, credited, if_pos hown]
    rfl
  · rw [if_neg hown] at hslot
    obtain ⟨t', ht', hid⟩ := hslot
    obtain rfl := Option.some.inj (ht.symm.trans ht')
    -- the slot found is not the current task's
    have hne : slot ≠ done.length := by
      rintro rfl
      rw [hl₁, List.getElem?_append_right (Nat.le_refl _), Nat.sub_self] at ht
      cases ht
      exact hown (hid.symm.trans howner.2)
    rw [hl₁] at ht
    obtain ⟨done', rest', tail', hset, hd, hrest, htail⟩ :=
      set_elsewhere ht hne (show (creditSlot r t).body = t.body from rfl)
    refine ⟨done', rest', tail', ?_, hd, hrest, htail, hi, rfl⟩
    rw [credited, if_neg hown, ← hu]
    exact hl₂.trans ((congrArg (List.set · slot (creditSlot r t)) hl₁).trans hset)

theorem Placed.retire_todo {todo : List PbsTask} (hv : Placed p done todo tail) (hr : 0 ≤ r)
    (h : updateRetiredInstructions r p = .ok q) : ∃ cur rest, todo = cur :: rest := by
  obtain ⟨cur, rest, heq, hcur⟩ := hv.head
  cases todo with
  | cons u todo => exact ⟨u, todo, rfl⟩
  | nil =>
      exfalso
      obtain ⟨t, rest, rfl, hid, hpid⟩ := hv.terminates
      obtain ⟨rfl, _⟩ := List.cons.inj heq
      have hprocess := hv.process _ hcur
      rw [processOf, if_pos (by omega), hpid] at hprocess
      obtain ⟨p₁, slot, p₂, h₁, _, h₂, hi, _⟩ := updateRetiredInstructions_eq_ok hr h
      obtain ⟨_, _, rfl, _⟩ := modifyTask_eq_ok h₁
      obtain ⟨_, _, rfl, _⟩ := modifyTask_eq_ok h₂
      have hindex : 0 ≤ p.curProcess := hi.1
      omega

theorem Placed.credit (hv : Placed p done (cur :: rest) tail) (hr : 0 ≤ r)
    (h : updateRetiredInstructions r p = .ok q) :
    ∃ done' rest' tail', Placed q done' (credited r cur :: rest') tail' ∧
      done'.map PbsTask.body = done.map PbsTask.body ∧
      rest'.map PbsTask.body = rest.map PbsTask.body ∧
      ProcessIndex p.curProcess ∧
      q = { p with
        tasks := q.tasks
        processes := updateProcess p.processes p.curProcess (updateRetiredInstructionsProcess r)
        instructionsRetired := p.instructionsRetired + r } := by
  obtain ⟨done', rest', tail', hq, hd, hrest, htail, hi, heq⟩ := hv.toLayout.retire hr h
  have htodo : (credited r cur :: rest').map PbsTask.job = (cur :: rest).map PbsTask.job := by
    rw [List.map_cons, List.map_cons, job_credited, map_job_of_body hrest]
  exact ⟨done', rest', tail', hv.of_jobs hq (map_job_of_body hd) htodo (map_job_of_body htail)
    (by rw [heq]) (by rw [heq]) (by rw [heq]), hd, hrest, hi, heq⟩

theorem Valid.credit (hv : Valid p done (cur :: rest) tail) (hr : 0 ≤ r)
    (h : updateRetiredInstructions r p = .ok q) :
    ∃ done' rest' tail', Valid q done' (credited r cur :: rest') tail' ∧
      done'.map PbsTask.body = done.map PbsTask.body ∧
      rest'.map PbsTask.body = rest.map PbsTask.body ∧
      ProcessIndex p.curProcess ∧
      q = { p with
        tasks := q.tasks
        processes := updateProcess p.processes p.curProcess (updateRetiredInstructionsProcess r)
        instructionsRetired := p.instructionsRetired + r } := by
  obtain ⟨done', rest', tail', hv', hd, hrest, hi, heq⟩ := hv.toPlaced.credit hr h
  refine ⟨done', rest', tail', ⟨hv', ?_⟩, hd, hrest, hi, heq⟩
  rw [SpacedJobs, List.map_cons, job_credited, map_job_of_body hrest, ← List.map_cons]
  exact hv.spaced

end Retire

/-! ## The signals -/

/-- What `reschedule` does to one task. -/
def rescale (stretchFactor targetPid : Int) (t : PbsTask) : PbsTask :=
  if t.processId = targetPid then
    { t with instructionsPlanned := (t.instructionsPlanned * stretchFactor).tdiv 100 }
  else t

@[simp] theorem job_rescale (factor pid : Int) (t : PbsTask) :
    (rescale factor pid t).job = t.job := by
  rw [rescale]
  split <;> rfl

@[simp] theorem map_job_rescale (factor pid : Int) (l : List PbsTask) :
    (l.map (rescale factor pid)).map PbsTask.job = l.map PbsTask.job := by
  rw [List.map_map]
  exact List.map_congr_left fun t _ => job_rescale factor pid t

def PbsPlan.rescheduled (p : PbsPlan) (done todo tail : List PbsTask) (factor pid : Int) :
    PbsPlan :=
  { p.withTasks (done ++ (todo.map (rescale factor pid) ++ tail)) with
    processes := updateProcess p.processes p.curProcess fun q => { q with lateness := 0 }
    lateness := 0 }

section Signal

variable {p q : PbsPlan} {done todo tail : List PbsTask} {b : Build} {s s' : System}

theorem rescheduleFrom_eq (factor pid : Int) (hlive : ∀ t ∈ todo, t.taskId ≠ -2)
    (hterm : Terminates tail) {pre : List PbsTask} (n : Nat) (hn : todo.length < n)
    (h : p.tasks.toList = pre ++ (todo ++ tail)) :
    rescheduleFrom factor pid n pre.length p =
      .ok (p.withTasks (pre ++ (todo.map (rescale factor pid) ++ tail))) := by
  induction todo generalizing pre n p with
  | nil =>
      obtain ⟨t, rest, rfl, hid, _⟩ := hterm
      obtain ⟨n, rfl⟩ : ∃ m, n = m + 1 := ⟨n - 1, by simp at hn; omega⟩
      rw [List.nil_append] at h
      rw [rescheduleFrom, readTask_joint h, ok_bind, if_pos hid, List.map_nil, List.nil_append,
        ← h, withTasks_toList]
      rfl
  | cons t todo ih =>
      obtain ⟨n, rfl⟩ : ∃ m, n = m + 1 := ⟨n - 1, by simp at hn; omega⟩
      have hid : t.taskId ≠ -2 := hlive t (by simp)
      have hlive' : ∀ u ∈ todo, u.taskId ≠ -2 := fun u hu => hlive u (by simp [hu])
      have hn' : todo.length < n := by simpa using hn
      have h' : p.tasks.toList = pre ++ t :: (todo ++ tail) := h
      rw [rescheduleFrom, readTask_joint h', ok_bind, if_neg hid, List.map_cons, rescale]
      split
      · dsimp only
        rw [writeTask_joint h', ok_bind]
        have hnext := (toList_withTasks_joint h'
          { t with instructionsPlanned := (t.instructionsPlanned * factor).tdiv 100 }).trans
          (List.append_cons _ _ _)
        have hrest := ih hlive' n hn' hnext
        rw [List.length_append, List.length_singleton] at hrest
        rw [hrest]
        simp only [PbsPlan.withTasks, List.append_assoc, List.cons_append, List.nil_append]
      · have hnext : p.tasks.toList = (pre ++ [t]) ++ (todo ++ tail) := by rw [h']; simp
        have hrest := ih hlive' n hn' hnext
        rw [List.length_append, List.length_singleton] at hrest
        rw [hrest]
        simp only [List.append_assoc, List.cons_append, List.nil_append]

theorem Layout.rescheduleFrom (hl : Layout p done todo tail) (factor pid : Int) :
    rescheduleFrom factor pid (maxNumberTasksInPlan - p.curTask) p.curTask p =
      .ok (p.withTasks (done ++ (todo.map (rescale factor pid) ++ tail))) := by
  have hlen : p.tasks.toList.length = maxNumberTasksInPlan := p.tasks.length_toList
  obtain ⟨t, rest, rfl, _⟩ := id hl.terminates
  rw [hl.tasks] at hlen
  simp only [List.length_append, List.length_cons] at hlen
  rw [hl.cur]
  exact rescheduleFrom_eq factor pid (fun t ht => (hl.live t (by simp [ht])).1) hl.terminates _
    (by omega) hl.tasks

theorem reschedule_eq_ok (hl : Layout p done todo tail) {signal : Check} {pid : Int}
    (h : reschedule b p signal pid = .ok q) :
    ProcessIndex p.curProcess ∧ q = p.rescheduled done todo tail
      (if signal = .t2 then stretchConstant else shrinkConstant) pid := by
  rw [reschedule, hl.rescheduleFrom, ok_bind] at h
  obtain ⟨p₁, h₁, h⟩ := bind_eq_ok.1 h
  obtain ⟨_, _, h⟩ := bind_eq_ok.1 h
  cases h
  obtain ⟨hi, rfl⟩ := modifyProcess_eq_ok h₁
  exact ⟨hi, rfl⟩

theorem predictionFailuresCaused_addSignal (sig : PredictionFailureSignal) (b : SignalBuffer) :
    (addSignal sig b).predictionFailuresCaused = b.predictionFailuresCaused + 1 := by
  unfold addSignal
  dsimp only
  split <;> rfl

theorem Layout.stressed (hl : Layout p done todo tail) (stress : Int) :
    Layout { p with stress := stress } done todo tail :=
  hl.of_same rfl rfl rfl

theorem Placed.stressed (hv : Placed p done todo tail) (stress : Int) :
    Placed { p with stress := stress } done todo tail :=
  hv.of_same rfl rfl rfl rfl

theorem Valid.stressed (hv : Valid p done todo tail) (stress : Int) :
    Valid { p with stress := stress } done todo tail :=
  ⟨hv.toPlaced.stressed stress, hv.spaced⟩

theorem signalT2_eq_ok (hl : Layout s.plan done todo tail) (h : signalT2 b s = .ok s') :
    ProcessIndex s.plan.curProcess ∧
    s'.plan = PbsPlan.rescheduled { s.plan with stress := stressReset } done todo tail
      stretchConstant (processAt s.plan.processes s.plan.curProcess).processId ∧
    s'.signals.predictionFailuresCaused = s.signals.predictionFailuresCaused + 1 := by
  obtain ⟨cur, _, h⟩ := bind_eq_ok.1 h
  obtain ⟨process, hprocess, h⟩ := bind_eq_ok.1 h
  obtain ⟨p, hp, h⟩ := bind_eq_ok.1 h
  obtain ⟨hi, rfl⟩ := reschedule_eq_ok (hl.stressed _) hp
  rw [readProcess_eq hi] at hprocess
  cases hprocess
  cases h
  exact ⟨hi, rfl, predictionFailuresCaused_addSignal _ _⟩

/-- Tm2 shrinks the tasks of process 0. -/
theorem signalTm2_eq_ok (hl : Layout s.plan done todo tail) (h : signalTm2 b s = .ok s') :
    ProcessIndex s.plan.curProcess ∧
    s'.plan = PbsPlan.rescheduled { s.plan with stress := stressReset } done todo tail
      shrinkConstant 0 ∧
    s'.signals.predictionFailuresCaused = s.signals.predictionFailuresCaused + 1 := by
  obtain ⟨cur, _, h⟩ := bind_eq_ok.1 h
  obtain ⟨process, _, h⟩ := bind_eq_ok.1 h
  obtain ⟨p, hp, h⟩ := bind_eq_ok.1 h
  obtain ⟨hi, rfl⟩ := reschedule_eq_ok (hl.stressed _) hp
  cases h
  exact ⟨hi, rfl, predictionFailuresCaused_addSignal _ _⟩

theorem Layout.rescheduled_tasks (hl : Layout p done todo tail) (factor pid : Int) :
    (p.rescheduled done todo tail factor pid).tasks.toList =
      done ++ (todo.map (rescale factor pid) ++ tail) := by
  refine toList_withTasks (p := p) ?_
  have h : p.tasks.toList.length = maxNumberTasksInPlan := p.tasks.length_toList
  rw [hl.tasks] at h
  simpa using h

theorem Placed.rescheduled (hv : Placed p done todo tail) (factor pid : Int) :
    Placed (p.rescheduled done todo tail factor pid) done (todo.map (rescale factor pid)) tail :=
  hv.of_jobs (hv.toLayout.rescheduled_tasks factor pid) rfl (map_job_rescale _ _ _) rfl rfl rfl rfl

theorem Valid.rescheduled (hv : Valid p done todo tail) (factor pid : Int) :
    Valid (p.rescheduled done todo tail factor pid) done (todo.map (rescale factor pid)) tail :=
  hv.of_jobs (hv.toLayout.rescheduled_tasks factor pid) rfl (map_job_rescale _ _ _) rfl rfl rfl rfl

end Signal

end PbsLevel2
