import PbsLevel2.Lib.Agrees
import PbsLevel2.Proofs.Assertions
import PbsLevel2.Proofs.Runs

/-!
# Plans a run cannot tell apart

What stands behind the ids of the terminator, and in the entries of the process table that
no task refers to, is not part of the plan.  Two plans that differ there only are taken
through every function of a tick side by side.
-/

namespace PbsLevel2

open Lib

/-! ## What is compared -/

/-- C gives no meaning to what follows this fault. -/
def Fault.Undefined (e : Fault) : Prop :=
  ∀ a, e ≠ .assertion a

/-- The same fault; behind undefined behaviour nothing is compared. -/
def FaultsAlike (e e' : Fault) : Prop :=
  e = e' ∨ e.Undefined ∧ e'.Undefined

theorem FaultsAlike.refl (e : Fault) : FaultsAlike e e :=
  .inl rfl

/-- An entry in front of the terminator, a free slot or a task of one of the first `n`
processes. -/
structure LiveEntry (n : Int) (t : PbsTask) : Prop where
  taskId : t.taskId ≠ -2
  processId : t.processId ≠ -2
  listed : t.taskId = -1 ∨ 0 ≤ t.processId ∧ t.processId < n

/-- `p` and `q` agree in everything but the entries behind `live`, which both start with a
terminator, and the process table from entry `numProcesses` on. -/
structure Twins (live : List PbsTask) (p q : PbsPlan) : Prop where
  fields : q = { p with tasks := q.tasks, processes := q.processes }
  left : ∃ tail, p.tasks.toList = live ++ tail ∧ Terminates tail
  right : ∃ tail, q.tasks.toList = live ++ tail ∧ Terminates tail
  entries : ∀ t ∈ live, LiveEntry p.numProcesses t
  cur : p.curTask ≤ live.length
  index : p.indexCurTask = p.curTask
  processes : ∀ i, 0 ≤ i → i < p.numProcesses →
    processAt p.processes i = processAt q.processes i
  table : p.numProcesses ≤ maxNumberProcesses

/-- Two plans that agree on every field the scheduler reads. -/
def Alike (p q : PbsPlan) : Prop :=
  ∃ live, Twins live p q

/-- A task, and no free slot, is current. -/
def Busy (p : PbsPlan) : Prop :=
  ∃ cur, p.readCurTask = .ok cur ∧ cur.taskId ≠ -2 ∧ cur.taskId ≠ -1 ∧
    p.curProcess = cur.processId

def KeepsIds (f : PbsTask → PbsTask) : Prop :=
  ∀ t, (f t).taskId = t.taskId ∧ (f t).processId = t.processId

theorem keepsIds_retire (r : Int) : KeepsIds (pbsUpdateRetiredInstructionsTask r) :=
  fun t => ⟨retire_taskId r t, retire_processId r t⟩

theorem keepsIds_creditSlot (r : Int) : KeepsIds (creditSlot r) :=
  fun _ => ⟨rfl, rfl⟩

theorem keepsIds_changeTaskState (state : TaskState) : KeepsIds (changeTaskState · state) :=
  fun _ => ⟨rfl, rfl⟩

theorem keepsIds_rescale (factor pid : Int) : KeepsIds (rescale factor pid) :=
  fun t => ⟨job_taskId (job_rescale factor pid t), job_processId (job_rescale factor pid t)⟩

theorem LiveEntry.update {n : Int} {t : PbsTask} (h : LiveEntry n t) {f : PbsTask → PbsTask}
    (hf : KeepsIds f) : LiveEntry n (f t) := by
  obtain ⟨hid, hpid⟩ := hf t
  exact ⟨by rw [hid]; exact h.taskId, by rw [hpid]; exact h.processId,
    by rw [hid, hpid]; exact h.listed⟩

theorem LiveEntry.of_job {n : Int} {t u : PbsTask} (h : LiveEntry n t) (hjob : t.job = u.job) :
    LiveEntry n u := by
  have hid := job_taskId hjob
  have hpid := job_processId hjob
  exact ⟨hid ▸ h.taskId, hpid ▸ h.processId, by rw [← hid, ← hpid]; exact h.listed⟩

namespace Twins

variable {live : List PbsTask} {p q : PbsPlan} {cur : PbsTask}

/-! ## Accesses -/

theorem left_getElem? (h : Twins live p q) {i : Nat} (hi : i < live.length) :
    p.tasks.toList[i]? = live[i]? := by
  obtain ⟨tail, htasks, _⟩ := h.left
  rw [htasks, List.getElem?_append_left hi]

theorem right_getElem? (h : Twins live p q) {i : Nat} (hi : i < live.length) :
    q.tasks.toList[i]? = live[i]? := by
  obtain ⟨tail, htasks, _⟩ := h.right
  rw [htasks, List.getElem?_append_left hi]

theorem readTask_eq (h : Twins live p q) {i : Nat} (hi : i < live.length) :
    p.readTask i = q.readTask i := by
  have hlive : live[i]? = some live[i] := List.getElem?_eq_getElem hi
  rw [readTask_eq_ok.2 ((h.left_getElem? hi).trans hlive),
    readTask_eq_ok.2 ((h.right_getElem? hi).trans hlive)]

theorem curTask_eq (h : Twins live p q) : q.curTask = p.curTask := by
  rw [h.fields]

theorem of_readCurTask (h : Twins live p q) (hcur : p.readCurTask = .ok cur)
    (hne : cur.taskId ≠ -2) : live[p.curTask]? = some cur := by
  have hget := readTask_eq_ok.1 hcur
  rcases Nat.lt_or_ge p.curTask live.length with hlt | hge
  · rw [← h.left_getElem? hlt, hget]
  · exfalso
    obtain ⟨tail, htasks, t, rest, rfl, hid, _⟩ := h.left
    rw [htasks, Nat.le_antisymm h.cur hge, List.getElem?_append_right (Nat.le_refl _),
      Nat.sub_self] at hget
    exact hne (Option.some.inj hget ▸ hid)

theorem cur_lt (h : Twins live p q) (hcur : p.readCurTask = .ok cur)
    (hne : cur.taskId ≠ -2) : p.curTask < live.length :=
  (List.getElem?_eq_some_iff.1 (h.of_readCurTask hcur hne)).1

theorem readCurTask_eq (h : Twins live p q) (hcur : p.readCurTask = .ok cur)
    (hne : cur.taskId ≠ -2) : p.readCurTask = q.readCurTask := by
  rw [PbsPlan.readCurTask, PbsPlan.readCurTask, h.curTask_eq]
  exact h.readTask_eq (h.cur_lt hcur hne)

theorem withTasks (h : Twins live p q) {live' tail tail' : List PbsTask}
    (hlen : live.length + tail.length = maxNumberTasksInPlan)
    (hlen' : live.length + tail'.length = maxNumberTasksInPlan) (ht : Terminates tail)
    (ht' : Terminates tail') (hsame : live'.length = live.length)
    (hentries : ∀ t ∈ live', LiveEntry p.numProcesses t) :
    Twins live' (p.withTasks (live' ++ tail)) (q.withTasks (live' ++ tail')) where
  fields := by rw [h.fields]; rfl
  left := ⟨tail, toList_withTasks (by rw [List.length_append, hsame, hlen]), ht⟩
  right := ⟨tail', toList_withTasks (by rw [List.length_append, hsame, hlen']), ht'⟩
  entries := hentries
  cur := hsame ▸ h.cur
  index := h.index
  processes := h.processes
  table := h.table

theorem length_tasks {l m : List PbsTask} {r : PbsPlan} (h : r.tasks.toList = l ++ m) :
    l.length + m.length = maxNumberTasksInPlan := by
  rw [← List.length_append, ← h]
  exact r.tasks.length_toList

theorem modifyTask (h : Twins live p q) {i : Nat} (hi : i ≤ live.length) {f : PbsTask → PbsTask}
    (hf : KeepsIds f) : Agrees FaultsAlike Alike (p.modifyTask i f) (q.modifyTask i f) := by
  obtain ⟨tail, hp, ht⟩ := h.left
  obtain ⟨tail', hq, ht'⟩ := h.right
  have hlen := length_tasks hp
  have hlen' := length_tasks hq
  rcases Nat.lt_or_eq_of_le hi with hlt | rfl
  · -- a live entry
    have hsplit : ∀ l, live ++ l = live.take i ++ live[i] :: (live.drop (i + 1) ++ l) := by
      intro l
      rw [← List.cons_append, ← List.drop_eq_getElem_cons hlt, ← List.append_assoc,
        List.take_append_drop]
    have hmp := modifyTask_joint (hp.trans (hsplit tail)) f
    have hmq := modifyTask_joint (hq.trans (hsplit tail')) f
    rw [List.length_take_of_le hi, ← List.cons_append, ← List.append_assoc] at hmp hmq
    rw [hmp, hmq]
    refine .ok ⟨_, h.withTasks hlen hlen' ht ht' (by simp; omega) fun t ht => ?_⟩
    rcases List.mem_append.1 ht with ht | ht
    · exact h.entries t (List.mem_of_mem_take ht)
    · rcases List.mem_cons.1 ht with rfl | ht
      · exact (h.entries _ (List.getElem_mem hlt)).update hf
      · exact h.entries t (List.mem_of_mem_drop ht)
  · -- the terminator
    obtain ⟨t, rest, rfl, hid, hpid⟩ := ht
    obtain ⟨t', rest', rfl, hid', hpid'⟩ := ht'
    rw [modifyTask_joint hp, modifyTask_joint hq]
    refine .ok ⟨live, h.withTasks hlen hlen' ?_ ?_ rfl h.entries⟩
    · exact ⟨f t, rest, rfl, (hf t).1.trans hid, (hf t).2.trans hpid⟩
    · exact ⟨f t', rest', rfl, (hf t').1.trans hid', (hf t').2.trans hpid'⟩

theorem processIndex (h : Twins live p q) {i : Int} (hi : 0 ≤ i ∧ i < p.numProcesses) :
    ProcessIndex i :=
  ⟨hi.1, by have := h.table; omega⟩

theorem readProcess_eq (h : Twins live p q) {i : Int} (hi : 0 ≤ i ∧ i < p.numProcesses) :
    p.readProcess i = q.readProcess i := by
  rw [PbsLevel2.readProcess_eq (h.processIndex hi), PbsLevel2.readProcess_eq (h.processIndex hi),
    h.processes i hi.1 hi.2]

theorem modifyProcess (h : Twins live p q) {i : Int} (hi : 0 ≤ i ∧ i < p.numProcesses)
    (f : PbsProcess → PbsProcess) :
    Agrees FaultsAlike (Twins live) (p.modifyProcess i f) (q.modifyProcess i f) := by
  have hindex := h.processIndex hi
  rw [modifyProcess_eq hindex, modifyProcess_eq hindex]
  refine .ok { h with fields := ?_, processes := fun j hj hlt => ?_ }
  · rw [h.fields]
  · rw [processAt_updateProcess _ _ hindex, processAt_updateProcess _ _ hindex,
      h.processes j hj hlt, h.processes i hi.1 hi.2]

/-! ## The current task and its slot -/

theorem curProcess_listed (h : Twins live p q) (hb : Busy p) :
    0 ≤ p.curProcess ∧ p.curProcess < p.numProcesses := by
  obtain ⟨cur, hcur, hne, hreal, hprocess⟩ := hb
  have hmem := List.mem_of_getElem? (h.of_readCurTask hcur hne)
  rw [hprocess]
  exact (h.entries cur hmem).listed.resolve_left hreal

theorem modifyCurProcess (h : Twins live p q) (hb : Busy p) (f : PbsProcess → PbsProcess) :
    Agrees FaultsAlike (Twins live) (p.modifyProcess p.curProcess f)
      (q.modifyProcess q.curProcess f) := by
  have hprocess : q.curProcess = p.curProcess := by rw [h.fields]
  rw [hprocess]
  exact h.modifyProcess (h.curProcess_listed hb) f

theorem findTaskFrom_eq (live : List PbsTask) (taskId : Int) {tail tail' : List PbsTask}
    (ht : Terminates tail) (ht' : Terminates tail') (i : Nat) :
    findTaskFrom taskId (live ++ tail) i = findTaskFrom taskId (live ++ tail') i ∧
      ∀ k, findTaskFrom taskId (live ++ tail) i = .ok (some k) → k < i + live.length := by
  induction live generalizing i with
  | nil =>
      obtain ⟨t, rest, rfl, hid, _⟩ := ht
      obtain ⟨t', rest', rfl, hid', _⟩ := ht'
      rw [List.nil_append, List.nil_append, findTaskFrom, findTaskFrom, if_pos hid, if_pos hid']
      exact ⟨rfl, fun k hk => by cases hk⟩
  | cons u live ih =>
      obtain ⟨heq, hlt⟩ := ih (i + 1)
      rw [List.cons_append, List.cons_append, findTaskFrom, findTaskFrom]
      split
      · exact ⟨rfl, fun k hk => by cases hk⟩
      · split
        · refine ⟨rfl, fun k hk => ?_⟩
          obtain rfl : i = k := Option.some.inj (Except.ok.inj hk)
          simp
        · refine ⟨heq, fun k hk => ?_⟩
          have := hlt k hk
          rw [List.length_cons]
          omega

theorem slotOfCurTask_eq (h : Twins live p q) (hb : Busy p) :
    slotOfCurTask p = slotOfCurTask q ∧ ∀ k, slotOfCurTask p = .ok k → k < live.length := by
  obtain ⟨cur, hcur, hne, _⟩ := hb
  obtain ⟨tail, hp, ht⟩ := h.left
  obtain ⟨tail', hq, ht'⟩ := h.right
  obtain ⟨hfind, hlt⟩ := findTaskFrom_eq live cur.slotOwner ht ht' 0
  rw [slotOfCurTask, slotOfCurTask, ← h.readCurTask_eq hcur hne, hcur, ok_bind, ok_bind,
    h.curTask_eq, findTaskWithTaskId, findTaskWithTaskId, hp, hq, ← hfind]
  refine ⟨rfl, fun k hk => ?_⟩
  split at hk
  · obtain rfl : p.curTask = k := Except.ok.inj hk
    exact h.cur_lt hcur hne
  · obtain ⟨found, hfound, hk⟩ := bind_eq_ok.1 hk
    cases found with
    | none => cases hk
    | some j =>
        obtain rfl : j = k := Except.ok.inj hk
        simpa using hlt j hfound

end Twins

/-! ## A current task stays current -/

namespace Busy

variable {p p' : PbsPlan}

theorem modifyTask (hb : Busy p) {i : Nat} {f : PbsTask → PbsTask} (hf : KeepsIds f)
    (h : p.modifyTask i f = .ok p') : Busy p' := by
  obtain ⟨cur, hcur, hne, hreal, hprocess⟩ := hb
  obtain ⟨t, ht, rfl, htasks⟩ := modifyTask_eq_ok h
  have hget := readTask_eq_ok.1 hcur
  by_cases hi : i = p.curTask
  · subst hi
    obtain rfl : t = cur := Option.some.inj (ht.symm.trans hget)
    obtain ⟨hid, hpid⟩ := hf t
    refine ⟨f t, readTask_eq_ok.2 ?_, hid ▸ hne, hid ▸ hreal, hprocess.trans hpid.symm⟩
    rw [htasks]
    exact List.getElem?_set_self (List.getElem?_eq_some_iff.1 ht).1
  · refine ⟨cur, readTask_eq_ok.2 ?_, hne, hreal, hprocess⟩
    rw [htasks]
    exact (List.getElem?_set_ne hi).trans hget

theorem modifyProcess (hb : Busy p) {i : Int} {f : PbsProcess → PbsProcess}
    (h : p.modifyProcess i f = .ok p') : Busy p' := by
  obtain ⟨_, rfl⟩ := modifyProcess_eq_ok h
  exact hb

theorem bookFinishedTask (hb : Busy p) {surplus : Int}
    (h : bookFinishedTask surplus p = .ok p') : Busy p' := by
  obtain ⟨cur, _, h⟩ := bind_eq_ok.1 h
  obtain ⟨p₁, h₁, h⟩ := bind_eq_ok.1 h
  obtain ⟨p₂, h₂, h⟩ := bind_eq_ok.1 h
  obtain rfl := Except.ok.inj h
  have hb₁ : Busy p₁ := hb.modifyProcess h₁
  have hbooked : Busy { updateNodeLateness (cur.instructionsReal - cur.instructionsPlanned) p₁ with
      instructionsRetired := p₁.instructionsRetired - surplus } := hb₁
  have hb₂ := hbooked.modifyProcess h₂
  rw [relieveStress_eq]
  exact hb₂

theorem of_ids (hb : Busy p) (hids : p'.tasks.toList.map (fun t => (t.taskId, t.processId)) =
    p.tasks.toList.map fun t => (t.taskId, t.processId)) (hcur : p'.curTask = p.curTask)
    (hprocess : p'.curProcess = p.curProcess) : Busy p' := by
  obtain ⟨cur, hread, hne, hreal, hcurProcess⟩ := hb
  have hget := congrArg (·[p.curTask]?) hids
  simp only [List.getElem?_map, readTask_eq_ok.1 hread, Option.map_some] at hget
  obtain ⟨t, ht, heq⟩ := Option.map_eq_some_iff.1 hget
  obtain ⟨hid, hpid⟩ := Prod.mk.inj heq
  refine ⟨t, readTask_eq_ok.2 (hcur ▸ ht), hid ▸ hne, hid ▸ hreal, ?_⟩
  rw [hprocess, hcurProcess, hpid]

end Busy

/-! ## `update_retired_instructions` -/

section Credit

variable {live : List PbsTask} {p q : PbsPlan} {r : Int}

theorem Twins.updateRetiredInstructions_neg_agrees (h : Twins live p q) (hr : r < 0) :
    Agrees FaultsAlike Alike (updateRetiredInstructions r p) (updateRetiredInstructions r q) := by
  rw [PbsLevel2.updateRetiredInstructions_neg hr, PbsLevel2.updateRetiredInstructions_neg hr]
  exact .ok ⟨live, { h with fields := by rw [h.fields] }⟩

theorem Twins.updateRetiredInstructions_agrees (h : Twins live p q) (hb : Busy p) :
    Agrees FaultsAlike Alike (updateRetiredInstructions r p) (updateRetiredInstructions r q) := by
  rcases Int.lt_or_le r 0 with hr | hr
  · exact h.updateRetiredInstructions_neg_agrees hr
  · rw [PbsLevel2.updateRetiredInstructions, PbsLevel2.updateRetiredInstructions,
      if_neg (by omega), if_neg (by omega), h.curTask_eq]
    refine (h.modifyTask h.cur (keepsIds_retire r)).bind ?_
    rintro p₁ q₁ hp₁ - ⟨live₁, h₁⟩
    have hb₁ := hb.modifyTask (keepsIds_retire r) hp₁
    obtain ⟨hslot, hlt⟩ := h₁.slotOfCurTask_eq hb₁
    refine Agrees.bind_of_eq FaultsAlike.refl hslot fun slot hk => ?_
    refine (h₁.modifyTask (hlt slot hk).le (keepsIds_creditSlot r)).bind ?_
    rintro p₂ q₂ hp₂ - ⟨live₂, h₂⟩
    have hb₂ := hb₁.modifyTask (keepsIds_creditSlot r) hp₂
    refine (h₂.modifyCurProcess hb₂ _).bind ?_
    rintro p₃ q₃ - - h₃
    exact .ok ⟨live₂, { h₃ with fields := by rw [h₃.fields] }⟩

/-- At the terminator a credit leaves the process table. -/
theorem credit_undefined (hr : 0 ≤ r) (hprocess : p.curProcess < 0) :
    ∃ e, updateRetiredInstructions r p = .error e ∧ e.Undefined := by
  cases hcredit : updateRetiredInstructions r p with
  | ok p' =>
      obtain ⟨p₁, slot, p₂, h₁, _, h₂, hi, _⟩ := updateRetiredInstructions_eq_ok hr hcredit
      obtain ⟨_, _, rfl, _⟩ := modifyTask_eq_ok h₁
      obtain ⟨_, _, rfl, _⟩ := modifyTask_eq_ok h₂
      have hindex : 0 ≤ p.curProcess := hi.1
      omega
  | error e =>
      refine ⟨e, rfl, fun a ha => ?_⟩
      exact avoids_updateRetiredInstructions r p (ha ▸ hcredit)

end Credit

/-! ## The checks -/

section Checks

variable {live : List PbsTask} {p q : PbsPlan} {b : Build}

theorem Twins.reads (h : Twins live p q) (hb : Busy p) :
    q.readCurTask = p.readCurTask ∧ q.readProcess q.curProcess = p.readProcess p.curProcess := by
  obtain ⟨cur, hcur, hne, _⟩ := id hb
  have hprocess : q.curProcess = p.curProcess := by rw [h.fields]
  rw [hprocess]
  exact ⟨(h.readCurTask_eq hcur hne).symm, (h.readProcess_eq (h.curProcess_listed hb)).symm⟩

theorem Twins.calculateT2Node_eq (h : Twins live p q) :
    calculateT2Node b q = calculateT2Node b p := by
  rw [h.fields]
  rfl

theorem Twins.calculateAllowedPlanBuffer_eq (h : Twins live p q) (r : PbsProcess) :
    calculateAllowedPlanBuffer b r q = calculateAllowedPlanBuffer b r p := by
  rw [h.fields]
  rfl

theorem Twins.checkT2Task_eq (h : Twins live p q) (hb : Busy p) :
    checkT2Task q = checkT2Task p := by
  rw [checkT2Task, checkT2Task, (h.reads hb).1]

theorem Twins.checkT2Process_eq (h : Twins live p q) (hb : Busy p) :
    checkT2Process b q = checkT2Process b p := by
  have hstress : q.stress = p.stress := by rw [h.fields]
  simp only [checkT2Process, (h.reads hb).2, h.calculateAllowedPlanBuffer_eq, hstress]

theorem Twins.checkT2Node_eq (h : Twins live p q) : checkT2Node b q = checkT2Node b p := by
  have hlateness : q.lateness = p.lateness := by rw [h.fields]
  rw [checkT2Node, checkT2Node, h.calculateT2Node_eq, hlateness]

theorem Twins.raisesT2_eq (h : Twins live p q) (hb : Busy p) : raisesT2 b q = raisesT2 b p := by
  have hstress : q.stress = p.stress := by rw [h.fields]
  simp only [raisesT2, (h.reads hb).1, h.checkT2Task_eq hb, h.checkT2Process_eq hb,
    h.checkT2Node_eq, hstress]

theorem Twins.raisesTm2_eq (h : Twins live p q) (hb : Busy p) :
    raisesTm2 b q = raisesTm2 b p := by
  have hnode : checkTm2Node b q = checkTm2Node b p := by
    rw [h.fields]
    rfl
  rw [raisesTm2, raisesTm2, checkTm2Task, checkTm2Task, (h.reads hb).1, hnode]

theorem Twins.checkT1_eq (h : Twins live p q) (hb : Busy p) : checkT1 q = checkT1 p := by
  obtain ⟨hslot, hlt⟩ := h.slotOfCurTask_eq hb
  rw [checkT1, checkT1, ← hslot]
  cases hk : slotOfCurTask p with
  | ok k =>
      simp only [ok_bind]
      rw [h.readTask_eq (hlt k hk)]
  | error e => rfl

theorem Twins.printThresholds_eq (h : Twins live p q) (hb : Busy p) :
    printThresholds b q = printThresholds b p := by
  simp only [printThresholds, (h.reads hb).1, (h.reads hb).2, h.calculateAllowedPlanBuffer_eq,
    h.calculateT2Node_eq]

end Checks

/-! ## The signals -/

section Signals

variable {live : List PbsTask} {p q : PbsPlan} {b : Build}

theorem Twins.layouts (h : Twins live p q) : ∃ tail tail',
    Layout p (live.take p.curTask) (live.drop p.curTask) tail ∧
      Layout q (live.take p.curTask) (live.drop p.curTask) tail' := by
  obtain ⟨tail, hp, ht⟩ := h.left
  obtain ⟨tail', hq, ht'⟩ := h.right
  have hlive : ∀ t ∈ live.take p.curTask ++ live.drop p.curTask,
      t.taskId ≠ -2 ∧ t.processId ≠ -2 := by
    rw [List.take_append_drop]
    exact fun t ht => ⟨(h.entries t ht).taskId, (h.entries t ht).processId⟩
  have hcur : p.curTask = (live.take p.curTask).length := (List.length_take_of_le h.cur).symm
  have hindex : q.indexCurTask = p.indexCurTask := by rw [h.fields]
  refine ⟨tail, tail', ⟨?_, ht, hlive, hcur, h.index.trans hcur⟩,
    ⟨?_, ht', hlive, h.curTask_eq.trans hcur, hindex.trans (h.index.trans hcur)⟩⟩
  · rw [hp, ← List.append_assoc, List.take_append_drop]
  · rw [hq, ← List.append_assoc, List.take_append_drop]

theorem Twins.rescheduleFrom_agrees (h : Twins live p q) (factor pid : Int) :
    Agrees FaultsAlike Alike
      (rescheduleFrom factor pid (maxNumberTasksInPlan - p.curTask) p.curTask p)
      (rescheduleFrom factor pid (maxNumberTasksInPlan - q.curTask) q.curTask q) := by
  obtain ⟨tail, tail', hp, hq⟩ := h.layouts
  rw [hp.rescheduleFrom, hq.rescheduleFrom, ← List.append_assoc, ← List.append_assoc]
  have htake := List.take_append_drop p.curTask live
  refine .ok ⟨_, h.withTasks ?_ ?_ hp.terminates hq.terminates (by simp; omega) fun t ht => ?_⟩
  · rw [← htake]
    exact length_tasks (hp.tasks.trans (List.append_assoc _ _ _).symm)
  · rw [← htake]
    exact length_tasks (hq.tasks.trans (List.append_assoc _ _ _).symm)
  · rcases List.mem_append.1 ht with ht | ht
    · exact h.entries t (List.mem_of_mem_take ht)
    · obtain ⟨u, hu, rfl⟩ := List.mem_map.1 ht
      exact (h.entries u (List.mem_of_mem_drop hu)).update (keepsIds_rescale factor pid)

theorem Busy.rescheduleFrom (hb : Busy p) (h : Twins live p q) {p' : PbsPlan} {factor pid : Int}
    (hp' : rescheduleFrom factor pid (maxNumberTasksInPlan - p.curTask) p.curTask p = .ok p') :
    Busy p' := by
  obtain ⟨tail, _, hl, _⟩ := h.layouts
  rw [hl.rescheduleFrom] at hp'
  obtain rfl := Except.ok.inj hp'
  refine hb.of_ids ?_ rfl rfl
  have hids : (live.drop p.curTask).map ((fun t => (t.taskId, t.processId)) ∘ rescale factor pid) =
      (live.drop p.curTask).map fun t => (t.taskId, t.processId) :=
    List.map_congr_left fun t _ =>
      Prod.ext_iff.2 ⟨(keepsIds_rescale factor pid t).1, (keepsIds_rescale factor pid t).2⟩
  have hlen := p.tasks.length_toList
  rw [hl.tasks] at hlen
  rw [toList_withTasks (by simpa using hlen), hl.tasks]
  simp only [List.map_append, List.map_map, hids]

theorem Twins.reschedule_agrees (h : Twins live p q) (hb : Busy p) (signal : Check) (pid : Int) :
    Agrees FaultsAlike Alike (reschedule b p signal pid) (reschedule b q signal pid) := by
  refine (h.rescheduleFrom_agrees _ pid).bind ?_
  rintro p₁ q₁ hp₁ - ⟨live₁, h₁⟩
  have hb₁ := hb.rescheduleFrom h hp₁
  have h₂ : Twins live₁ { p₁ with lateness := 0 } { q₁ with lateness := 0 } :=
    { h₁ with fields := by rw [h₁.fields] }
  have hb₂ : Busy { p₁ with lateness := 0 } := hb₁
  refine (h₂.modifyCurProcess hb₂ _).bind ?_
  rintro p₃ q₃ hp₃ - h₃
  have hb₃ := hb₂.modifyProcess hp₃
  exact Agrees.bind_of_eq FaultsAlike.refl (h₃.printThresholds_eq hb₃).symm
    fun _ _ => .ok ⟨live₁, h₃⟩

end Signals

/-- Two states a tick works on that agree on everything it reads. -/
structure SystemsAlike (s t : System) : Prop where
  plan : Alike s.plan t.plan
  signals : s.signals = t.signals

section Signals

variable {s t : System} {b : Build}

theorem SystemsAlike.stressed (h : SystemsAlike s t) (hb : Busy s.plan) : ∃ live,
    Twins live { s.plan with stress := stressReset } { t.plan with stress := stressReset } ∧
      t.plan.tickCounter = s.plan.tickCounter ∧ t.plan.readCurTask = s.plan.readCurTask ∧
      t.plan.readProcess t.plan.curProcess = s.plan.readProcess s.plan.curProcess := by
  obtain ⟨live, hl⟩ := h.plan
  have hcounter : t.plan.tickCounter = s.plan.tickCounter := by rw [hl.fields]
  exact ⟨live, { hl with fields := by rw [hl.fields] }, hcounter, hl.reads hb⟩

theorem signalT2_agrees (h : SystemsAlike s t) (hb : Busy s.plan) :
    Agrees FaultsAlike SystemsAlike (signalT2 b s) (signalT2 b t) := by
  obtain ⟨live, hl, hcounter, hcur, hprocess⟩ := h.stressed hb
  rw [signalT2, signalT2]
  dsimp only
  refine Agrees.bind_of_eq FaultsAlike.refl hcur.symm fun cur _ => ?_
  refine Agrees.bind_of_eq FaultsAlike.refl hprocess.symm fun process _ => ?_
  refine (hl.reschedule_agrees hb _ _).bind ?_
  rintro p q - - hpq
  refine .ok ⟨hpq, ?_⟩
  dsimp only
  rw [hcounter, h.signals]

theorem signalTm2_agrees (h : SystemsAlike s t) (hb : Busy s.plan) :
    Agrees FaultsAlike SystemsAlike (signalTm2 b s) (signalTm2 b t) := by
  obtain ⟨live, hl, hcounter, hcur, hprocess⟩ := h.stressed hb
  rw [signalTm2, signalTm2]
  dsimp only
  refine Agrees.bind_of_eq FaultsAlike.refl hcur.symm fun cur _ => ?_
  refine Agrees.bind_of_eq FaultsAlike.refl hprocess.symm fun process _ => ?_
  refine (hl.reschedule_agrees hb _ _).bind ?_
  rintro p q - - hpq
  refine .ok ⟨hpq, ?_⟩
  dsimp only
  rw [hcounter, h.signals]

theorem signalIfT2_agrees (h : SystemsAlike s t) (hb : Busy s.plan) :
    Agrees FaultsAlike SystemsAlike (signalIfT2 b s) (signalIfT2 b t) := by
  obtain ⟨live, hl⟩ := h.plan
  refine Agrees.bind_of_eq FaultsAlike.refl (hl.raisesT2_eq hb).symm fun raised _ => ?_
  split
  · exact signalT2_agrees h hb
  · exact .ok h

end Signals

/-! ## The next entry becomes current -/

section Passing

variable {live : List PbsTask} {p q : PbsPlan} {b : Build}

theorem Twins.relieved (h : Twins live p q) :
    Twins live (relieveStress p) (relieveStress q) := by
  have hstress : (PbsLevel2.relieveStress q).stress = (PbsLevel2.relieveStress p).stress := by
    rw [stress_relieveStress, stress_relieveStress, h.fields]
  rw [relieveStress_eq p, relieveStress_eq q, hstress]
  exact { h with fields := by rw [h.fields] }

theorem Twins.bookFinishedTask_agrees (h : Twins live p q) (hb : Busy p) (surplus : Int) :
    Agrees FaultsAlike Alike (bookFinishedTask surplus p) (bookFinishedTask surplus q) := by
  refine Agrees.bind_of_eq FaultsAlike.refl (h.reads hb).1.symm fun cur _ => ?_
  dsimp only
  refine (h.modifyCurProcess hb _).bind ?_
  rintro p₁ q₁ hp₁ - h₁
  have hb₁ := hb.modifyProcess hp₁
  have h₂ : Twins live
      { updateNodeLateness (cur.instructionsReal - cur.instructionsPlanned) p₁ with
        instructionsRetired := p₁.instructionsRetired - surplus }
      { updateNodeLateness (cur.instructionsReal - cur.instructionsPlanned) q₁ with
        instructionsRetired := q₁.instructionsRetired - surplus } :=
    { h₁ with fields := by rw [h₁.fields]; rfl }
  refine (h₂.modifyCurProcess hb₁ _).bind ?_
  rintro p₃ q₃ - - h₃
  exact .ok ⟨live, h₃.relieved⟩

theorem Twins.exists_cur (h : Twins live p q) : ∃ c d, p.readCurTask = .ok c ∧
    q.readCurTask = .ok d ∧ d.taskId = c.taskId ∧ d.processId = c.processId := by
  obtain ⟨tail, tail', hp, hq⟩ := h.layouts
  cases htodo : live.drop p.curTask with
  | cons c rest =>
      rw [htodo] at hp hq
      exact ⟨c, c, hp.readCurTask, hq.readCurTask, rfl, rfl⟩
  | nil =>
      rw [htodo] at hp hq
      obtain ⟨c, rest, rfl, hid, hpid⟩ := id hp.terminates
      obtain ⟨d, rest', rfl, hid', hpid'⟩ := id hq.terminates
      exact ⟨c, d, readCurTask_joint hp.tasks hp.cur, readCurTask_joint hq.tasks hq.cur,
        hid'.trans hid.symm, hpid'.trans hpid.symm⟩

theorem Twins.updateCurProcess_agrees (h : Twins live p q) :
    Agrees FaultsAlike Alike (updateCurProcess p) (updateCurProcess q) := by
  rw [PbsLevel2.updateCurProcess, PbsLevel2.updateCurProcess, h.curTask_eq]
  refine (h.modifyTask h.cur (keepsIds_changeTaskState .running)).bind ?_
  rintro p₁ q₁ - - ⟨live₁, h₁⟩
  obtain ⟨c, d, hc, hd, hid, hpid⟩ := h₁.exists_cur
  rw [hc, hd, ok_bind, ok_bind, hid, hpid]
  split
  · exact .ok ⟨live₁, { h₁ with fields := by rw [h₁.fields] }⟩
  · exact .ok ⟨live₁, { h₁ with fields := by rw [h₁.fields] }⟩

theorem Twins.advanceCurTask_agrees (h : Twins live p q) (hb : Busy p) :
    Agrees FaultsAlike Alike (advanceCurTask p) (advanceCurTask q) := by
  obtain ⟨cur, hcur, hne, _⟩ := hb
  have hlt := h.cur_lt hcur hne
  have h₁ : Twins live
      { p with
        tasksFinished := p.tasksFinished + 1
        indexCurTask := p.indexCurTask + 1
        curTask := p.curTask + 1 }
      { q with
        tasksFinished := q.tasksFinished + 1
        indexCurTask := q.indexCurTask + 1
        curTask := q.curTask + 1 } :=
    { h with
      fields := by rw [h.fields]
      cur := hlt
      index := congrArg (· + 1) h.index }
  exact h₁.updateCurProcess_agrees

theorem Twins.bookSkippedSlot (h : Twins live p q) {done todo tail : List PbsTask}
    (hv : Placed p done todo tail) (hh : HeadReal p) (r : Int) :
    Agrees FaultsAlike Alike (updateRetiredInstructions r p) (updateRetiredInstructions r q) := by
  rcases Int.lt_or_le r 0 with hr | hr
  · exact h.updateRetiredInstructions_neg_agrees hr
  · obtain ⟨c, rest, heq, hc⟩ := hv.head
    have hprocess := hv.process c hc
    rw [processOf, if_pos (hh c hc)] at hprocess
    cases todo with
    | cons u todo =>
        obtain ⟨rfl, _⟩ := List.cons.inj heq
        exact h.updateRetiredInstructions_agrees ⟨u, hc, (hv.live u (by simp)).1, hh u hc, hprocess⟩
    | nil =>
        obtain ⟨t, more, htail, _, hpid⟩ := hv.terminates
        obtain ⟨rfl, _⟩ := List.cons.inj (heq.symm.trans htail)
        have hq : q.curProcess = p.curProcess := by rw [h.fields]
        obtain ⟨e, he, hundefined⟩ := credit_undefined (p := p) hr (by omega)
        obtain ⟨e', he', hundefined'⟩ := credit_undefined (p := q) hr (by omega)
        rw [he, he']
        exact .error (.inr ⟨hundefined, hundefined'⟩)

theorem Twins.skipFreeSlot_agrees (h : Twins live p q) {done todo tail : List PbsTask}
    (hv : Valid p done todo tail) :
    Agrees FaultsAlike Alike (skipFreeSlot b p) (skipFreeSlot b q) := by
  obtain ⟨c, d, hc, hd, hid, _⟩ := h.exists_cur
  rw [PbsLevel2.skipFreeSlot, PbsLevel2.skipFreeSlot, hc, hd, ok_bind, ok_bind, hid]
  by_cases hfree : c.taskId = -1
  · rw [if_pos hfree, if_pos hfree, handleFreeSlot, handleFreeSlot, hc, hd, ok_bind, ok_bind, hid]
    refine Agrees.bind_of_eq FaultsAlike.refl rfl fun _ _ => ?_
    obtain ⟨rest, rfl⟩ := hv.of_readCurTask hc (by omega)
    have hlt := h.cur_lt hc (by omega)
    have h₁ : Twins live
        { p with indexCurTask := p.indexCurTask + 1, curTask := p.curTask + 1 }
        { q with indexCurTask := q.indexCurTask + 1, curTask := q.curTask + 1 } :=
      { h with
        fields := by rw [h.fields]
        cur := hlt
        index := congrArg (· + 1) h.index }
    refine h₁.updateCurProcess_agrees.bind ?_
    rintro p₂ q₂ hp₂ - ⟨live₂, h₂⟩
    rw [hv.toLayout.updateCurProcess_next] at hp₂
    obtain rfl := Except.ok.inj hp₂
    have hpos : 0 < live₂.length := Nat.lt_of_lt_of_le (Nat.succ_pos p.curTask) h₂.cur
    refine Agrees.bind_of_eq FaultsAlike.refl (h₂.readTask_eq hpos) fun first _ => ?_
    refine (h₂.bookSkippedSlot hv.passed.toPlaced (hv.headReal_passed hfree) _).bind ?_
    rintro p₃ q₃ - - ⟨live₃, h₃⟩
    obtain ⟨c₃, d₃, hc₃, hd₃, hid₃, _⟩ := h₃.exists_cur
    have hbefore : q.lateness = p.lateness := by rw [h.fields]
    have hafter : q₃.lateness = p₃.lateness := by rw [h₃.fields]
    rw [hbefore, hafter, hc₃, hd₃]
    refine Agrees.bind_of_eq FaultsAlike.refl rfl fun _ _ => ?_
    rw [ok_bind, ok_bind, hid₃]
    exact Agrees.bind_of_eq FaultsAlike.refl rfl fun _ _ => .ok ⟨live₃, h₃⟩
  · rw [if_neg hfree, if_neg hfree]
    exact .ok ⟨live, h⟩

end Passing

/-! ## Preemption -/

section Preempting

variable {live : List PbsTask} {p q : PbsPlan} {b : Build}

theorem noIdIsDuplicatedFrom_eq (live : List PbsTask) {tail tail' : List PbsTask}
    (ht : Terminates tail) (ht' : Terminates tail') (found : Vector Nat maxNumberTasksInPlan) :
    noIdIsDuplicatedFrom (live ++ tail) found = noIdIsDuplicatedFrom (live ++ tail') found := by
  induction live generalizing found with
  | nil =>
      obtain ⟨t, rest, rfl, hid, _⟩ := ht
      obtain ⟨t', rest', rfl, hid', _⟩ := ht'
      rw [List.nil_append, List.nil_append, noIdIsDuplicatedFrom, noIdIsDuplicatedFrom, if_pos hid,
        if_pos hid']
  | cons u live ih =>
      rw [List.cons_append, List.cons_append, noIdIsDuplicatedFrom, noIdIsDuplicatedFrom]
      simp only [ih]

theorem Twins.assertNoIdIsDuplicated_eq (h : Twins live p q) :
    assertNoIdIsDuplicated b p = assertNoIdIsDuplicated b q := by
  obtain ⟨tail, hp, ht⟩ := h.left
  obtain ⟨tail', hq, ht'⟩ := h.right
  have heq : noIdIsDuplicated p = noIdIsDuplicated q := by
    rw [noIdIsDuplicated, noIdIsDuplicated, hp, hq]
    exact noIdIsDuplicatedFrom_eq live ht ht' _
  cases b with
  | userland => rw [assertNoIdIsDuplicated, assertNoIdIsDuplicated, heq]
  | kernel => rfl

section Cut

variable {done todo tail tail' blk ns post : List PbsTask} {cur n f : PbsTask}

theorem Twins.bumped (h : Twins (done ++ cur :: todo) p q) (hp : Layout p done (cur :: todo) tail)
    (hq : Layout q done (cur :: todo) tail') :
    Twins (done ++ bump cur :: todo) (p.bumped done cur (todo ++ tail))
      (q.bumped done cur (todo ++ tail')) := by
  have hbump : ∀ l, done ++ bump cur :: (todo ++ l) = (done ++ bump cur :: todo) ++ l := by simp
  rw [PbsPlan.bumped, PbsPlan.bumped, hbump, hbump]
  refine h.withTasks (length_tasks (by rw [hp.tasks]; simp)) (length_tasks (by rw [hq.tasks]; simp))
    hp.terminates hq.terminates (by simp) fun t ht => ?_
  rcases List.mem_append.1 ht with ht | ht
  · exact h.entries t (List.mem_append_left _ ht)
  · rcases List.mem_cons.1 ht with rfl | ht
    · exact (h.entries cur (by simp)).of_job rfl
    · exact h.entries t (by simp [ht])

theorem Twins.rotated (h : Twins (done ++ cur :: todo) p q)
    (hp : Layout p done (cur :: todo) tail) (hq : Layout q done (cur :: todo) tail')
    (hc : Cut cur todo blk n ns f post) :
    Alike (p.rotated done n ns cur blk f (post ++ tail))
      (q.rotated done n ns cur blk f (post ++ tail')) := by
  set live' := done ++ (changeTaskState n .running :: ns ++
    ((bump cur :: blk).map (hosted f.taskId) ++ f :: post)) with hlive'
  have happend : ∀ l, done ++ (changeTaskState n .running :: ns ++
      ((bump cur :: blk).map (hosted f.taskId) ++ f :: (post ++ l))) = live' ++ l := by
    simp [hlive']
  have hjobs : (live'.map PbsTask.job).Perm ((done ++ cur :: todo).map PbsTask.job) := by
    have hperm := hc.jobs_perm.append_left (done.map PbsTask.job)
    rwa [← List.map_append, ← List.map_append] at hperm
  have hsame : live'.length = (done ++ cur :: todo).length := by
    simpa using hjobs.length_eq
  have htwins := h.withTasks (length_tasks (by rw [hp.tasks]; simp))
    (length_tasks (by rw [hq.tasks]; simp)) hp.terminates hq.terminates hsame fun t ht => by
      obtain ⟨u, hu, hjob⟩ := List.mem_map.1 (hjobs.subset (List.mem_map_of_mem ht))
      exact (h.entries u hu).of_job hjob
  rw [PbsPlan.rotated, PbsPlan.rotated, happend, happend]
  exact ⟨live', { htwins with fields := by rw [h.fields]; rfl }⟩

end Cut

theorem Twins.preemptCurTask_agrees (h : Twins live p q) (hb : Busy p) :
    Agrees FaultsAlike Alike (preemptCurTask b p) (preemptCurTask b q) := by
  obtain ⟨c, hcur, hne, hreal, hprocess⟩ := id hb
  obtain ⟨tail, tail', hp, hq⟩ := h.layouts
  obtain ⟨todo, htodo⟩ := hp.of_readCurTask hcur hne
  rw [htodo] at hp hq
  have hlive : live = live.take p.curTask ++ c :: todo := by rw [← htodo, List.take_append_drop]
  generalize live.take p.curTask = done at hlive hp hq
  subst hlive
  have hentry : assertThat b .preemptCurTaskEntry (c.taskId ≠ -1) = .ok () :=
    assertThat_true b _ (by simpa using hreal)
  rcases exists_cut_or_noSlot c todo with ⟨blk, n, ns, f, post, hc⟩ | hn
  · rw [preemptCurTask_cut b hp hentry hc, preemptCurTask_cut b hq hentry hc]
    by_cases hroom : done.length + ns.length + 2 * (blk.length + 1) ≤ maxNumberTasksInPlan
    · rw [moveTasks_rotated hp hc hroom, moveTasks_rotated hq hc hroom, ok_bind, ok_bind]
      obtain ⟨live', hrotated⟩ := h.rotated hp hq hc
      exact Agrees.bind_of_eq FaultsAlike.refl hrotated.assertNoIdIsDuplicated_eq
        fun _ _ => .ok ⟨live', hrotated⟩
    · -- the read-ahead of the move leaves both arrays
      have hout := moveTasks_outOfBounds (hp.bumped_cut hc) hp.cur hp.index (by simp)
        (by simpa using hroom)
      have hout' := moveTasks_outOfBounds (hq.bumped_cut hc) hq.cur hq.index (by simp)
        (by simpa using hroom)
      rw [List.length_cons] at hout hout'
      rw [hout, hout']
      exact .error (FaultsAlike.refl _)
  · have hbumped := h.bumped hp hq
    have hread := hp.bumped.readCurTask
    have hread' := hq.bumped.readCurTask
    rw [preemptCurTask_noSlot b hp hentry hn, preemptCurTask_noSlot b hq hentry hn,
      handleNoPreemptionSlotFound, handleNoPreemptionSlotFound, hread, hread', ok_bind, ok_bind]
    refine (hbumped.updateRetiredInstructions_agrees ⟨_, hread, hne, hreal, hprocess⟩).bind ?_
    rintro p₁ q₁ - - ⟨live₁, h₁⟩
    exact .ok ⟨live₁, { h₁ with fields := by rw [h₁.fields] }⟩

end Preempting

end PbsLevel2
