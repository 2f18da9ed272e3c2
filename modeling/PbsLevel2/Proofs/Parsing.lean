import PbsLevel2.Proofs.Fields

/-!
# What `parse_plan` leaves

Facts about every plan that was parsed into a zeroed structure, for every text: the
tasks are fresh, the counters are zero and the sums per process are those of the tasks.
-/

namespace PbsLevel2

open Lib

def zeroedTask : PbsTask := {}

/-- A task that has not run. -/
structure PbsTask.Fresh (t : PbsTask) : Prop where
  retiredTask : t.instructionsRetiredTask = 0
  retiredSlot : t.instructionsRetiredSlot = 0
  wasPreempted : t.wasPreempted = 0
  state : t.state = .waiting
  lateness : t.lateness = 0
  slotOwner : t.slotOwner = t.taskId

/-- What `parse_plan` leaves in a zeroed plan. -/
structure Parsed (p : PbsPlan) : Prop where
  numTasks_lt : p.numTasks < maxNumberTasksInPlan
  fresh : ∀ t ∈ p.tasks.toList.take p.numTasks, t.Fresh
  pid : ∀ t ∈ p.tasks.toList.take p.numTasks, t.processId ≠ -1 → ProcessIndex t.processId
  tail : p.tasks.toList.drop p.numTasks = { taskId := -2, processId := -2 } ::
    List.replicate (maxNumberTasksInPlan - p.numTasks - 1) zeroedTask
  curTask : p.curTask = 0
  indexCurTask : p.indexCurTask = 0
  curProcess : ∀ cur, p.readCurTask = .ok cur → p.curProcess = cur.processId
  numProcesses : ProcessIndex p.numProcesses
  processes : ∀ i, (processAt p.processes i).instructionsRetired = 0 ∧
    (processAt p.processes i).lateness = 0 ∧ (ProcessIndex i → (processAt p.processes i).lengthPlan =
      processTotal PbsTask.instructionsPlanned i (p.tasks.toList.take p.numTasks))
  remaining : ∀ i, ProcessIndex i → (processAt p.processes i).numTasksRemaining =
    processTotal (fun _ => 1) i (p.tasks.toList.take p.numTasks)
  instructionsPlanned : calculateLengthPlan p = .ok p.instructionsPlanned
  counters : p.lateness = 0 ∧ p.stress = 0 ∧ p.instructionsRetired = 0 ∧ p.tasksFinished = 0
  state : p.state = .onPlan

/-! ## The meta section -/

/-- A process of which nothing was counted yet. -/
def BlankProcess (q : PbsProcess) : Prop :=
  q.instructionsRetired = 0 ∧ q.lateness = 0 ∧ q.lengthPlan = 0 ∧ q.numTasksRemaining = 0

theorem blankProcess_default : BlankProcess {} := ⟨rfl, rfl, rfl, rfl⟩

/-- `q` is `p` with other processes, which are blank. -/
def MetaOf (p q : PbsPlan) : Prop :=
  ∃ n v, q = { p with numProcesses := n, processes := v } ∧ ∀ i, BlankProcess (processAt v i)

theorem BlankProcess.update {v : Vector PbsProcess maxNumberProcesses}
    (hv : ∀ i, BlankProcess (processAt v i)) {i : Int} (hi : ProcessIndex i)
    {f : PbsProcess → PbsProcess} (hf : BlankProcess (f (processAt v i))) (j : Int) :
    BlankProcess (processAt (updateProcess v i f) j) := by
  rw [processAt_updateProcess v f hi]
  split
  · exact hf
  · exact hv j

theorem MetaOf.modifyProcess {p q q' : PbsPlan} (h : MetaOf p q) {i : Int}
    {f : PbsProcess → PbsProcess} (hf : ∀ r, BlankProcess r → BlankProcess (f r))
    (hq : q.modifyProcess i f = .ok q') : MetaOf p q' ∧ ProcessIndex i := by
  obtain ⟨hi, rfl⟩ := modifyProcess_eq_ok hq
  obtain ⟨n, v, rfl, hv⟩ := h
  exact ⟨⟨n, _, rfl, BlankProcess.update hv hi (hf _ (hv i))⟩, hi⟩

theorem parseNextProcess_blank {str rest : List Char} {q : PbsProcess}
    (h : parseNextProcess str {} = .ok (q, rest)) : BlankProcess q := by
  obtain ⟨_, _, h⟩ := bind_eq_ok.1 h
  obtain ⟨_, _, h⟩ := bind_eq_ok.1 h
  cases h
  exact blankProcess_default

theorem parseMetaLoop_eq_ok {fuel : Nat} {found : Bool} {counter : Nat} {str rest : List Char}
    {p q q' : PbsPlan} (hq : MetaOf p q)
    (h : parseMetaLoop fuel found counter str q = .ok (rest, q')) : MetaOf p q' := by
  induction fuel generalizing found counter str q with
  | zero => cases h
  | succ fuel ih =>
      rw [parseMetaLoop] at h
      obtain ⟨symbol, _, h⟩ := bind_eq_ok.1 h
      split at h
      · obtain ⟨⟨number, str'⟩, _, h⟩ := bind_eq_ok.1 h
        obtain ⟨n, v, rfl, hv⟩ := hq
        exact ih (q := { p with numProcesses := number, processes := v }) ⟨number, v, rfl, hv⟩ h
      · obtain ⟨next, _, h⟩ := bind_eq_ok.1 h
        split at h
        · cases h
          exact hq
        · obtain ⟨q₁, h₁, h⟩ := bind_eq_ok.1 h
          obtain ⟨⟨process, str'⟩, hprocess, h⟩ := bind_eq_ok.1 h
          obtain ⟨q₂, h₂, h⟩ := bind_eq_ok.1 h
          rw [writeProcess_eq_modify] at h₂
          obtain ⟨hq₁, _⟩ := hq.modifyProcess (fun _ _ => blankProcess_default) h₁
          obtain ⟨hq₂, _⟩ := hq₁.modifyProcess (fun _ _ => parseNextProcess_blank hprocess) h₂
          exact ih hq₂ h

theorem parseMeta_eq_ok {str rest : List Char} {p q : PbsPlan} (hp : MetaOf p p)
    (h : parseMeta str p = .ok (rest, q)) : MetaOf p q ∧ ProcessIndex q.numProcesses := by
  obtain ⟨⟨str', q₁⟩, h₁, h⟩ := bind_eq_ok.1 h
  obtain ⟨q₂, h₂, h⟩ := bind_eq_ok.1 h
  cases h
  have hidle : ∀ r : PbsProcess, BlankProcess r →
      BlankProcess { r with processId := -2, buffer := -2, lengthPlan := 0 } :=
    fun r hr => ⟨hr.1, hr.2.1, rfl, hr.2.2.2⟩
  obtain ⟨hq, hi⟩ := (parseMetaLoop_eq_ok hp h₁).modifyProcess hidle h₂
  obtain ⟨_, rfl⟩ := modifyProcess_eq_ok h₂
  exact ⟨hq, hi⟩

/-! ## The task section -/

theorem fieldTasks_fresh {n : Nat} {str : List Char} (hfits : FieldsFit n str) :
    ∀ t ∈ fieldTasks n str, t.Fresh ∧ (t.processId ≠ -1 → ProcessIndex t.processId) := by
  induction n generalizing str with
  | zero => exact fun t ht => absurd ht List.not_mem_nil
  | succ n ih =>
      obtain ⟨⟨_, hpid⟩, hrest⟩ := fieldsFit_succ.1 hfits
      rw [fieldTasks]
      intro t ht
      rcases List.mem_cons.1 ht with rfl | ht
      · exact ⟨⟨rfl, rfl, rfl, rfl, rfl, rfl⟩, hpid.resolve_left⟩
      · exact ih hrest t ht

theorem zeroedPlan_tasks {n : Nat} (hn : n < maxNumberTasksInPlan) :
    zeroedPlan.tasks.toList = List.replicate n zeroedTask ++ zeroedTask ::
      List.replicate (maxNumberTasksInPlan - n - 1) zeroedTask := by
  rw [← List.replicate_succ, List.replicate_append_replicate,
    show n + (maxNumberTasksInPlan - n - 1 + 1) = maxNumberTasksInPlan by omega]
  exact Vector.toList_replicate

theorem parseTasks_zeroed {str : List Char} {p q : PbsPlan} (hp : p.tasks = zeroedPlan.tasks)
    (h : parseTasks str p = .ok q) :
    ∃ new, new.length < maxNumberTasksInPlan ∧
      (∀ t ∈ new, t.Fresh ∧ (t.processId ≠ -1 → ProcessIndex t.processId)) ∧
      q.tasks.toList = new ++ { taskId := -2, processId := -2 } ::
        List.replicate (maxNumberTasksInPlan - new.length - 1) zeroedTask ∧
      q = { p with
        numTasks := new.length
        processes := new.foldl tallyTask p.processes
        tasks := q.tasks } := by
  obtain ⟨hnul, hfit⟩ := tasksFit_of_parseTasks h
  obtain ⟨hfew, hfits⟩ := tasksFit_iff.1 hfit
  have hlen := length_fieldTasks (semicolons str) str
  rw [parseTasks_eq hnul hfits (by rw [hp]; exact zeroedPlan_tasks hfew) List.length_replicate] at h
  obtain rfl := Except.ok.inj h
  refine ⟨fieldTasks (semicolons str) str, by omega, fieldTasks_fresh hfits, ?_, ?_⟩
  · rw [hlen]
    exact toList_withTasks (by simp; omega)
  · rw [hlen]
    rfl

/-! ## `parse_plan` -/

theorem blankProcess_zeroedPlan (i : Int) : BlankProcess (processAt zeroedPlan.processes i) := by
  rw [processAt]
  split <;> rename_i hi
  · have hlt : i.toNat < maxNumberProcesses := hi.2
    change BlankProcess (Vector.replicate maxNumberProcesses ({} : PbsProcess))[i.toNat]
    rw [Vector.getElem_replicate]
    exact blankProcess_default
  · exact blankProcess_default

theorem tallied_blank {v : Vector PbsProcess maxNumberProcesses}
    (hv : ∀ i, BlankProcess (processAt v i)) (l : List PbsTask) {i : Int} (hi : ProcessIndex i) :
    (processAt (l.foldl tallyTask v) i).instructionsRetired = 0 ∧
    (processAt (l.foldl tallyTask v) i).lateness = 0 ∧
    (processAt (l.foldl tallyTask v) i).lengthPlan =
      processTotal PbsTask.instructionsPlanned i l ∧
    (processAt (l.foldl tallyTask v) i).numTasksRemaining = processTotal (fun _ => 1) i l := by
  obtain ⟨hretired, hlateness, hlength, hremaining⟩ := hv i
  rw [processAt_foldl_tallyTask _ _ hi]
  exact ⟨hretired, hlateness, by rw [hlength, Int.zero_add], by rw [hremaining, Int.zero_add]⟩

theorem parsePlan_parsed {text : List Char} {p : PbsPlan}
    (h : parsePlan text zeroedPlan = .ok p) : Parsed p := by
  obtain ⟨⟨str, p₁⟩, h₁, h⟩ := bind_eq_ok.1 h
  obtain ⟨p₂, h₂, h⟩ := bind_eq_ok.1 h
  obtain ⟨cur, hcur, h⟩ := bind_eq_ok.1 h
  obtain ⟨length, hlength, h⟩ := bind_eq_ok.1 h
  obtain rfl := Except.ok.inj h
  obtain ⟨⟨n, v, rfl, hv⟩, hn⟩ :=
    parseMeta_eq_ok ⟨_, _, rfl, blankProcess_zeroedPlan⟩ h₁
  obtain ⟨new, hlt, hnew, htasks, heq⟩ :=
    parseTasks_zeroed (p := { zeroedPlan with numProcesses := n, processes := v }) rfl h₂
  have htake : p₂.tasks.toList.take p₂.numTasks = new := by
    rw [htasks, heq]
    exact List.take_left
  refine
    { numTasks_lt := ?_
      fresh := ?_
      pid := ?_
      tail := ?_
      curTask := rfl
      indexCurTask := rfl
      curProcess := ?_
      numProcesses := ?_
      processes := ?_
      remaining := ?_
      instructionsPlanned := hlength
      counters := ?_
      state := ?_ }
  · rw [heq]
    exact hlt
  · intro t ht
    exact (hnew t (htake ▸ ht)).1
  · intro t ht
    exact (hnew t (htake ▸ ht)).2
  · change p₂.tasks.toList.drop p₂.numTasks = _
    rw [htasks, heq]
    exact List.drop_left
  · intro c hc
    rw [show c = cur from Except.ok.inj (hc.symm.trans hcur)]
  · rw [heq]
    exact hn
  · intro i
    change (processAt p₂.processes i).instructionsRetired = 0 ∧
      (processAt p₂.processes i).lateness = 0 ∧
      (ProcessIndex i → (processAt p₂.processes i).lengthPlan =
        processTotal PbsTask.instructionsPlanned i (p₂.tasks.toList.take p₂.numTasks))
    rw [htake, heq]
    by_cases hi : ProcessIndex i
    · obtain ⟨hretired, hlateness, hlength, _⟩ := tallied_blank hv new hi
      exact ⟨hretired, hlateness, fun _ => hlength⟩
    · rw [processAt, dif_neg hi]
      exact ⟨rfl, rfl, fun h => absurd h hi⟩
  · intro i hi
    change (processAt p₂.processes i).numTasksRemaining =
      processTotal (fun _ => 1) i (p₂.tasks.toList.take p₂.numTasks)
    rw [htake, heq]
    exact (tallied_blank hv new hi).2.2.2
  · rw [heq]
    exact ⟨rfl, rfl, rfl, rfl⟩
  · rw [heq]
    rfl

end PbsLevel2
