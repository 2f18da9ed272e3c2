import PbsLevel2.Proofs.Operations

/-!
# Entries that are passed

`switch_task` and `handle_free_slot` make the next entry current.  A finished task is
booked before it is passed; a free slot changes the node lateness afterwards.
-/

namespace PbsLevel2

open Lib

/-! ## The next entry becomes current -/

/-- The state change of `update_cur_process`. -/
def start (t : PbsTask) : PbsTask :=
  changeTaskState t .running

theorem map_startHead {α : Type} (g : PbsTask → α) (hg : ∀ t, g (start t) = g t)
    (l : List PbsTask) : (l.modifyHead start).map g = l.map g := by
  cases l with
  | nil => rfl
  | cons t l => rw [List.modifyHead_cons, List.map_cons, List.map_cons, hg]

@[simp] theorem map_job_startHead (l : List PbsTask) :
    (l.modifyHead start).map PbsTask.job = l.map PbsTask.job :=
  map_startHead PbsTask.job (fun _ => rfl) l

/-- `tail` after the entry behind the current one was started: with nothing left to do, that
is the terminator. -/
def startTail (rest tail : List PbsTask) : List PbsTask :=
  if rest = [] then tail.modifyHead start else tail

theorem modifyHead_start_append (rest tail : List PbsTask) :
    (rest ++ tail).modifyHead start = rest.modifyHead start ++ startTail rest tail := by
  cases rest <;> simp [startTail]

@[simp] theorem map_job_startTail (rest tail : List PbsTask) :
    (startTail rest tail).map PbsTask.job = tail.map PbsTask.job := by
  rw [startTail]
  split
  · exact map_job_startHead tail
  · rfl

def nextEntry (rest tail : List PbsTask) : PbsTask :=
  (rest ++ tail).headD {}

def PbsPlan.passed (p : PbsPlan) (done : List PbsTask) (cur : PbsTask)
    (rest tail : List PbsTask) : PbsPlan :=
  { p.withTasks (done ++ [cur] ++ (rest.modifyHead start ++ startTail rest tail)) with
    curTask := p.curTask + 1
    indexCurTask := p.indexCurTask + 1
    curProcess := processOf (nextEntry rest tail) }

section Passed

variable {p q : PbsPlan} {done todo rest tail : List PbsTask} {cur : PbsTask} {b : Build}

theorem Layout.passed_tasks (hl : Layout p done (cur :: rest) tail) :
    (p.passed done cur rest tail).tasks.toList =
      (done ++ [cur]) ++ (rest.modifyHead start ++ startTail rest tail) := by
  refine toList_withTasks (p := p) ?_
  have hlen : p.tasks.toList.length = maxNumberTasksInPlan := p.tasks.length_toList
  have hjobs := congrArg List.length (map_job_startTail rest tail)
  rw [List.length_map, List.length_map] at hjobs
  rw [← hlen, hl.tasks]
  simp only [List.length_append, List.length_cons, List.length_nil, List.length_modifyHead, hjobs]
  omega

theorem Layout.updateCurProcess_next (hl : Layout p done (cur :: rest) tail) :
    updateCurProcess { p with indexCurTask := p.indexCurTask + 1, curTask := p.curTask + 1 } =
      .ok (p.passed done cur rest tail) := by
  obtain ⟨t, more, htail, _⟩ := hl.terminates
  obtain ⟨n, post, hn⟩ : ∃ n post, rest ++ tail = n :: post :=
    List.exists_cons_of_ne_nil (by rw [htail]; simp)
  have htasks : p.tasks.toList = (done ++ [cur]) ++ n :: post := by
    rw [hl.tasks, ← hn]; simp
  have hupdate := updateCurProcess_joint
    (p := { p with indexCurTask := p.indexCurTask + 1, curTask := p.curTask + 1 }) htasks
    (by rw [List.length_append]; exact congrArg (· + 1) hl.cur)
  rw [hupdate, PbsPlan.passed, nextEntry, hn, ← modifyHead_start_append, hn]
  rfl

theorem Placed.passed (hv : Placed p done (cur :: rest) tail) :
    Placed (p.passed done cur rest tail) (done ++ [cur]) (rest.modifyHead start)
      (startTail rest tail) := by
  have hjobs : (done ++ [cur] ++ rest.modifyHead start).map PbsTask.job =
      (done ++ cur :: rest).map PbsTask.job := by simp
  have hl : Layout (p.passed done cur rest tail) (done ++ [cur]) (rest.modifyHead start)
      (startTail rest tail) := by
    refine ⟨hv.toLayout.passed_tasks, ?_, ?_, ?_, ?_⟩
    · obtain ⟨t, more, htail, hid, hpid⟩ := hv.terminates
      have h := map_job_startTail rest tail
      rw [htail, List.map_cons] at h
      obtain ⟨t', more', ht', hjob, _⟩ := List.map_eq_cons_iff.1 h
      rw [htail, ht']
      exact ⟨t', more', rfl, (job_taskId hjob).trans hid, (job_processId hjob).trans hpid⟩
    · intro t ht
      obtain ⟨u, hu, hjob⟩ := mem_of_map_eq hjobs ht
      rw [← job_taskId hjob, ← job_processId hjob]
      exact hv.live u hu
    · rw [List.length_append, PbsPlan.passed, ← hv.cur]; rfl
    · rw [List.length_append, PbsPlan.passed, ← hv.index]; rfl
  refine ⟨hl, ?_, ?_⟩
  · intro t ht
    obtain ⟨u, hu, hjob⟩ := mem_of_map_eq hjobs ht
    rw [← job_taskId hjob, ← job_processId hjob]
    exact hv.free u hu
  · intro cur' hread
    obtain ⟨c, r, heq, hc⟩ := hl.head
    rw [hread] at hc
    cases hc
    rw [← modifyHead_start_append] at heq
    cases hn : rest ++ tail with
    | nil => rw [hn] at heq; cases heq
    | cons n post =>
        rw [hn, List.modifyHead_cons] at heq
        obtain ⟨rfl, _⟩ := List.cons.inj heq
        rw [PbsPlan.passed, nextEntry, hn]
        rfl

theorem Valid.passed (hv : Valid p done (cur :: rest) tail) :
    Valid (p.passed done cur rest tail) (done ++ [cur]) (rest.modifyHead start)
      (startTail rest tail) := by
  refine ⟨hv.toPlaced.passed, ?_⟩
  rw [SpacedJobs, map_job_startHead]
  exact (@Agenda.Move.pass _ _ _ _ (fun _ _ => True) (done.map PbsTask.job) _ _).spaced hv.spaced

end Passed

/-! ## A finished task leaves -/

theorem relieveStress_eq (p : PbsPlan) :
    relieveStress p = { p with stress := (relieveStress p).stress } := by
  rw [relieveStress]
  split <;> rfl

theorem stress_relieveStress (p : PbsPlan) :
    (relieveStress p).stress = if p.stress ≠ 0 then p.stress - 1 else p.stress := by
  rw [relieveStress]
  split <;> rfl

/-- The plan after `schedule_task_finished` booked `cur`, `tasks_finished++` included. -/
def PbsPlan.booked (p : PbsPlan) (surplus : Int) (cur : PbsTask) : PbsPlan :=
  { p with
    processes := updateProcess
      (updateProcess p.processes p.curProcess
        (updateLatenessProcess (cur.instructionsReal - cur.instructionsPlanned)))
      p.curProcess (updateRetiredInstructionsProcess (-surplus))
    lateness := p.lateness + (cur.instructionsReal - cur.instructionsPlanned)
    instructionsRetired := p.instructionsRetired - surplus
    stress := (relieveStress p).stress
    tasksFinished := p.tasksFinished + 1 }

section Finished

variable {p q : PbsPlan} {done rest tail : List PbsTask} {cur : PbsTask} {surplus : Int}

theorem bookFinishedTask_eq (hl : Layout p done (cur :: rest) tail)
    (hi : ProcessIndex p.curProcess) (surplus : Int) :
    bookFinishedTask surplus p =
      .ok { p.booked surplus cur with tasksFinished := p.tasksFinished } := by
  rw [bookFinishedTask, hl.readCurTask, ok_bind]
  dsimp only
  rw [modifyProcess_eq hi, ok_bind]
  dsimp only [updateNodeLateness]
  rw [modifyProcess_eq hi, ok_bind, pure_eq_ok, relieveStress_eq]
  rw [PbsPlan.booked]
  simp only [stress_relieveStress]

theorem Placed.booked (hv : Placed p done (cur :: rest) tail) (surplus : Int) :
    Placed (p.booked surplus cur) done (cur :: rest) tail :=
  hv.of_same rfl rfl rfl rfl

theorem Valid.booked (hv : Valid p done (cur :: rest) tail) (surplus : Int) :
    Valid (p.booked surplus cur) done (cur :: rest) tail :=
  ⟨hv.toPlaced.booked surplus, hv.spaced⟩

theorem finishTask_eq (hv : Placed p done (cur :: rest) tail) (hi : ProcessIndex p.curProcess)
    (surplus : Int) : (bookFinishedTask surplus p >>= advanceCurTask) =
      .ok ((p.booked surplus cur).passed done cur rest tail) := by
  rw [bookFinishedTask_eq hv.toLayout hi, ok_bind]
  exact (hv.booked surplus).toLayout.updateCurProcess_next

theorem finishTask_index (hl : Layout p done (cur :: rest) tail)
    (h : bookFinishedTask surplus p = .ok q) : ProcessIndex p.curProcess := by
  rw [bookFinishedTask, hl.readCurTask, ok_bind] at h
  obtain ⟨p₁, h₁, _⟩ := bind_eq_ok.1 h
  exact (modifyProcess_eq_ok h₁).1

theorem finishTask_eq_ok (hv : Placed p done (cur :: rest) tail)
    (h : (bookFinishedTask surplus p >>= advanceCurTask) = .ok q) :
    ProcessIndex p.curProcess ∧ q = (p.booked surplus cur).passed done cur rest tail := by
  obtain ⟨_, hp, _⟩ := bind_eq_ok.1 h
  have hi := finishTask_index hv.toLayout hp
  rw [finishTask_eq hv hi] at h
  exact ⟨hi, (Except.ok.inj h).symm⟩

end Finished

/-! ## A free slot is skipped -/

section Skipped

variable {p q : PbsPlan} {done todo rest tail : List PbsTask} {cur : PbsTask} {b : Build}

/-- A skip either finds no free slot, or passes it and books the length of the first entry of
the plan. -/
theorem skipFreeSlot_eq_ok (hl : Layout p done todo tail) (h : skipFreeSlot b p = .ok q) :
    HeadReal p ∧ q = p ∨
    ∃ cur rest first, todo = cur :: rest ∧ cur.taskId = -1 ∧
      (p.passed done cur rest tail).readTask 0 = .ok first ∧
      updateRetiredInstructions (-first.instructionsPlanned) (p.passed done cur rest tail) =
        .ok q := by
  obtain ⟨cur, hcur, h⟩ := bind_eq_ok.1 h
  by_cases hfree : cur.taskId = -1
  · right
    rw [if_pos hfree] at h
    obtain ⟨rest, rfl⟩ := hl.of_readCurTask hcur (by omega)
    obtain ⟨_, _, h⟩ := bind_eq_ok.1 h
    obtain ⟨_, _, h⟩ := bind_eq_ok.1 h
    rw [hl.updateCurProcess_next, ok_bind] at h
    obtain ⟨first, hfirst, h⟩ := bind_eq_ok.1 h
    obtain ⟨q', hq, h⟩ := bind_eq_ok.1 h
    obtain ⟨_, _, h⟩ := bind_eq_ok.1 h
    obtain ⟨_, _, h⟩ := bind_eq_ok.1 h
    obtain ⟨_, _, h⟩ := bind_eq_ok.1 h
    cases h
    exact ⟨cur, rest, first, rfl, hfree, hfirst, hq⟩
  · left
    rw [if_neg hfree] at h
    refine ⟨fun c hc => ?_, (Except.ok.inj h).symm⟩
    rw [hcur] at hc
    cases hc
    exact hfree

theorem Placed.skip_reads (hv : Placed p done (cur :: rest) tail) :
    p.readTask (p.curTask + 1) = .ok (nextEntry rest tail) ∧
    ∀ first, (p.passed done cur rest tail).readTask 0 = .ok first → p.readTask 0 = .ok first := by
  obtain ⟨t, more, htail, _⟩ := hv.terminates
  obtain ⟨n, post, hn⟩ : ∃ n post, rest ++ tail = n :: post :=
    List.exists_cons_of_ne_nil (by rw [htail]; simp)
  constructor
  · have htasks : p.tasks.toList = (done ++ [cur]) ++ n :: post := by
      rw [hv.tasks, ← hn]; simp
    have hread := readTask_joint htasks
    rwa [List.length_append, List.length_singleton, ← hv.cur,
      show n = nextEntry rest tail by rw [nextEntry, hn]; rfl] at hread
  · intro first hfirst
    -- the first entry lies in front of the one that was started
    rw [readTask_eq_ok, hv.toLayout.passed_tasks, List.getElem?_append_left (by simp)] at hfirst
    rw [readTask_eq_ok, hv.tasks, ← hfirst, List.cons_append, List.append_cons,
      List.getElem?_append_left (by simp)]

theorem Valid.headReal_passed (hv : Valid p done (cur :: rest) tail) (hfree : cur.taskId = -1) :
    HeadReal (p.passed done cur rest tail) := by
  intro c hc hid
  have hv' := hv.passed
  obtain ⟨rest', hrest⟩ := hv'.of_readCurTask hc (by omega)
  cases rest with
  | nil => cases hrest
  | cons n rest =>
      rw [List.modifyHead_cons] at hrest
      obtain ⟨rfl, _⟩ := List.cons.inj hrest
      have hspaced : List.IsChain _ _ := hv.spaced
      rw [List.map_cons, List.map_cons, List.isChain_cons_cons] at hspaced
      exact hspaced.1 ⟨(hv.free cur (by simp)).1 hfree, (hv.free n (by simp)).1 hid⟩

theorem skipFreeSlot_real (hcur : p.readCurTask = .ok cur) (hreal : cur.taskId ≠ -1) :
    skipFreeSlot b p = .ok p := by
  rw [skipFreeSlot, hcur, ok_bind, if_neg hreal]
  rfl

theorem Placed.passed_first (hv : Placed p done (cur :: rest) tail) :
    ∃ first ∈ (done ++ [cur]).head?, (p.passed done cur rest tail).readTask 0 = .ok first := by
  obtain ⟨first, l, hl⟩ := List.exists_cons_of_ne_nil (show done ++ [cur] ≠ [] by simp)
  refine ⟨first, by rw [hl]; rfl, readTask_eq_ok.2 ?_⟩
  rw [hv.toLayout.passed_tasks, hl]
  rfl

theorem Valid.skipFreeSlot_eq (hv : Valid p done (cur :: rest) tail) (hfree : cur.taskId = -1)
    {first : PbsTask} (hfirst : (p.passed done cur rest tail).readTask 0 = .ok first)
    (hpos : 0 < first.instructionsPlanned) : skipFreeSlot b p =
      .ok { p.passed done cur rest tail with
        lateness := p.lateness + -first.instructionsPlanned } := by
  obtain ⟨c, _, _, hc⟩ := hv.passed.head
  have hlate : p.lateness > p.lateness + -first.instructionsPlanned := by omega
  rw [skipFreeSlot, hv.readCurTask, ok_bind, if_pos hfree, handleFreeSlot, hv.readCurTask, ok_bind,
    assertThat_true _ _ (by simpa using hfree), ok_bind]
  dsimp only
  rw [hv.toLayout.updateCurProcess_next, ok_bind, hfirst, ok_bind,
    updateRetiredInstructions_neg (by omega)]
  change (assertThat b _ (decide (p.lateness > p.lateness + -first.instructionsPlanned)) >>= _) = _
  rw [assertThat_true _ _ (by simpa using hlate), ok_bind]
  change (PbsPlan.readCurTask (p.passed done cur rest tail) >>= _) = _
  rw [hc, ok_bind, assertThat_true _ _ (by simpa using hv.headReal_passed hfree c hc)]
  rfl

end Skipped

end PbsLevel2
