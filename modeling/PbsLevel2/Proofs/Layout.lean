import PbsLevel2.Proofs.Memory

/-!
# The task list around the current task

`Layout p done todo tail` cuts the task array of a plan at its two markers, the current
task and the terminator: `done` lies before the current task, `todo` starts with it, and
`tail` starts with the terminator.  Each function of `plan.c` is described by what it
does to these three lists.
-/

namespace PbsLevel2

open Lib

/-- A list that starts with a terminator. -/
def Terminates (tail : List PbsTask) : Prop :=
  ∃ t rest, tail = t :: rest ∧ t.taskId = -2 ∧ t.processId = -2

structure Layout (p : PbsPlan) (done todo tail : List PbsTask) : Prop where
  tasks : p.tasks.toList = done ++ (todo ++ tail)
  terminates : Terminates tail
  live : ∀ t ∈ done ++ todo, t.taskId ≠ -2 ∧ t.processId ≠ -2
  cur : p.curTask = done.length
  index : p.indexCurTask = done.length

theorem Layout.of_same {p q : PbsPlan} {done todo tail : List PbsTask}
    (h : Layout p done todo tail) (htasks : q.tasks = p.tasks) (hcur : q.curTask = p.curTask)
    (hindex : q.indexCurTask = p.indexCurTask) : Layout q done todo tail where
  tasks := by
    rw [htasks]
    exact h.tasks
  terminates := h.terminates
  live := h.live
  cur := hcur.trans h.cur
  index := hindex.trans h.index

theorem Layout.map_tasks {α : Type} {p : PbsPlan} {done todo tail : List PbsTask}
    (h : Layout p done todo tail) (g : PbsTask → α) :
    p.tasks.toList.map g = (done ++ todo).map g ++ tail.map g := by
  rw [h.tasks]
  simp

/-! ## Fields a run does not touch -/

/-- A task without its counters, its state and its lateness. -/
def PbsTask.frame (t : PbsTask) : PbsTask :=
  { t with
    instructionsRetiredTask := 0
    instructionsRetiredSlot := 0
    state := .waiting
    lateness := 0 }

/-- Credit of a slot. -/
def creditSlot (instructions : Int) (t : PbsTask) : PbsTask :=
  { t with instructionsRetiredSlot := t.instructionsRetiredSlot + instructions }

theorem frame_taskId {t u : PbsTask} (h : t.frame = u.frame) : t.taskId = u.taskId :=
  show t.frame.taskId = u.frame.taskId by rw [h]

theorem frame_processId {t u : PbsTask} (h : t.frame = u.frame) : t.processId = u.processId :=
  show t.frame.processId = u.frame.processId by rw [h]

theorem frame_instructionsPlanned {t u : PbsTask} (h : t.frame = u.frame) :
    t.instructionsPlanned = u.instructionsPlanned :=
  show t.frame.instructionsPlanned = u.frame.instructionsPlanned by rw [h]

theorem frame_instructionsReal {t u : PbsTask} (h : t.frame = u.frame) :
    t.instructionsReal = u.instructionsReal :=
  show t.frame.instructionsReal = u.frame.instructionsReal by rw [h]

theorem frame_slotOwner {t u : PbsTask} (h : t.frame = u.frame) : t.slotOwner = u.slotOwner :=
  show t.frame.slotOwner = u.frame.slotOwner by rw [h]

section Retire

variable (r : Int) (t : PbsTask)

@[simp] theorem frame_retire : (pbsUpdateRetiredInstructionsTask r t).frame = t.frame := by
  unfold pbsUpdateRetiredInstructionsTask changeTaskState
  dsimp only
  split <;> split <;> rfl

@[simp] theorem frame_creditSlot : (creditSlot r t).frame = t.frame := rfl

@[simp] theorem frame_changeTaskState (st : TaskState) :
    (changeTaskState t st).frame = t.frame := rfl

@[simp] theorem retire_taskId :
    (pbsUpdateRetiredInstructionsTask r t).taskId = t.taskId :=
  frame_taskId (frame_retire r t)

@[simp] theorem retire_processId :
    (pbsUpdateRetiredInstructionsTask r t).processId = t.processId :=
  frame_processId (frame_retire r t)

@[simp] theorem retire_instructionsPlanned :
    (pbsUpdateRetiredInstructionsTask r t).instructionsPlanned = t.instructionsPlanned :=
  frame_instructionsPlanned (frame_retire r t)

@[simp] theorem retire_instructionsReal :
    (pbsUpdateRetiredInstructionsTask r t).instructionsReal = t.instructionsReal :=
  frame_instructionsReal (frame_retire r t)

@[simp] theorem retire_slotOwner :
    (pbsUpdateRetiredInstructionsTask r t).slotOwner = t.slotOwner :=
  frame_slotOwner (frame_retire r t)

@[simp] theorem retire_instructionsRetiredSlot :
    (pbsUpdateRetiredInstructionsTask r t).instructionsRetiredSlot =
      t.instructionsRetiredSlot := by
  unfold pbsUpdateRetiredInstructionsTask changeTaskState
  dsimp only
  split <;> split <;> rfl

@[simp] theorem retire_instructionsRetiredTask :
    (pbsUpdateRetiredInstructionsTask r t).instructionsRetiredTask =
      t.instructionsRetiredTask + r := by
  unfold pbsUpdateRetiredInstructionsTask changeTaskState
  dsimp only
  split <;> split <;> rfl

theorem retire_state_of_le (h : t.instructionsReal ≤ t.instructionsRetiredTask + r) :
    (pbsUpdateRetiredInstructionsTask r t).state = .finished := by
  unfold pbsUpdateRetiredInstructionsTask changeTaskState
  dsimp only
  rw [if_pos (by split <;> exact h)]

theorem retire_state_of_lt (h : t.instructionsRetiredTask + r < t.instructionsReal) :
    (pbsUpdateRetiredInstructionsTask r t).state = t.state := by
  unfold pbsUpdateRetiredInstructionsTask changeTaskState
  dsimp only
  split <;> simp [Int.not_le.2 h]

end Retire

/-! ## Lists that agree under a view of the tasks -/

theorem map_of_view {α : Type} {g : PbsTask → α} {v : PbsTask → PbsTask}
    {l m : List PbsTask} (h : l.map v = m.map v) (hg : ∀ t, g (v t) = g t) :
    l.map g = m.map g := by
  have hcomp : ∀ l : List PbsTask, l.map g = (l.map v).map g := fun l => by
    rw [List.map_map]
    exact List.map_congr_left fun t _ => (hg t).symm
  rw [hcomp l, h, ← hcomp m]

theorem map_set_of_eq {α : Type} {g : PbsTask → α} {l : List PbsTask} {i : Nat} {t u : PbsTask}
    (ht : l[i]? = some t) (hu : g u = g t) : (l.set i u).map g = l.map g := by
  rw [List.map_set, hu]
  apply List.ext_getElem?
  intro j
  rw [List.getElem?_set]
  split
  · rename_i hij
    subst hij
    rw [List.getElem?_map, ht, if_pos (by simpa using (List.getElem?_eq_some_iff.1 ht).1)]
    rfl
  · rfl

theorem mem_of_map_eq {α : Type} {g : PbsTask → α} {l m : List PbsTask}
    (h : m.map g = l.map g) {t : PbsTask} (ht : t ∈ m) : ∃ u ∈ l, g u = g t := by
  have hmem : g t ∈ l.map g := h ▸ List.mem_map_of_mem ht
  obtain ⟨u, hu, heq⟩ := List.mem_map.1 hmem
  exact ⟨u, hu, heq⟩

/-! ## The current task -/

section Current

variable {p : PbsPlan} {done todo tail : List PbsTask} {cur : PbsTask}

theorem readCurTask_joint {post : List PbsTask} (h : p.tasks.toList = done ++ cur :: post)
    (hcur : p.curTask = done.length) : p.readCurTask = .ok cur := by
  rw [PbsPlan.readCurTask, hcur, readTask_joint h]

theorem Layout.head (h : Layout p done todo tail) :
    ∃ cur rest, todo ++ tail = cur :: rest ∧ p.readCurTask = .ok cur := by
  obtain ⟨t, rest, rfl, _⟩ := h.terminates
  cases todo with
  | nil => exact ⟨t, rest, rfl, readCurTask_joint h.tasks h.cur⟩
  | cons u todo => exact ⟨u, todo ++ t :: rest, rfl, readCurTask_joint h.tasks h.cur⟩

theorem Layout.tasks_cons (h : Layout p done (cur :: todo) tail) :
    p.tasks.toList = done ++ cur :: (todo ++ tail) :=
  h.tasks

theorem Layout.readCurTask (h : Layout p done (cur :: todo) tail) :
    p.readCurTask = .ok cur :=
  readCurTask_joint h.tasks h.cur

theorem Layout.of_readCurTask (h : Layout p done todo tail) (hr : p.readCurTask = .ok cur)
    (hcur : cur.taskId ≠ -2) : ∃ rest, todo = cur :: rest := by
  cases todo with
  | nil =>
      obtain ⟨t, rest, rfl, hid, _⟩ := h.terminates
      have hread := readCurTask_joint (p := p) h.tasks h.cur
      rw [hr] at hread
      cases hread
      exact absurd hid hcur
  | cons t rest =>
      have hread := h.readCurTask
      rw [hr] at hread
      cases hread
      exact ⟨rest, rfl⟩

theorem Layout.ended (h : Layout p done [] tail) :
    ∃ cur, p.readCurTask = .ok cur ∧ cur.taskId = -2 := by
  obtain ⟨t, rest, rfl, hid, _⟩ := id h.terminates
  exact ⟨t, readCurTask_joint h.tasks h.cur, hid⟩

theorem Layout.todo_eq_nil (h : Layout p done todo tail) (hr : p.readCurTask = .ok cur)
    (hcur : cur.taskId = -2) : todo = [] := by
  cases todo with
  | nil => rfl
  | cons t rest =>
      have hread := h.readCurTask
      rw [hr] at hread
      cases hread
      exact absurd hcur (h.live cur (by simp)).1

end Current

/-! ## `update_cur_process` -/

/-- The entry `cur_process` is pointed to when `t` becomes current. -/
def processOf (t : PbsTask) : Int :=
  if t.taskId ≠ -1 then t.processId else maxNumberProcesses - 1

theorem updateCurProcess_joint {p : PbsPlan} {pre post : List PbsTask} {t : PbsTask}
    (h : p.tasks.toList = pre ++ t :: post) (hcur : p.curTask = pre.length) :
    updateCurProcess p = .ok { p.withTasks (pre ++ changeTaskState t .running :: post) with
      curProcess := processOf t } := by
  have hread : (p.withTasks (pre ++ changeTaskState t .running :: post)).readCurTask =
      .ok (changeTaskState t .running) := by
    exact readCurTask_joint (toList_withTasks_joint h _) hcur
  rw [updateCurProcess, hcur, modifyTask_joint h, ok_bind, hread, ok_bind]
  by_cases hid : t.taskId = -1
  · rw [if_neg (by simpa [changeTaskState] using hid), processOf, if_neg (by simpa using hid)]
    rfl
  · rw [if_pos (by simpa [changeTaskState] using hid), processOf, if_pos hid]
    rfl

/-! ## `update_retired_instructions` -/

theorem updateRetiredInstructions_neg {r : Int} (hr : r < 0) (p : PbsPlan) :
    updateRetiredInstructions r p = .ok { p with lateness := p.lateness + r } := by
  rw [updateRetiredInstructions, if_pos hr]
  rfl

/-! ## `find_task_with_task_id` -/

theorem findTaskFrom_found {taskId : Int} (hid : taskId ≠ -2) {pre post : List PbsTask}
    {o : PbsTask} (hpre : ∀ t ∈ pre, t.taskId ≠ -2 ∧ t.taskId ≠ taskId)
    (ho : o.taskId = taskId) (i : Nat) :
    findTaskFrom taskId (pre ++ o :: post) i = .ok (some (i + pre.length)) := by
  induction pre generalizing i with
  | nil => simp [findTaskFrom, ho, hid]
  | cons t pre ih =>
      obtain ⟨hend, hne⟩ := hpre t (by simp)
      rw [List.cons_append, findTaskFrom, if_neg hend, if_neg hne,
        ih (fun u hu => hpre u (by simp [hu])), List.length_cons]
      congr 2
      omega

end PbsLevel2
