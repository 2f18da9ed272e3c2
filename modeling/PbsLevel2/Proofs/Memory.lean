import PbsLevel2.Lib.Fallible
import PbsLevel2.Source.Plan
import Mathlib.Data.List.Basic

/-!
# The two arrays

List views of the task array and the process table.  A plan whose task list is known as
a concatenation can be read and written at the joint without any index arithmetic.
-/

namespace PbsLevel2

open Lib

@[simp] theorem assertThat_kernel (a : Assertion) (c : Bool) : assertThat .kernel a c = .ok () := rfl

theorem assertThat_true (b : Build) (a : Assertion) {c : Bool} (h : c = true) :
    assertThat b a c = .ok () := by
  cases b
  · rw [assertThat, if_pos h]
  · rfl

/-! ## The task array -/

/-- The task array holding `l`, which has the length of the array wherever this is used. -/
@[irreducible] def taskArray (l : List PbsTask) : Vector PbsTask maxNumberTasksInPlan :=
  if h : l.length = maxNumberTasksInPlan then ⟨l.toArray, by simpa using h⟩
  else Vector.replicate _ {}

/-- The plan with its task array replaced. -/
def PbsPlan.withTasks (p : PbsPlan) (l : List PbsTask) : PbsPlan :=
  { p with tasks := taskArray l }

theorem toList_taskArray {l : List PbsTask} (h : l.length = maxNumberTasksInPlan) :
    (taskArray l).toList = l := by
  rw [taskArray, dif_pos h]
  rfl

@[simp] theorem taskArray_toList (v : Vector PbsTask maxNumberTasksInPlan) :
    taskArray v.toList = v := by
  apply Vector.toList_inj.1
  exact toList_taskArray (by simp)

theorem withTasks_toList (p : PbsPlan) : p.withTasks p.tasks.toList = p := by
  simp [PbsPlan.withTasks]

theorem toList_withTasks {p : PbsPlan} {l : List PbsTask}
    (h : l.length = maxNumberTasksInPlan) : (p.withTasks l).tasks.toList = l :=
  toList_taskArray h

section Joint

variable {p : PbsPlan} {pre post : List PbsTask} {t : PbsTask}

theorem joint_lt (h : p.tasks.toList = pre ++ t :: post) :
    pre.length < maxNumberTasksInPlan := by
  have hlen := congrArg List.length h
  simp only [Vector.length_toList, List.length_append, List.length_cons] at hlen
  omega

theorem readTask_joint (h : p.tasks.toList = pre ++ t :: post) :
    p.readTask pre.length = .ok t := by
  have hlt := joint_lt h
  rw [PbsPlan.readTask, dif_pos hlt, ← Vector.getElem_toList (by simpa using hlt)]
  simp [h]

theorem writeTask_joint (h : p.tasks.toList = pre ++ t :: post) (u : PbsTask) :
    p.writeTask pre.length u = .ok (p.withTasks (pre ++ u :: post)) := by
  have hlt := joint_lt h
  have hset : p.tasks.set pre.length u hlt = taskArray (pre ++ u :: post) := by
    apply Vector.toList_inj.1
    rw [Vector.toList_set, h, toList_taskArray]
    · simp
    · simpa [h] using p.tasks.length_toList
  rw [PbsPlan.writeTask, dif_pos hlt, hset]
  rfl

theorem modifyTask_joint (h : p.tasks.toList = pre ++ t :: post) (f : PbsTask → PbsTask) :
    p.modifyTask pre.length f = .ok (p.withTasks (pre ++ f t :: post)) := by
  rw [PbsPlan.modifyTask, readTask_joint h, ok_bind, writeTask_joint h]

theorem toList_withTasks_joint (h : p.tasks.toList = pre ++ t :: post) (u : PbsTask) :
    (p.withTasks (pre ++ u :: post)).tasks.toList = pre ++ u :: post := by
  apply toList_withTasks
  simpa [h] using p.tasks.length_toList

end Joint

theorem readTask_eq_ok {p : PbsPlan} {i : Nat} {t : PbsTask} :
    p.readTask i = .ok t ↔ p.tasks.toList[i]? = some t := by
  rw [PbsPlan.readTask]
  split <;> rename_i h
  · rw [List.getElem?_eq_getElem (by simpa using h), Vector.getElem_toList]
    simp
  · rw [List.getElem?_eq_none (by simpa using h)]
    simp

theorem writeTask_eq_ok {p q : PbsPlan} {i : Nat} {t : PbsTask}
    (h : p.writeTask i t = .ok q) :
    q = p.withTasks (p.tasks.toList.set i t) ∧ q.tasks.toList = p.tasks.toList.set i t := by
  rw [PbsPlan.writeTask] at h
  split at h <;> rename_i hi
  · cases h
    have hset : p.tasks.set i t hi = taskArray (p.tasks.toList.set i t) := by
      rw [← Vector.toList_set, taskArray_toList]
    exact ⟨by rw [hset]; rfl, Vector.toList_set hi⟩
  · cases h

theorem modifyTask_eq_ok {p q : PbsPlan} {i : Nat} {f : PbsTask → PbsTask}
    (h : p.modifyTask i f = .ok q) :
    ∃ t, p.tasks.toList[i]? = some t ∧ q = p.withTasks (p.tasks.toList.set i (f t)) ∧
      q.tasks.toList = p.tasks.toList.set i (f t) := by
  obtain ⟨t, ht, hw⟩ := bind_eq_ok.1 h
  exact ⟨t, readTask_eq_ok.1 ht, writeTask_eq_ok hw⟩

/-! ## The process table -/

/-- Entry `i` of the process table, a zeroed entry outside the table. -/
def processAt (v : Vector PbsProcess maxNumberProcesses) (i : Int) : PbsProcess :=
  if h : ProcessIndex i then v.get ⟨i.toNat, h.lt⟩ else {}

/-- The process table with entry `i` replaced by its image under `f`. -/
def updateProcess (v : Vector PbsProcess maxNumberProcesses) (i : Int)
    (f : PbsProcess → PbsProcess) : Vector PbsProcess maxNumberProcesses :=
  if h : ProcessIndex i then v.set i.toNat (f (processAt v i)) h.lt else v

theorem readProcess_eq {p : PbsPlan} {i : Int} (h : ProcessIndex i) :
    p.readProcess i = .ok (processAt p.processes i) := by
  rw [PbsPlan.readProcess, dif_pos h, processAt, dif_pos h]

theorem readProcess_index {p : PbsPlan} {i : Int} {q : PbsProcess}
    (h : p.readProcess i = .ok q) : ProcessIndex i := by
  by_contra hi
  rw [PbsPlan.readProcess, dif_neg hi] at h
  cases h

theorem modifyProcess_eq {p : PbsPlan} {i : Int} (h : ProcessIndex i)
    (f : PbsProcess → PbsProcess) :
    p.modifyProcess i f = .ok { p with processes := updateProcess p.processes i f } := by
  rw [PbsPlan.modifyProcess, readProcess_eq h, ok_bind, PbsPlan.writeProcess, dif_pos h,
    updateProcess, dif_pos h]

theorem modifyProcess_eq_ok {p q : PbsPlan} {i : Int} {f : PbsProcess → PbsProcess}
    (h : p.modifyProcess i f = .ok q) :
    ProcessIndex i ∧ q = { p with processes := updateProcess p.processes i f } := by
  have hi : ProcessIndex i := by
    obtain ⟨r, hr, _⟩ := bind_eq_ok.1 h
    exact readProcess_index hr
  rw [modifyProcess_eq hi] at h
  exact ⟨hi, (Except.ok.inj h).symm⟩

private theorem get_eq_getElem {α : Type} {n : Nat} (v : Vector α n) (i : Fin n) :
    v.get i = v[i.val] := rfl

theorem processAt_updateProcess (v : Vector PbsProcess maxNumberProcesses) {i : Int}
    (f : PbsProcess → PbsProcess) (hi : ProcessIndex i) (j : Int) :
    processAt (updateProcess v i f) j =
      if j = i then f (processAt v i) else processAt v j := by
  by_cases hj : ProcessIndex j
  · rw [processAt, dif_pos hj, updateProcess, dif_pos hi, get_eq_getElem,
      Vector.getElem_set]
    by_cases hij : j = i
    · subst hij
      simp
    · have hne : i.toNat ≠ j.toNat := by
        have := hi.1
        have := hj.1
        omega
      rw [if_neg hne, if_neg hij, processAt, dif_pos hj, get_eq_getElem]
  · have hij : j ≠ i := fun h => hj (h ▸ hi)
    rw [if_neg hij, processAt, dif_neg hj, processAt, dif_neg hj]

theorem view_updateProcess {α : Type} {v : Vector PbsProcess maxNumberProcesses} {i : Int}
    (hi : ProcessIndex i) {f : PbsProcess → PbsProcess} (g : PbsProcess → α)
    (hf : ∀ x, g (f x) = g x) (j : Int) :
    g (processAt (updateProcess v i f) j) = g (processAt v j) := by
  rw [processAt_updateProcess v f hi]
  split <;> rename_i hj
  · rw [hf, hj]
  · rfl

end PbsLevel2
