import PbsLevel2.Lib.Peak
import PbsLevel2.Proofs.Owners
import Mathlib.Data.List.Pairwise

/-!
# The task for an unallocated slot

`find_next_task_for_all_processes` and `find_substitution_task`.  The table of copies holds the
first task of each process, unless that task passes for "not found"; the result is the first
peak of the lateness over those copies that were preempted.
-/

namespace PbsLevel2

open Lib

/-! ## The first task of a process -/

/-- `t`, at offset `i`, is the first entry of its process. -/
structure IsNextTask (p : PbsPlan) (i : Nat) (t : PbsTask) : Prop where
  task : p.liveTasks[i]? = some t
  listed : t.processId ≠ -1
  first : ∀ u ∈ p.liveTasks.take i, u.processId ≠ t.processId

def PbsPlan.nextTask (p : PbsPlan) (pid : Int) : Option PbsTask :=
  p.liveTasks.find? (·.processId = pid)

theorem isNextTask_iff {p : PbsPlan} {t : PbsTask} :
    (∃ i, IsNextTask p i t) ↔ t.processId ≠ -1 ∧ p.nextTask t.processId = some t := by
  rw [PbsPlan.nextTask, List.find?_eq_some_iff_getElem]
  constructor
  · rintro ⟨i, htask, hlisted, hfirst⟩
    obtain ⟨hi, hget⟩ := List.getElem?_eq_some_iff.1 htask
    refine ⟨hlisted, by simp, i, hi, hget, fun j hj => ?_⟩
    have := hfirst _ (List.mem_take_iff_getElem.2 ⟨j, by omega, rfl⟩)
    simpa using this
  · rintro ⟨hlisted, _, i, hi, hget, hfirst⟩
    refine ⟨i, List.getElem?_eq_some_iff.2 ⟨hi, hget⟩, hlisted, fun u hu => ?_⟩
    obtain ⟨j, hj, rfl⟩ := List.mem_take_iff_getElem.1 hu
    simpa using hfirst j (by omega)

/-! ## The table of copies -/

/-- What becomes of the entry of process `pid`: it is overwritten while it passes for "not
found". -/
def nextTaskFrom (pid : Int) : PbsTask → List PbsTask → PbsTask
  | found, [] => found
  | found, t :: ts =>
      if t.processId = pid ∧ found.instructionsPlanned = -1 then nextTaskFrom pid t ts
      else nextTaskFrom pid found ts

section Table

variable {e : PbsTask} {live : List PbsTask} {pid : Int}

theorem nextTaskFrom_found {found : PbsTask} (h : found.instructionsPlanned ≠ -1) :
    nextTaskFrom pid found live = found := by
  induction live with
  | nil => rfl
  | cons t live ih => rw [nextTaskFrom, if_neg fun hpid => h hpid.2, ih]

theorem nextTaskFrom_notFound
    (h : ∀ t, live.find? (·.processId = pid) = some t → t.instructionsPlanned ≠ -1) :
    nextTaskFrom pid noTaskFound live =
      (live.find? (·.processId = pid)).getD noTaskFound := by
  induction live with
  | nil => rfl
  | cons t live ih =>
      rw [nextTaskFrom]
      by_cases hpid : t.processId = pid
      · rw [List.find?_cons_of_pos (by simpa using hpid)] at h ⊢
        rw [if_pos ⟨hpid, rfl⟩, Option.getD_some]
        exact nextTaskFrom_found (h t rfl)
      · rw [List.find?_cons_of_neg (by simpa using hpid)] at h ⊢
        rw [if_neg fun hfound => hpid hfound.1]
        exact ih h

theorem nextTaskFrom_cases (pid : Int) (found : PbsTask) (live : List PbsTask) :
    nextTaskFrom pid found live = found ∨
      nextTaskFrom pid found live ∈ live ∧ (nextTaskFrom pid found live).processId = pid := by
  induction live generalizing found with
  | nil => exact .inl rfl
  | cons t live ih =>
      rw [nextTaskFrom]
      split
      · rename_i hpid
        right
        rcases ih t with hsame | ⟨hmem, heq⟩
        · rw [hsame]
          exact ⟨by simp, hpid.1⟩
        · exact ⟨List.mem_cons_of_mem _ hmem, heq⟩
      · exact (ih found).imp_right fun h => ⟨List.mem_cons_of_mem _ h.1, h.2⟩

theorem writeNextTask_get (nextTasks : NextTasks) (t : PbsTask) (h : ProcessIndex pid) :
    ∃ w, writeNextTask nextTasks pid t = .ok w ∧ ∀ i : Fin maxNumberProcesses,
      w.get i = if (i : Int) = pid then t else nextTasks.get i := by
  refine ⟨nextTasks.set pid.toNat t h.lt, by rw [writeNextTask, dif_pos h], fun i => ?_⟩
  change (nextTasks.set pid.toNat t h.lt)[i.val] = _
  rw [Vector.getElem_set]
  have := h.1
  by_cases hi : pid.toNat = i.val
  · rw [if_pos hi, if_pos (by omega)]
  · rw [if_neg hi, if_neg (by omega)]
    rfl

theorem collectNextTasks_step (t : PbsTask) (l : List PbsTask) (nextTasks : NextTasks)
    (h : (t.processId = -1 ∨ t.processId = -2) ∨ ProcessIndex t.processId) :
    ∃ v, collectNextTasks (t :: l) nextTasks =
        (if t.taskId = -2 then .ok v else collectNextTasks l v) ∧
      ∀ i : Fin maxNumberProcesses, v.get i =
        if t.processId = i ∧ (nextTasks.get i).instructionsPlanned = -1 then t
        else nextTasks.get i := by
  rw [collectNextTasks]
  rcases h with hfree | hindex
  · refine ⟨nextTasks, by rw [if_pos hfree]; rfl, fun i => ?_⟩
    rw [if_neg]
    omega
  · have h0 := hindex.1
    have hread : readNextTask nextTasks t.processId =
        .ok (nextTasks.get ⟨t.processId.toNat, hindex.lt⟩) := by
      rw [readNextTask, dif_pos hindex]
    have hcell : ∀ i : Fin maxNumberProcesses, t.processId = i →
        nextTasks.get i = nextTasks.get ⟨t.processId.toNat, hindex.lt⟩ := by
      intro i hi
      have hsame : i = ⟨t.processId.toNat, hindex.lt⟩ := Fin.ext (by simp only; omega)
      rw [hsame]
    rw [if_neg (by omega), hread, ok_bind]
    by_cases hfound : (nextTasks.get ⟨t.processId.toNat, hindex.lt⟩).instructionsPlanned = -1
    · obtain ⟨v, hv, hget⟩ := writeNextTask_get nextTasks t hindex
      refine ⟨v, by rw [if_pos hfound, hv]; rfl, fun i => ?_⟩
      rw [hget]
      by_cases hi : t.processId = i
      · rw [if_pos hi.symm, if_pos ⟨hi, by rw [hcell i hi, hfound]⟩]
      · rw [if_neg (Ne.symm hi), if_neg fun hnot => hi hnot.1]
    · refine ⟨nextTasks, by rw [if_neg hfound]; rfl, fun i => ?_⟩
      rw [if_neg]
      rintro ⟨hi, hnot⟩
      exact hfound (hcell i hi ▸ hnot)

theorem collectNextTasks_get (hid : e.taskId = -2) (hpid : e.processId = -2)
    (hend : ∀ t ∈ live, t.taskId ≠ -2)
    (hlive : ∀ t ∈ live, (t.processId = -1 ∨ t.processId = -2) ∨ ProcessIndex t.processId)
    (rest : List PbsTask) (nextTasks : NextTasks) :
    ∃ w, collectNextTasks (live ++ e :: rest) nextTasks = .ok w ∧
      ∀ i : Fin maxNumberProcesses, w.get i = nextTaskFrom i (nextTasks.get i) live := by
  induction live generalizing nextTasks with
  | nil =>
      refine ⟨nextTasks, ?_, fun i => rfl⟩
      rw [List.nil_append, collectNextTasks, if_pos (.inr hpid), pure_eq_ok, ok_bind]
      exact if_pos hid
  | cons t live ih =>
      obtain ⟨v, hv, hvget⟩ :=
        collectNextTasks_step t (live ++ e :: rest) nextTasks (hlive t (by simp))
      obtain ⟨w, hw, hget⟩ :=
        ih (fun u hu => hend u (by simp [hu])) (fun u hu => hlive u (by simp [hu])) v
      refine ⟨w, ?_, fun i => ?_⟩
      · rw [List.cons_append, hv, if_neg (hend t (by simp)), hw]
      · rw [hget, hvget, nextTaskFrom]
        split <;> rfl

theorem collectNextTasks_index {t : PbsTask} {l : List PbsTask} {nextTasks w : NextTasks}
    (h : collectNextTasks (t :: l) nextTasks = .ok w) :
    (t.processId = -1 ∨ t.processId = -2) ∨ ProcessIndex t.processId := by
  by_contra hnot
  obtain ⟨hfree, hindex⟩ := not_or.1 hnot
  rw [collectNextTasks, if_neg hfree, readNextTask, dif_neg hindex] at h
  cases h

theorem collectNextTasks_mem {l : List PbsTask} {nextTasks w : NextTasks}
    (h : collectNextTasks l nextTasks = .ok w) (i : Fin maxNumberProcesses) :
    (w.get i).taskId = -2 ∨ w.get i ∈ l.takeWhile (fun t => t.taskId ≠ -2) ∨
      w.get i = nextTasks.get i := by
  induction l generalizing nextTasks with
  | nil => cases h
  | cons t l ih =>
      obtain ⟨v, hv, hget⟩ := collectNextTasks_step t l nextTasks (collectNextTasks_index h)
      have hcell : v.get i = t ∨ v.get i = nextTasks.get i := by
        rw [hget]
        split
        · exact .inl rfl
        · exact .inr rfl
      rw [hv] at h
      by_cases hend : t.taskId = -2
      · rw [if_pos hend] at h
        obtain rfl := Except.ok.inj h
        rcases hcell with ht | hsame
        · exact .inl (by rw [ht, hend])
        · exact .inr (.inr hsame)
      · rw [if_neg hend] at h
        rw [List.takeWhile_cons_of_pos (by simpa using hend)]
        rcases ih h with hid | hmem | heq
        · exact .inl hid
        · exact .inr (.inl (List.mem_cons_of_mem _ hmem))
        · rw [heq]
          exact .inr (hcell.imp (fun ht => by simp [ht]) id)

theorem toList_writeNextTask_last {nextTasks w : NextTasks} {u : PbsTask} {f : Int → PbsTask}
    (hf : ∀ i : Fin maxNumberProcesses, (i : Int) < maxNumberProcesses - 1 → nextTasks.get i = f i)
    (hw : writeNextTask nextTasks (maxNumberProcesses - 1) u = .ok w) :
    w.toList = (List.range (maxNumberProcesses - 1)).map (fun pid : Nat => f pid) ++ [u] := by
  have hmax : maxNumberProcesses = 10 := rfl
  obtain ⟨w', hw', hget⟩ := writeNextTask_get nextTasks u
    (show ProcessIndex ((maxNumberProcesses : Int) - 1) by decide)
  obtain rfl : w' = w := Except.ok.inj (hw'.symm.trans hw)
  apply List.ext_getElem
  · simp [hmax]
  · intro i hi _
    have hi : i < maxNumberProcesses := by simpa using hi
    have hcell : w'.toList[i] = w'.get ⟨i, hi⟩ := Vector.getElem_toList _
    rw [hcell, hget, List.getElem_append]
    by_cases hlast : i = 9
    · rw [if_pos (by simp only; omega), dif_neg (by simp; omega)]
      simp
    · rw [if_neg (by simp only; omega), dif_pos (by simp; omega), hf _ (by simp only; omega)]
      simp

end Table

/-! ## The plans of a substitution -/

/-- The array holds a terminator. -/
def Terminated (p : PbsPlan) : Prop :=
  ∃ e ∈ p.tasks.toList, e.taskId = -2

instance (p : PbsPlan) : Decidable (Terminated p) :=
  inferInstanceAs (Decidable (∃ _ ∈ _, _))

theorem Terminated.tail {p : PbsPlan} (h : Terminated p) :
    ∃ e rest, p.tasks.toList = p.liveTasks ++ e :: rest ∧ e.taskId = -2 := by
  obtain ⟨u, hu, huid⟩ := h
  have hsplit := List.takeWhile_append_dropWhile (p := fun t : PbsTask => t.taskId ≠ -2)
    (l := p.tasks.toList)
  cases hdrop : p.tasks.toList.dropWhile fun t => t.taskId ≠ -2 with
  | nil =>
      have hall := List.dropWhile_eq_nil_iff.1 hdrop u hu
      exact absurd huid (by simpa using hall)
  | cons e rest =>
      rw [hdrop] at hsplit
      have hne : p.tasks.toList.dropWhile (fun t => t.taskId ≠ -2) ≠ [] := by
        rw [hdrop]
        simp
      have hid := List.head_dropWhile_not (fun t : PbsTask => t.taskId ≠ -2) hne
      simp only [hdrop, List.head_cons] at hid
      exact ⟨e, rest, hsplit.symm, by simpa using hid⟩

/-- The first entry with the id of a terminator. -/
def PbsPlan.terminator (p : PbsPlan) : Option PbsTask :=
  p.tasks.toList.find? (·.taskId = -2)

/-- A plan with process ids that are -1 or in front of the last entry of the process table, -2 at
the terminator, and distinct ids. -/
structure Substitutable (p : PbsPlan) : Prop where
  terminated : Terminated p
  ending : ∀ e ∈ p.terminator, e.processId = -2
  listed : ∀ t ∈ p.liveTasks,
    t.processId = -1 ∨ 0 ≤ t.processId ∧ t.processId ≤ maxNumberProcesses - 2
  distinct : (realIds p.liveTasks).Nodup

instance (p : PbsPlan) : Decidable (Substitutable p) :=
  decidable_of_iff (Terminated p ∧
      (∀ e ∈ p.terminator, e.processId = -2) ∧ (∀ t ∈ p.liveTasks,
        t.processId = -1 ∨ 0 ≤ t.processId ∧ t.processId ≤ maxNumberProcesses - 2) ∧
      (realIds p.liveTasks).Nodup)
    ⟨fun h => ⟨h.1, h.2.1, h.2.2.1, h.2.2.2⟩, fun h => ⟨h.1, h.2, h.3, h.4⟩⟩

/-- No first task of a process passes for a free slot or for "not found". -/
def Discernible (p : PbsPlan) : Prop :=
  ∀ i t, IsNextTask p i t → t.taskId ≠ -1 ∧ t.instructionsPlanned ≠ -1

theorem ne_of_mem_liveTasks {p : PbsPlan} {t : PbsTask} (h : t ∈ p.liveTasks) : t.taskId ≠ -2 := by
  unfold PbsPlan.liveTasks at h
  simpa using List.mem_takeWhile_imp h

theorem Substitutable.lists {p : PbsPlan} (h : Substitutable p) : ∀ t ∈ p.liveTasks,
    (t.processId = -1 ∨ t.processId = -2) ∨ ProcessIndex t.processId := by
  have hmax : maxNumberProcesses = 10 := rfl
  intro t ht
  unfold ProcessIndex
  rcases h.listed t ht with hfree | hlisted
  · exact .inl (.inl hfree)
  · omega

def PbsPlan.foundTask (p : PbsPlan) (pid : Int) : PbsTask :=
  nextTaskFrom pid noTaskFound p.liveTasks

theorem Substitutable.findNextTasks {p : PbsPlan} (h : Substitutable p) :
    ∃ w last, findNextTaskForAllProcesses p (Vector.replicate _ {}) = .ok w ∧
      last.taskId = -2 ∧ w.toList =
        (List.range (maxNumberProcesses - 1)).map (fun pid : Nat => p.foundTask pid) ++ [last] := by
  obtain ⟨e, rest, htasks, hid⟩ := h.terminated.tail
  have hend : ∀ t ∈ p.liveTasks, t.taskId ≠ -2 := fun t ht => ne_of_mem_liveTasks ht
  have hpid : e.processId = -2 := by
    apply h.ending e
    rw [PbsPlan.terminator, htasks]
    exact List.find?_eq_some_iff_append.2
      ⟨by simpa using hid, p.liveTasks, rest, rfl, fun t ht => by simpa using hend t ht⟩
  obtain ⟨v, hv, hget⟩ := collectNextTasks_get hid hpid hend h.lists rest
    (Vector.replicate _ noTaskFound)
  have hmark : markNotFound maxNumberProcesses 0 (Vector.replicate _ {}) =
      .ok (Vector.replicate _ noTaskFound) := rfl
  have hlast : ProcessIndex ((maxNumberProcesses : Int) - 1) := by decide
  have hread : readNextTask v (maxNumberProcesses - 1) = .ok (v.get ⟨_, hlast.lt⟩) := by
    rw [readNextTask, dif_pos hlast]
  obtain ⟨w, hw, _⟩ := writeNextTask_get v
    { v.get ⟨_, hlast.lt⟩ with taskId := -2 } hlast
  refine ⟨w, _, ?_, ?_, toList_writeNextTask_last (f := p.foundTask) ?_ hw⟩
  · rw [findNextTaskForAllProcesses, hmark, ok_bind, htasks, hv, ok_bind, hread, ok_bind, hw]
  · rfl
  · intro i _
    rw [hget]
    simp [PbsPlan.foundTask, Vector.get]

theorem Discernible.foundTask {p : PbsPlan} (hd : Discernible p) (pid : Nat) :
    p.foundTask pid = (p.nextTask pid).getD noTaskFound := by
  apply nextTaskFrom_notFound
  intro t ht
  have hpid : t.processId = pid := by simpa using List.find?_some ht
  have hlisted : t.processId ≠ -1 := by omega
  obtain ⟨j, hj⟩ := isNextTask_iff.2 ⟨hlisted, by rw [hpid]; exact ht⟩
  exact (hd j t hj).2

/-! ## The choice -/

def PbsPlan.latenessOf (p : PbsPlan) (t : PbsTask) : Int :=
  (processAt p.processes t.processId).lateness

/-- The first loop of `find_substitution_task` for one entry. -/
def sieveTask (t : PbsTask) : PbsTask :=
  if t.wasPreempted = 0 then { t with taskId := -1 } else t

section Choice

variable {p : PbsPlan} {e : PbsTask} {rest l : List PbsTask}

theorem filterNotPreempted_eq (hid : e.taskId = -2) (hl : ∀ t ∈ l, t.taskId ≠ -2) :
    filterNotPreempted (l ++ e :: rest) = .ok (l.map sieveTask ++ e :: rest) := by
  induction l with
  | nil => exact if_pos hid
  | cons t l ih =>
      rw [List.cons_append, filterNotPreempted, if_neg (hl t (by simp)),
        ih fun u hu => hl u (by simp [hu])]
      rfl

/-- The second loop is the scan for a peak of the lateness among the entries that have an id. -/
theorem latestNextTask_eq (hid : e.taskId = -2)
    (hl : ∀ t ∈ l, t.taskId ≠ -2 ∧ (t.taskId ≠ -1 → ProcessIndex t.processId))
    (maxLateness : Int) (subTask : Option PbsTask) :
    latestNextTask p (l ++ e :: rest) maxLateness subTask =
      .ok (peakFrom p.latenessOf maxLateness subTask (l.filter (·.taskId ≠ -1))) := by
  induction l generalizing maxLateness subTask with
  | nil => exact if_pos hid
  | cons t l ih =>
      obtain ⟨hend, hindex⟩ := hl t (by simp)
      have ih := ih fun u hu => hl u (by simp [hu])
      rw [List.cons_append, latestNextTask, if_neg hend]
      by_cases hreal : t.taskId = -1
      · rw [if_neg (by simpa using hreal), List.filter_cons_of_neg (by simpa using hreal), ih]
      · rw [if_pos hreal, List.filter_cons_of_pos (by simpa using hreal), peakFrom,
          readProcess_eq (hindex hreal), ok_bind]
        change (if maxLateness < p.latenessOf t then _ else _) = _
        split
        · exact ih _ _
        · exact ih _ _

end Choice

/-- The copies that keep an id in the first loop. -/
def PbsPlan.eligibleTasks (p : PbsPlan) : List PbsTask :=
  (((List.range (maxNumberProcesses - 1)).map fun pid : Nat => p.foundTask pid).map
    sieveTask).filter (·.taskId ≠ -1)

/-- Where `find_substitution_task` points to when it gets the table of
`find_next_task_for_all_processes`. -/
def substitutionTask (p : PbsPlan) : Exec (Option Nat) := do
  let nextTasks ← findNextTaskForAllProcesses p (Vector.replicate _ {})
  findSubstitutionTask nextTasks p

section Substitution

variable {p : PbsPlan} {t : PbsTask}

theorem foundTask_cases (p : PbsPlan) (pid : Nat) :
    p.foundTask pid = noTaskFound ∨
      p.foundTask pid ∈ p.liveTasks ∧ (p.foundTask pid).processId = pid :=
  nextTaskFrom_cases pid noTaskFound p.liveTasks

theorem Substitutable.substitutionTask_eq (h : Substitutable p) :
    substitutionTask p = match peakFrom p.latenessOf 0 none p.eligibleTasks with
      | none => .ok none
      | some t => findTaskWithTaskId p t.taskId := by
  have hmax : maxNumberProcesses = 10 := rfl
  obtain ⟨w, last, hw, hlast, hlist⟩ := h.findNextTasks
  have hcells : ∀ t ∈ (List.range (maxNumberProcesses - 1)).map
      (fun pid : Nat => p.foundTask pid), t.taskId ≠ -2 ∧
        (t.taskId ≠ -1 → ProcessIndex t.processId) := by
    intro t ht
    obtain ⟨pid, hpid, rfl⟩ := List.mem_map.1 ht
    rw [List.mem_range] at hpid
    rcases foundTask_cases p pid with hnone | ⟨hlive, heq⟩
    · rw [hnone]
      exact ⟨by decide, fun hid => absurd rfl hid⟩
    · refine ⟨ne_of_mem_liveTasks hlive, fun _ => ?_⟩
      rw [heq]
      unfold ProcessIndex
      omega
  rw [substitutionTask, hw, ok_bind, findSubstitutionTask, hlist,
    filterNotPreempted_eq hlast fun t ht => (hcells t ht).1, ok_bind,
    latestNextTask_eq hlast, ok_bind]
  · rfl
  · intro t ht
    obtain ⟨u, hu, rfl⟩ := List.mem_map.1 ht
    obtain ⟨hend, hindex⟩ := hcells u hu
    unfold sieveTask
    split
    · exact ⟨by simp, fun hid => absurd rfl hid⟩
    · exact ⟨hend, hindex⟩

theorem findTaskFrom_terminated {e : PbsTask} {live rest : List PbsTask} (hid : e.taskId = -2)
    (hend : ∀ t ∈ live, t.taskId ≠ -2) (taskId : Int) (i : Nat) :
    findTaskFrom taskId (live ++ e :: rest) i =
      .ok ((live.findIdx? (·.taskId = taskId)).map (i + ·)) := by
  induction live generalizing i with
  | nil => exact if_pos hid
  | cons t live ih =>
      rw [List.cons_append, findTaskFrom, if_neg (hend t (by simp)), List.findIdx?_cons]
      by_cases ht : t.taskId = taskId
      · rw [if_pos ht, if_pos (by simpa using ht)]
        rfl
      · rw [if_neg ht, if_neg (by simpa using ht), ih (fun u hu => hend u (by simp [hu])),
          Option.map_map]
        congr 2
        ext j
        simp only [Function.comp_apply]
        omega

theorem Terminated.findTask_eq (h : Terminated p) (taskId : Int) :
    findTaskWithTaskId p taskId = .ok (p.liveTasks.findIdx? (·.taskId = taskId)) := by
  obtain ⟨e, rest, htasks, hid⟩ := h.tail
  rw [findTaskWithTaskId, htasks,
    findTaskFrom_terminated hid (fun t ht => ne_of_mem_liveTasks ht)]
  simp

theorem latestNextTask_mem {l l' : List PbsTask} {maxLateness : Int} {subTask : Option PbsTask}
    {u : PbsTask} (hl : filterNotPreempted l = .ok l')
    (hu : latestNextTask p l' maxLateness subTask = .ok (some u)) :
    subTask = some u ∨ u ∈ l ∧ u.wasPreempted ≠ 0 ∧ u.taskId ≠ -1 ∧ u.taskId ≠ -2 := by
  induction l generalizing l' maxLateness subTask with
  | nil => cases hl
  | cons t l ih =>
      have hrest : ∀ {l'' m s}, filterNotPreempted l = .ok l'' →
          latestNextTask p l'' m s = .ok (some u) →
          s = some u ∨ u ∈ t :: l ∧ u.wasPreempted ≠ 0 ∧ u.taskId ≠ -1 ∧ u.taskId ≠ -2 :=
        fun hl hu => (ih hl hu).imp_right fun h => ⟨List.mem_cons_of_mem _ h.1, h.2⟩
      rw [filterNotPreempted] at hl
      by_cases hend : t.taskId = -2
      · rw [if_pos hend] at hl
        obtain rfl := Except.ok.inj hl
        rw [latestNextTask, if_pos hend] at hu
        exact .inl (Except.ok.inj hu)
      · rw [if_neg hend] at hl
        obtain ⟨l'', hl'', hl⟩ := bind_eq_ok.1 hl
        obtain rfl := Except.ok.inj hl
        by_cases hpre : t.wasPreempted = 0
        · rw [if_pos hpre, latestNextTask, if_neg (by simp), if_neg (by simp)] at hu
          exact hrest hl'' hu
        · rw [if_neg hpre, latestNextTask, if_neg hend] at hu
          split at hu
          · rename_i hreal
            obtain ⟨process, _, hu⟩ := bind_eq_ok.1 hu
            split at hu
            · rcases hrest hl'' hu with heq | hmem
              · obtain rfl := Option.some.inj heq
                exact .inr ⟨by simp, hpre, hreal, hend⟩
              · exact .inr hmem
            · exact hrest hl'' hu
          · exact hrest hl'' hu

theorem findNextTasks_mem {w : NextTasks}
    (hw : findNextTaskForAllProcesses p (Vector.replicate _ {}) = .ok w) {u : PbsTask}
    (hu : u ∈ w.toList) (hend : u.taskId ≠ -2) (hpre : u.wasPreempted ≠ 0) : u ∈ p.liveTasks := by
  unfold findNextTaskForAllProcesses at hw
  obtain ⟨marked, hmarked, hw⟩ := bind_eq_ok.1 hw
  obtain ⟨v, hv, hw⟩ := bind_eq_ok.1 hw
  obtain ⟨last, hlast, hw⟩ := bind_eq_ok.1 hw
  have hlast : ProcessIndex ((maxNumberProcesses : Int) - 1) := by decide
  obtain ⟨w', hw', hget⟩ := writeNextTask_get v { last with taskId := -2 } hlast
  obtain rfl : w' = w := Except.ok.inj (hw'.symm.trans hw)
  obtain ⟨i, hi, rfl⟩ := List.getElem_of_mem hu
  have hi : i < maxNumberProcesses := by simpa using hi
  have hcell : w'.toList[i] = w'.get ⟨i, hi⟩ := Vector.getElem_toList _
  rw [hcell, hget] at hpre hend ⊢
  split at hend
  · exact absurd rfl hend
  · rename_i hother
    rw [if_neg hother] at hpre ⊢
    rcases collectNextTasks_mem hv ⟨i, hi⟩ with hid | hmem | heq
    · exact absurd hid hend
    · exact hmem
    · obtain rfl : Vector.replicate _ noTaskFound = marked := Except.ok.inj hmarked
      rw [heq] at hpre
      exact absurd (by simp [Vector.get, noTaskFound]) hpre

theorem Terminated.of_substitutionTask (h : Terminated p) {k : Nat}
    (hk : substitutionTask p = .ok (some k)) :
    ∃ u t, u ∈ p.liveTasks ∧ u.wasPreempted ≠ 0 ∧ u.taskId ≠ -1 ∧ p.liveTasks[k]? = some t ∧
      t.taskId = u.taskId := by
  unfold substitutionTask findSubstitutionTask at hk
  obtain ⟨w, hw, hk⟩ := bind_eq_ok.1 hk
  obtain ⟨l', hl', hk⟩ := bind_eq_ok.1 hk
  obtain ⟨r, hr, hk⟩ := bind_eq_ok.1 hk
  cases r with
  | none => cases hk
  | some u =>
      dsimp only at hk
      rw [h.findTask_eq] at hk
      obtain ⟨hlt, hid, _⟩ := List.findIdx?_eq_some_iff_getElem.1 (Except.ok.inj hk)
      rw [decide_eq_true_eq] at hid
      rcases latestNextTask_mem hl' hr with hnone | ⟨hmem, hpre, hreal, hend⟩
      · cases hnone
      · exact ⟨u, _, findNextTasks_mem hw hmem hend hpre, hpre, hreal,
          List.getElem?_eq_getElem hlt, hid⟩

/-- The next tasks that were preempted, in the order of their process ids. -/
def PbsPlan.preemptedNextTasks (p : PbsPlan) : List PbsTask :=
  (List.range (maxNumberProcesses - 1)).filterMap fun pid : Nat =>
    (p.nextTask pid).filter (·.wasPreempted ≠ 0)

theorem Discernible.eligibleTasks (hd : Discernible p) :
    p.eligibleTasks = p.preemptedNextTasks := by
  unfold PbsPlan.eligibleTasks PbsPlan.preemptedNextTasks
  induction List.range (maxNumberProcesses - 1) with
  | nil => rfl
  | cons pid pids ih =>
      rw [List.map_cons, List.map_cons, hd.foundTask]
      cases hnext : p.nextTask pid with
      | none =>
          rw [List.filterMap_cons_none (by rw [hnext]; rfl),
            List.filter_cons_of_neg (by simp [sieveTask, noTaskFound]), ih]
      | some t =>
          have hpid : t.processId = pid := by simpa using List.find?_some hnext
          have hlisted : t.processId ≠ -1 := by omega
          obtain ⟨j, hj⟩ := isNextTask_iff.2 ⟨hlisted, by rw [hpid]; exact hnext⟩
          have hid := (hd j t hj).1
          by_cases hpre : t.wasPreempted = 0
          · rw [List.filterMap_cons_none (by simp [hnext, hpre]),
              List.filter_cons_of_neg (by simp [sieveTask, hpre]), ih]
          · rw [List.filterMap_cons_some (b := t) (by simp [hnext, hpre]),
              List.filter_cons_of_pos (by simpa [sieveTask, hpre] using hid), ih]
            simp [sieveTask, hpre]

/-- A preempted first task of a late process. -/
structure IsCandidate (p : PbsPlan) (i : Nat) (t : PbsTask) : Prop extends IsNextTask p i t where
  preempted : t.wasPreempted ≠ 0
  late : 0 < p.latenessOf t

theorem Substitutable.mem_preemptedNextTasks (h : Substitutable p) :
    t ∈ p.preemptedNextTasks ↔ (∃ i, IsNextTask p i t) ∧ t.wasPreempted ≠ 0 := by
  have hmax : maxNumberProcesses = 10 := rfl
  rw [isNextTask_iff, PbsPlan.preemptedNextTasks, List.mem_filterMap]
  constructor
  · rintro ⟨pid, _, hpid⟩
    obtain ⟨hnext, hpre⟩ := Option.filter_eq_some_iff.1 hpid
    have hfind : t.processId = pid := by simpa using List.find?_some hnext
    refine ⟨⟨by omega, ?_⟩, by simpa using hpre⟩
    rw [hfind, hnext]
  · rintro ⟨⟨hlisted, hnext⟩, hpre⟩
    have hindex := h.listed t (List.mem_of_find?_eq_some hnext)
    have hcast : ((t.processId.toNat : Nat) : Int) = t.processId := by omega
    refine ⟨t.processId.toNat, List.mem_range.2 (by omega), ?_⟩
    rw [hcast, Option.filter_eq_some_iff]
    exact ⟨hnext, by simpa using hpre⟩

theorem pairwise_preemptedNextTasks (p : PbsPlan) :
    p.preemptedNextTasks.Pairwise fun t u => t.processId < u.processId := by
  unfold PbsPlan.preemptedNextTasks
  rw [List.pairwise_filterMap]
  refine List.pairwise_lt_range.imp ?_
  intro i j hij t ht u hu
  have hi := List.find?_some (Option.filter_eq_some_iff.1 ht).1
  have hj := List.find?_some (Option.filter_eq_some_iff.1 hu).1
  rw [decide_eq_true_eq] at hi hj
  omega

theorem Substitutable.findTask_nextTask (h : Substitutable p) {i : Nat} (ht : IsNextTask p i t)
    (hid : t.taskId ≠ -1) : findTaskWithTaskId p t.taskId = .ok (some i) := by
  obtain ⟨e, rest, htasks, _⟩ := h.terminated.tail
  obtain ⟨hi, hget⟩ := List.getElem?_eq_some_iff.1 ht.task
  have hsplit : p.liveTasks = p.liveTasks.take i ++ t :: p.liveTasks.drop (i + 1) := by
    rw [← hget, List.getElem_cons_drop, List.take_append_drop]
  have hnd := h.distinct
  rw [hsplit] at hnd
  have hpre : ∀ u ∈ p.liveTasks.take i, u.taskId ≠ -2 ∧ u.taskId ≠ t.taskId := fun u hu =>
    ⟨ne_of_mem_liveTasks (List.mem_of_mem_take hu), (ne_of_nodup hnd hid).1 u hu⟩
  have hend := ne_of_mem_liveTasks (List.mem_of_getElem? ht.task)
  rw [findTaskWithTaskId, htasks, hsplit, List.append_assoc, List.cons_append,
    findTaskFrom_found hend hpre rfl, List.length_take, Nat.zero_add, Nat.min_eq_left (by omega)]

theorem Substitutable.substitutionTask_cases (h : Substitutable p) (hd : Discernible p) :
    (substitutionTask p = .ok none ∧ ∀ t ∈ p.preemptedNextTasks, p.latenessOf t ≤ 0) ∨
    ∃ i t, substitutionTask p = .ok (some i) ∧ IsCandidate p i t ∧
      IsPeak p.latenessOf 0 p.preemptedNextTasks t := by
  have heq := h.substitutionTask_eq
  rw [hd.eligibleTasks] at heq
  rcases peakFrom_cases p.latenessOf p.preemptedNextTasks 0 none with
    ⟨hnone, hfloor⟩ | ⟨t, ht, hpeak⟩
  · rw [hnone] at heq
    exact .inl ⟨heq, hfloor⟩
  · obtain ⟨⟨i, hnext⟩, hpre⟩ := h.mem_preemptedNextTasks.1 hpeak.mem
    rw [ht] at heq
    dsimp only at heq
    rw [h.findTask_nextTask hnext (hd i t hnext).1] at heq
    exact .inr ⟨i, t, heq, ⟨hnext, hpre, hpeak.floor_lt⟩, hpeak⟩

theorem Substitutable.substitutionTask_none (h : Substitutable p) (hd : Discernible p)
    (hnone : ¬ ∃ i t, IsCandidate p i t) : substitutionTask p = .ok none := by
  rcases h.substitutionTask_cases hd with ⟨heq, _⟩ | ⟨i, t, _, hcandidate, _⟩
  · exact heq
  · exact absurd ⟨i, t, hcandidate⟩ hnone

end Substitution

/-- The result is the first task of the latest process among those whose first task was preempted,
the lowest process id on ties, and `NULL` exactly when none of these processes is late. -/
def SubstitutesLatest (p : PbsPlan) : Prop :=
  ∃ r, substitutionTask p = .ok r ∧ (r = none ↔ ¬ ∃ i t, IsCandidate p i t) ∧
    ∀ i, r = some i → ∃ t, IsCandidate p i t ∧
      ∀ j u, IsNextTask p j u → u.wasPreempted ≠ 0 → p.latenessOf u ≤ p.latenessOf t ∧
        (u.processId < t.processId → p.latenessOf u < p.latenessOf t)

theorem substitutesLatest {p : PbsPlan} (h : Substitutable p) (hd : Discernible p) :
    SubstitutesLatest p := by
  have hmem := fun t => h.mem_preemptedNextTasks (t := t)
  rcases h.substitutionTask_cases hd with ⟨heq, hfloor⟩ | ⟨i, t, heq, hcandidate, hpeak⟩
  · refine ⟨none, heq, ?_, fun i hi => nomatch hi⟩
    apply iff_of_true rfl
    rintro ⟨i, t, hcandidate⟩
    have hle := hfloor t ((hmem t).2 ⟨⟨i, hcandidate.toIsNextTask⟩, hcandidate.preempted⟩)
    have := hcandidate.late
    omega
  · refine ⟨some i, heq, ?_, ?_⟩
    · exact iff_of_false (fun hi => nomatch hi) (fun hno => hno ⟨i, t, hcandidate⟩)
    · rintro _ ⟨⟩
      refine ⟨t, hcandidate, fun j u hu hupre => ?_⟩
      have humem := (hmem u).2 ⟨⟨j, hu⟩, hupre⟩
      exact ⟨hpeak.le humem, fun hpid =>
        hpeak.lt_of_key (pairwise_preemptedNextTasks p) humem hpid⟩

/-- The tasks `l` in front of zeroed entries, with the lateness of each process. -/
def planOfTasks (lateness : List Int) (l : List PbsTask) : PbsPlan :=
  { zeroedPlan with
    processes := Vector.ofFn fun i => { lateness := lateness.getD i 0 }
    tasks := taskArray (l ++ List.replicate (maxNumberTasksInPlan - l.length) {}) }

def freeSlotTask : PbsTask :=
  { taskId := -1, processId := -1, instructionsPlanned := 100, slotOwner := -1 }

def endTask : PbsTask :=
  { taskId := -2, processId := -2 }

theorem discernible_of_liveTasks {p : PbsPlan}
    (h : ∀ t ∈ p.liveTasks, t.processId ≠ -1 → t.taskId ≠ -1 ∧ t.instructionsPlanned ≠ -1) :
    Discernible p :=
  fun _ t ht => h t (List.mem_of_getElem? ht.task) ht.listed

/-- Processes 0 and 1 are late and their first tasks were preempted. -/
theorem substitutesLatest_twoLate : ∃ p, substitutionTask p = .ok (some 2) ∧ Substitutable p ∧
    Discernible p ∧ SubstitutesLatest p := by
  obtain ⟨p, hp⟩ : ∃ p, p = planOfTasks [10, 20]
    [freeSlotTask, { taskId := 0, instructionsPlanned := 5, wasPreempted := 1 },
      { taskId := 1, processId := 1, instructionsPlanned := 5, wasPreempted := 1 },
      { taskId := 2, instructionsPlanned := 5 }, endTask] := ⟨_, rfl⟩
  have hs : Substitutable p := by
    rw [hp]
    decide +kernel
  have hd : Discernible p := by
    apply discernible_of_liveTasks
    rw [hp]
    decide +kernel
  refine ⟨p, ?_, hs, hd, substitutesLatest hs hd⟩
  rw [hp]
  decide +kernel

/-- The first task of process 0 has the length that stands for "not found", and the second
one, which was not preempted, takes its place. -/
theorem substitutesLatest_notFound : ∃ p, Substitutable p ∧ ¬ SubstitutesLatest p := by
  obtain ⟨p, hp⟩ : ∃ p, p = planOfTasks [10]
    [freeSlotTask, { taskId := 0, instructionsPlanned := -1, wasPreempted := 1 },
      { taskId := 1, instructionsPlanned := 5 }, endTask] := ⟨_, rfl⟩
  have hs : Substitutable p := by
    rw [hp]
    decide +kernel
  have hnone : substitutionTask p = .ok none := by
    rw [hp]
    decide +kernel
  have hcheck : ∃ t ∈ p.liveTasks[1]?, t.processId = 0 ∧ t.wasPreempted = 1 ∧
      p.latenessOf t = 10 ∧ ∀ u ∈ p.liveTasks.take 1, u.processId ≠ 0 := by
    rw [hp]
    decide +kernel
  obtain ⟨t, ht, hpid, hpre, hlate, hfirst⟩ := hcheck
  refine ⟨p, hs, ?_⟩
  rintro ⟨r, hr, hiff, _⟩
  obtain rfl : none = r := Except.ok.inj (hnone.symm.trans hr)
  apply hiff.1 rfl
  refine ⟨1, t, ⟨ht, by omega, by rwa [hpid]⟩, by omega, by omega⟩

end PbsLevel2
