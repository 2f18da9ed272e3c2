import PbsLevel2.Lib.Ahead
import PbsLevel2.Proofs.Order
import PbsLevel2.Proofs.Signals

/-!
# Slot owners

The owner of the slot a task runs in stands at the place of the task or behind it.  With
distinct ids the lookup of a slot owner therefore finds a task that still has to run, as
long as the current entry is a task.
-/

namespace PbsLevel2

open Lib

/-- `o` owns the slot `t` runs in. -/
def Owns (t o : PbsTask) : Prop :=
  o.taskId = t.slotOwner ∧ o.processId = t.processId

/-- The ids are distinct and slot owners come at or behind the tasks they host. -/
structure Owned (p : PbsPlan) : Prop where
  distinct : (realIds p.liveTasks).Nodup
  ahead : Ahead Owns [] p.todoTasks

def PbsTask.link (t : PbsTask) : Int × Int × Int :=
  (t.taskId, t.processId, t.slotOwner)

theorem ahead_of_link {ctx ctx' l l' : List PbsTask}
    (hctx : ctx'.map PbsTask.link = ctx.map PbsTask.link)
    (hl : l'.map PbsTask.link = l.map PbsTask.link) (h : Ahead Owns ctx l) : Ahead Owns ctx' l' := by
  have hmap : Ahead (fun a o : Int × Int × Int => o.1 = a.2.2 ∧ o.2.1 = a.2.1)
      (ctx.map PbsTask.link) (l.map PbsTask.link) := Ahead.of_map h
  rw [← hctx, ← hl] at hmap
  exact hmap.map

section Kept

variable {p q : PbsPlan} {done todo tail done' todo' tail' : List PbsTask}

theorem realIds_of_jobs {l m : List PbsTask}
    (h : (l.map PbsTask.job).Perm (m.map PbsTask.job)) : (realIds l).Perm (realIds m) := by
  have hids := h.map Job.taskId
  rw [List.map_map, List.map_map] at hids
  exact realIds_perm hids

theorem Owned.of_lists (h : Owned p) (hl : Layout p done todo tail)
    (hl' : Layout q done' todo' tail')
    (hjobs : ((done' ++ todo').map PbsTask.job).Perm ((done ++ todo).map PbsTask.job))
    (hahead : Ahead Owns [] todo → Ahead Owns [] todo') : Owned q := by
  refine ⟨?_, ?_⟩
  · rw [hl'.liveTasks_eq]
    refine (realIds_of_jobs hjobs).nodup_iff.2 ?_
    rw [← hl.liveTasks_eq]
    exact h.distinct
  · rw [hl'.todoTasks_eq]
    refine hahead ?_
    rw [← hl.todoTasks_eq]
    exact h.ahead

theorem Cut.ahead {cur n f : PbsTask} {blk ns post : List PbsTask}
    (hc : Cut cur todo blk n ns f post) (h : Ahead Owns [] (cur :: todo)) :
    Ahead Owns [] (changeTaskState n .running :: ns ++
      ((bump cur :: blk).map (hosted f.taskId) ++ f :: post)) := by
  have hsplit : cur :: todo = (cur :: blk) ++ ((n :: ns) ++ f :: post) := by rw [hc.todo_eq]; simp
  rw [hsplit, Ahead.append, Ahead.append] at h
  obtain ⟨_, hgap, hrest⟩ := h
  refine Ahead.append.2 ⟨?_, Ahead.append.2 ⟨?_, hrest⟩⟩
  · have hgap' : Ahead Owns (f :: post ++ []) (changeTaskState n .running :: ns) :=
      ahead_of_link (l := n :: ns) rfl rfl hgap
    refine hgap'.mono fun o ho => ?_
    simp only [List.append_nil, List.mem_append] at ho ⊢
    exact .inr ho
  · refine Ahead.of_common (o := f) (by simp) ?_
    intro t ht
    obtain ⟨u, hu, rfl⟩ := List.mem_map.1 ht
    refine ⟨rfl, hc.next.trans ?_⟩
    rcases List.mem_cons.1 hu with rfl | hu
    · rfl
    · exact (hc.stack u hu).2.1

theorem upheld_owned : Upheld Owned where
  congr := by
    intro p q hsame h
    have hlive : q.liveTasks = p.liveTasks := by
      rw [PbsPlan.liveTasks, PbsPlan.liveTasks, hsame.tasks]
    have htodo : q.todoTasks = p.todoTasks := by
      rw [PbsPlan.todoTasks, PbsPlan.todoTasks, hsame.tasks, hsame.indexCurTask]
    exact ⟨hlive ▸ h.distinct, htodo ▸ h.ahead⟩
  credit := by
    intro p q done rest tail cur r hv hr hq h
    obtain ⟨done', rest', tail', hv', hd, hrest, _⟩ := hv.credit hr hq
    refine h.of_lists hv.toLayout hv'.toLayout ?_ fun hahead => ahead_of_link rfl ?_ hahead
    · rw [List.map_append, List.map_append, List.map_cons, List.map_cons, job_credited,
        map_job_of_body hd, map_job_of_body hrest]
    · have hlink : (credited r cur).link = cur.link := by
        rw [credited]
        split <;> simp [PbsTask.link, creditSlot]
      rw [List.map_cons, List.map_cons, hlink,
        map_of_view (g := PbsTask.link) hrest fun _ => rfl]
  signal := by
    intro p done todo tail factor pid hv _ h
    refine h.of_lists hv.toLayout (hv.rescheduled factor pid).toLayout ?_
      fun hahead => ahead_of_link rfl ?_ hahead
    · rw [List.map_append, List.map_append, map_job_rescale]
    · rw [List.map_map]
      refine List.map_congr_left fun t _ => ?_
      change (rescale factor pid t).link = t.link
      rw [rescale]
      split <;> rfl
  finish := by
    intro p done rest tail cur surplus hv _ h
    refine h.of_lists hv.toLayout (hv.booked _).passed.toLayout (by simp) fun hahead => ?_
    exact ahead_of_link rfl (map_startHead PbsTask.link (fun _ => rfl) rest) hahead.2
  skip := by
    intro p done rest tail cur hv h
    refine h.of_lists hv.toLayout hv.passed.toLayout (by simp) fun hahead => ?_
    exact ahead_of_link rfl (map_startHead PbsTask.link (fun _ => rfl) rest) hahead.2
  bump := by
    intro p done todo tail cur hv h
    refine h.of_lists hv.toLayout hv.bumped.toLayout ?_
      fun hahead => ahead_of_link (l := cur :: todo) rfl rfl hahead
    rw [List.map_append, List.map_append]
    exact List.Perm.refl _
  rotate := by
    intro p done todo tail blk ns post cur n f hv _ hc h
    refine h.of_lists hv.toLayout (hv.rotated hc).toLayout ?_ hc.ahead
    have hperm := hc.jobs_perm.append_left (done.map PbsTask.job)
    rw [← List.map_append, ← List.map_append] at hperm
    exact hperm

theorem kept_owned : Kept (fun _ => True) Owned :=
  upheld_owned.kept

end Kept

/-! ## The lookup of a slot owner -/

/-- The lookup of the current slot owner finds an entry at or behind the current one and in
front of the terminator, of the current process and, where the current task runs in the slot of
another one and `find_task_with_task_id` is called at all, an unfinished one. -/
def Resolves (q : PbsPlan) : Prop :=
  ∃ cur k o, q.readCurTask = .ok cur ∧ findTaskWithTaskId q cur.slotOwner = .ok (some k) ∧
    q.indexCurTask ≤ k ∧ q.todoTasks[k - q.indexCurTask]? = some o ∧
    o.processId = cur.processId ∧ (cur.slotOwner ≠ cur.taskId → o.state ≠ .finished)

section Lookup

variable {p q : PbsPlan} {done todo tail rest : List PbsTask} {cur : PbsTask} {r : Int}

theorem not_mem_realIds {l : List PbsTask} {id : Int} (hid : id ≠ -1) (h : id ∉ realIds l) :
    ∀ t ∈ l, t.taskId ≠ id := by
  rintro t ht rfl
  exact h (List.mem_filter.2 ⟨List.mem_map_of_mem ht, by simpa using hid⟩)

theorem ne_of_nodup {a b : List PbsTask} {t : PbsTask} (h : (realIds (a ++ t :: b)).Nodup)
    (ht : t.taskId ≠ -1) : (∀ u ∈ a, u.taskId ≠ t.taskId) ∧ ∀ u ∈ b, u.taskId ≠ t.taskId := by
  rw [realIds, List.map_append, List.filter_append, List.map_cons,
    List.filter_cons_of_pos (by simpa using ht)] at h
  obtain ⟨_, hb, hdisjoint⟩ := List.nodup_append.1 h
  exact ⟨not_mem_realIds ht fun hin => hdisjoint _ hin _ (by simp) rfl,
    not_mem_realIds ht (List.nodup_cons.1 hb).1⟩

theorem Owned.owner (h : Owned p) (hv : Placed p done (cur :: rest) tail) (hcur : cur.taskId ≠ -1) :
    ∃ a o b, cur :: rest = a ++ o :: b ∧ o.taskId = cur.slotOwner ∧
      o.processId = cur.processId ∧ cur.slotOwner ≠ -2 ∧
      (∀ t ∈ done ++ a, t.taskId ≠ cur.slotOwner) ∧ ∀ t ∈ b, t.taskId ≠ cur.slotOwner := by
  have hahead := h.ahead
  rw [hv.toLayout.todoTasks_eq] at hahead
  obtain ⟨⟨o, ho, hid, hpid⟩, _⟩ := hahead
  rw [List.append_nil] at ho
  obtain ⟨a, b, hsplit⟩ := List.append_of_mem ho
  have hmem : o ∈ done ++ cur :: rest := by rw [hsplit]; simp
  have hreal : o.taskId ≠ -1 := by
    rw [ne_eq, hv.free o hmem, hpid, ← hv.free cur (by simp)]
    exact hcur
  have hnd := h.distinct
  rw [hv.toLayout.liveTasks_eq, hsplit, ← List.append_assoc] at hnd
  obtain ⟨ha, hb⟩ := ne_of_nodup hnd hreal
  exact ⟨a, o, b, hsplit, hid, hpid, hid ▸ (hv.live o hmem).1, hid ▸ ha, hid ▸ hb⟩

/-- Free slots share one id, so each owns its slot. -/
theorem Owned.owner_free (h : Owned p) (hv : Placed p done (cur :: rest) tail)
    (hfree : cur.taskId = -1) : cur.slotOwner = cur.taskId := by
  have hahead := h.ahead
  rw [hv.toLayout.todoTasks_eq] at hahead
  obtain ⟨⟨o, ho, hid, hpid⟩, _⟩ := hahead
  rw [List.append_nil] at ho
  have hpid' : o.processId = -1 := hpid.trans ((hv.free cur (by simp)).1 hfree)
  rw [← hid, (hv.free o (List.mem_append_right _ ho)).2 hpid', hfree]

theorem Placed.findTask_owner (hv : Placed p done (cur :: rest) tail) {a b : List PbsTask}
    {o : PbsTask} (hsplit : cur :: rest = a ++ o :: b)
    (hid : o.taskId = cur.slotOwner) (hend : cur.slotOwner ≠ -2)
    (hne : ∀ t ∈ done ++ a, t.taskId ≠ cur.slotOwner) :
    findTaskWithTaskId p cur.slotOwner = .ok (some (done.length + a.length)) := by
  have htasks : p.tasks.toList = (done ++ a) ++ o :: (b ++ tail) := by
    rw [hv.tasks, hsplit]; simp
  have hpre : ∀ t ∈ done ++ a, t.taskId ≠ -2 ∧ t.taskId ≠ cur.slotOwner := by
    intro t ht
    refine ⟨(hv.live t ?_).1, hne t ht⟩
    rw [hsplit]
    simp only [List.mem_append, List.mem_cons] at ht ⊢
    tauto
  rw [findTaskWithTaskId, htasks, findTaskFrom_found hend hpre hid, Nat.zero_add,
    List.length_append]

theorem Owned.resolves (h : Owned p) (hv : Placed p done (cur :: rest) tail)
    (hcur : cur.taskId ≠ -1) (hbehind : ∀ t ∈ rest, t.state ≠ .finished) : Resolves p := by
  obtain ⟨a, o, b, hsplit, hid, hpid, hend, hne, _⟩ := h.owner hv hcur
  refine ⟨cur, _, o, hv.readCurTask, hv.findTask_owner hsplit hid hend hne, ?_, ?_, hpid,
    fun hguest => ?_⟩
  · rw [hv.index]
    omega
  · rw [hv.toLayout.todoTasks_eq, hsplit, hv.index, Nat.add_sub_cancel_left,
      List.getElem?_append_right (Nat.le_refl _), Nat.sub_self]
    rfl
  · -- the owner is not the current task, so it stands behind it
    cases a with
    | nil =>
        obtain ⟨rfl, _⟩ := List.cons.inj hsplit
        exact absurd hid.symm hguest
    | cons c a =>
        obtain ⟨_, rfl⟩ := List.cons.inj hsplit
        exact hbehind o (by simp)

theorem Owned.retireTask (h : Owned p) (hv : Placed p done (cur :: rest) tail) (r : Int) :
    Owned (p.withTasks (done ++ pbsUpdateRetiredInstructionsTask r cur :: (rest ++ tail))) ∧
    Placed (p.withTasks (done ++ pbsUpdateRetiredInstructionsTask r cur :: (rest ++ tail))) done
      (pbsUpdateRetiredInstructionsTask r cur :: rest) tail := by
  have hlist := toList_withTasks_joint hv.toLayout.tasks_cons
    (pbsUpdateRetiredInstructionsTask r cur)
  have hjob : (pbsUpdateRetiredInstructionsTask r cur).job = cur.job := by simp [PbsTask.job]
  have hlink : (pbsUpdateRetiredInstructionsTask r cur).link = cur.link := by simp [PbsTask.link]
  have hvq : Placed (p.withTasks (done ++ pbsUpdateRetiredInstructionsTask r cur :: (rest ++ tail)))
      done (pbsUpdateRetiredInstructionsTask r cur :: rest) tail :=
    hv.of_jobs hlist rfl (by rw [List.map_cons, List.map_cons, hjob]) rfl rfl rfl rfl
  refine ⟨h.of_lists hv.toLayout hvq.toLayout ?_ fun hahead => ?_, hvq⟩
  · rw [List.map_append, List.map_append, List.map_cons, List.map_cons, hjob]
  · exact ahead_of_link rfl (by rw [List.map_cons, List.map_cons, hlink]) hahead

theorem Owned.slotOfCurTask (h : Owned p) (hv : Placed p done (cur :: rest) tail) :
    ∃ a o b, cur :: rest = a ++ o :: b ∧ o.processId = cur.processId ∧
      (cur.taskId = -1 → a = []) ∧
      (cur.taskId ≠ -1 → ∀ t ∈ a ++ b, t.taskId ≠ cur.slotOwner) ∧
      slotOfCurTask p = .ok (done ++ a).length := by
  rw [PbsLevel2.slotOfCurTask, hv.readCurTask, ok_bind]
  by_cases hcur : cur.taskId = -1
  · refine ⟨[], cur, rest, rfl, rfl, fun _ => rfl, fun hreal => absurd hcur hreal, ?_⟩
    rw [if_pos (h.owner_free hv hcur), hv.cur, List.append_nil]
    rfl
  obtain ⟨a, o, b, hsplit, hid, hpid, hend, hne, hneb⟩ := h.owner hv hcur
  refine ⟨a, o, b, hsplit, hpid, fun hfree => absurd hfree hcur, fun _ t ht => ?_, ?_⟩
  · rcases List.mem_append.1 ht with ht | ht
    · exact hne t (by simp [ht])
    · exact hneb t ht
  by_cases hown : cur.slotOwner = cur.taskId
  · -- no entry in front of the owner has its id, so the owner is the current task
    obtain rfl : a = [] := by
      cases a with
      | nil => rfl
      | cons c a =>
          obtain ⟨rfl, _⟩ := List.cons.inj hsplit
          exact absurd hown.symm (hne cur (by simp))
    rw [if_pos hown, hv.cur, List.append_nil]
    rfl
  · rw [if_neg hown, hv.findTask_owner hsplit hid hend hne, ok_bind, List.length_append]
    rfl

/-- The list after a credit: the owner's slot counts what the current task executed. -/
theorem Owned.updateRetiredInstructions_eq (h : Owned p) (hv : Placed p done (cur :: rest) tail)
    (hr : 0 ≤ r) (hi : ProcessIndex p.curProcess) :
    ∃ a o b, pbsUpdateRetiredInstructionsTask r cur :: rest = a ++ o :: b ∧
      o.processId = cur.processId ∧ (cur.taskId = -1 → a = []) ∧
      (cur.taskId ≠ -1 → ∀ t ∈ a ++ b, t.taskId ≠ cur.slotOwner) ∧
      Placed (p.withTasks (done ++ (a ++ creditSlot r o :: b ++ tail))) done
        (a ++ creditSlot r o :: b) tail ∧
      updateRetiredInstructions r p = .ok
        { p.withTasks (done ++ (a ++ creditSlot r o :: b ++ tail)) with
          processes := updateProcess p.processes p.curProcess (updateRetiredInstructionsProcess r)
          instructionsRetired := p.instructionsRetired + r } := by
  obtain ⟨h₁, hv₁⟩ := h.retireTask hv r
  obtain ⟨a, o, b, hsplit, hpid, hfree, hne, hslot⟩ := h₁.slotOfCurTask hv₁
  rw [retire_taskId] at hfree hne
  rw [retire_slotOwner] at hne
  have htasks := hv₁.tasks
  rw [hsplit, List.append_assoc, List.cons_append, ← List.append_assoc] at htasks
  have hlist : done ++ a ++ creditSlot r o :: (b ++ tail) =
      done ++ (a ++ creditSlot r o :: b ++ tail) := by simp
  have hmodify := modifyTask_joint htasks (creditSlot r)
  rw [hlist] at hmodify
  refine ⟨a, o, b, hsplit, by rw [hpid, retire_processId], hfree, hne, ?_, ?_⟩
  · refine hv₁.of_jobs (q := p.withTasks (done ++ (a ++ creditSlot r o :: b ++ tail))) ?_ rfl ?_ rfl
      rfl rfl rfl
    · rw [← hlist]
      exact toList_withTasks_joint htasks _
    · rw [hsplit]
      simp only [List.map_append, List.map_cons]
      rfl
  · have hfirst : p.modifyTask p.curTask (pbsUpdateRetiredInstructionsTask r) =
        .ok (p.withTasks (done ++ pbsUpdateRetiredInstructionsTask r cur :: (rest ++ tail))) := by
      rw [hv.cur]
      exact modifyTask_joint hv.toLayout.tasks_cons _
    rw [updateRetiredInstructions, if_neg (by omega), hfirst, ok_bind, hslot, ok_bind]
    change (PbsPlan.modifyTask _ _ (creditSlot r) >>= _) = _
    rw [hmodify, ok_bind]
    dsimp only [PbsPlan.withTasks]
    rw [modifyProcess_eq hi]
    rfl

theorem Owned.placed_credit (h : Owned p) (hv : Placed p done (cur :: rest) tail) (hr : 0 ≤ r)
    (hq : updateRetiredInstructions r p = .ok q) :
    ∃ a o b, pbsUpdateRetiredInstructionsTask r cur :: rest = a ++ o :: b ∧
      o.processId = cur.processId ∧ (cur.taskId = -1 → a = []) ∧
      (cur.taskId ≠ -1 → ∀ t ∈ a ++ b, t.taskId ≠ cur.slotOwner) ∧
      Placed q done (a ++ creditSlot r o :: b) tail := by
  obtain ⟨_, _, _, _, _, _, _, hi, _⟩ := hv.toLayout.retire hr hq
  obtain ⟨a, o, b, hsplit, hpid, hfree, hne, hv', heq⟩ := h.updateRetiredInstructions_eq hv hr hi
  obtain rfl := Except.ok.inj (heq.symm.trans hq)
  exact ⟨a, o, b, hsplit, hpid, hfree, hne, hv'.of_same rfl rfl rfl rfl⟩

theorem Layout.not_resolves (hl : Layout p done [] tail) : ¬ Resolves p := by
  rintro ⟨_, _, _, _, _, _, htodo, _⟩
  rw [hl.todoTasks_eq] at htodo
  cases htodo

end Lookup

/-! ## The lookups of a tick -/

/-- `update_retired_instructions(r, p)` looks up the slot of the current task in `q`. -/
def LooksUp (r : Int) (p q : PbsPlan) : Prop :=
  0 ≤ r ∧ p.modifyTask p.curTask (pbsUpdateRetiredInstructionsTask r) = .ok q

/-- The tick from `s` looks up a slot owner in `q`: for its credit, in `check_t1`, in
`handle_no_preemption_slot_found` or in `handle_free_slot`. -/
inductive LookupPoint (b : Build) (r : Int) (s : System) (q : PbsPlan) : Prop
  | credit (cur : PbsTask) (hcur : s.plan.readCurTask = .ok cur) (hlive : cur.taskId ≠ -2)
      (hlook : LooksUp r s.plan q)
  | checkT1 (c₀ : PbsTask) (p₁ : PbsPlan) (cur : PbsTask) (s₂ : System)
      (hc₀ : s.plan.readCurTask = .ok c₀) (hlive : c₀.taskId ≠ -2)
      (hcredit : updateRetiredInstructions r s.plan = .ok p₁)
      (hcur : p₁.readCurTask = .ok cur) (hstate : cur.state ≠ .finished)
      (hsignal : signalIfT2 b { s with plan := p₁ } = .ok s₂) (hq : q = s₂.plan)
  | noSlot (p : PbsPlan) (cur : PbsTask) (p₁ : PbsPlan)
      (hpoint : preemptionPoint b r s = .ok (some p)) (hcur : p.readCurTask = .ok cur)
      (hbump : p.modifyTask p.curTask (fun t => { t with wasPreempted := t.wasPreempted + 1 }) =
        .ok p₁)
      (hfind : findSlotToMoveTo b cur.processId p₁ = .ok none)
      (hlook : LooksUp (cur.instructionsReal - cur.instructionsRetiredTask) p₁ q)
  | freeSlot (p : PbsPlan) (cur : PbsTask) (p₁ : PbsPlan) (first : PbsTask)
      (hpoint : freeSlotPoint b r s = .ok (some p)) (hcur : p.readCurTask = .ok cur)
      (hfree : cur.taskId = -1)
      (hnext : updateCurProcess { p with
        indexCurTask := p.indexCurTask + 1
        curTask := p.curTask + 1 } = .ok p₁)
      (hfirst : p₁.readTask 0 = .ok first)
      (hlook : LooksUp (-first.instructionsPlanned) p₁ q)

/-- A free slot in front of the terminator is skipped with a credit of less than zero
instructions, which looks up nothing. -/
def creditsNoTerminator (p : PbsPlan) : Bool :=
  match p.readCurTask, p.readTask (p.curTask + 1), p.readTask 0 with
  | .ok cur, .ok next, .ok first =>
      !(cur.taskId = -1 && next.taskId = -2) || 0 < first.instructionsPlanned
  | _, _, _ => true

section LookupPoints

variable {p q : PbsPlan} {done tail rest : List PbsTask} {cur : PbsTask} {r : Int} {b : Build}
  {s : System}

theorem kept_lookups : Kept (fun _ => True) fun p => Owned p ∧ Unfinished p :=
  kept_owned.and kept_unfinished

theorem Owned.looksUp (h : Owned p) (hv : Placed p done (cur :: rest) tail)
    (hcur : cur.taskId ≠ -1) (hbehind : ∀ t ∈ rest, t.state ≠ .finished) (hlook : LooksUp r p q) :
    Resolves q := by
  obtain ⟨_, hq⟩ := hlook
  rw [hv.cur, modifyTask_joint hv.toLayout.tasks_cons] at hq
  obtain rfl := Except.ok.inj hq
  obtain ⟨h₁, hv₁⟩ := h.retireTask hv r
  exact h₁.resolves hv₁ (by rwa [retire_taskId]) hbehind

theorem Layout.looksUp_terminator (hl : Layout p done [] tail) (hlook : LooksUp r p q) :
    ¬ Resolves q := by
  obtain ⟨t, rest, rfl, hid, hpid⟩ := hl.terminates
  obtain ⟨_, hq⟩ := hlook
  have htasks : p.tasks.toList = done ++ t :: rest := hl.tasks
  rw [hl.cur, modifyTask_joint htasks] at hq
  obtain rfl := Except.ok.inj hq
  have hlq : Layout (p.withTasks (done ++ pbsUpdateRetiredInstructionsTask r t :: rest)) done []
      (pbsUpdateRetiredInstructionsTask r t :: rest) :=
    ⟨toList_withTasks_joint htasks _, ⟨_, _, rfl, by simpa using hid, by simpa using hpid⟩, hl.live,
      hl.cur, hl.index⟩
  exact hlq.not_resolves

theorem Layout.modifyCur {todo : List PbsTask} (hl : Layout p done todo tail)
    (f : PbsTask → PbsTask) : ∃ q, p.modifyTask p.curTask f = .ok q := by
  obtain ⟨cur, post, heq, _⟩ := hl.head
  have htasks : p.tasks.toList = done ++ cur :: post := by rw [hl.tasks, heq]
  exact ⟨_, by rw [hl.cur, modifyTask_joint htasks]⟩

theorem Valid.rest_eq_nil (hv : Valid p done (cur :: rest) tail)
    (hend : (nextEntry rest tail).taskId = -2) : rest = [] := by
  cases rest with
  | nil => rfl
  | cons n rest => exact absurd hend (hv.live n (by simp)).1

theorem creditsNoTerminator_of_resolves {a : Agenda Job}
    (h : At (fun p => Owned p ∧ Unfinished p) a s.plan) (hh : HeadReal s.plan) (hr : 0 ≤ r)
    (hall : ∀ q, LookupPoint b r s q → Resolves q) {p : PbsPlan}
    (hpoint : freeSlotPoint b r s = .ok (some p)) : creditsNoTerminator p = true := by
  obtain ⟨a', done, todo, tail, hv, _⟩ :=
    kept_lookups.freeSlotPointAt h hh hr (fun _ _ _ _ _ => trivial) hpoint
  rw [creditsNoTerminator]
  split
  · rename_i cur next first hcur hnext hfirst
    by_contra hbad
    simp only [Bool.or_eq_true, Bool.not_eq_true', Bool.and_eq_false_iff, decide_eq_false_iff_not,
      decide_eq_true_eq, not_or, not_not, Int.not_lt] at hbad
    obtain ⟨⟨hfree, hend⟩, hcredit⟩ := hbad
    obtain ⟨rest, rfl⟩ := hv.of_readCurTask hcur (by omega)
    obtain ⟨hnext', _⟩ := hv.skip_reads
    obtain rfl := Except.ok.inj (hnext.symm.trans hnext')
    obtain rfl := hv.rest_eq_nil hend
    -- the terminator becomes current and is credited
    have hlp := hv.passed.toLayout
    obtain ⟨q, hq⟩ := hlp.modifyCur (pbsUpdateRetiredInstructionsTask (-first.instructionsPlanned))
    have hfirst' : (p.passed done cur [] tail).readTask 0 = .ok first := by
      obtain ⟨first', hfirst'⟩ : ∃ u, (p.passed done cur [] tail).readTask 0 = .ok u :=
        ⟨_, by rw [PbsPlan.readTask, dif_pos (by decide)]⟩
      rw [hfirst', Except.ok.inj ((hv.skip_reads.2 _ hfirst').symm.trans hfirst)]
    have hlook : LooksUp (-first.instructionsPlanned) (p.passed done cur [] tail) q :=
      ⟨by omega, hq⟩
    exact hlp.looksUp_terminator hlook (hall q (.freeSlot p cur _ first hpoint hcur hfree
      hv.toLayout.updateCurProcess_next hfirst' hlook))
  · rfl

theorem resolves_of_creditsNoTerminator {a : Agenda Job}
    (h : At (fun p => Owned p ∧ Unfinished p) a s.plan) (hh : HeadReal s.plan) (hr : 0 ≤ r)
    (hsafe : ∀ p, freeSlotPoint b r s = .ok (some p) → creditsNoTerminator p = true) {q : PbsPlan}
    (hq : LookupPoint b r s q) : Resolves q := by
  cases hq with
  | credit cur hcur hlive hlook =>
      obtain ⟨done, todo, tail, hv, _, howned, hunfinished⟩ := h
      obtain ⟨rest, rfl⟩ := hv.of_readCurTask hcur hlive
      exact howned.looksUp hv.toPlaced (hh cur hcur) (hunfinished.ahead hv.toLayout).2 hlook
  | checkT1 c₀ p₁ cur s₂ hc₀ hlive hcredit hcur hstate hsignal hq =>
      obtain ⟨h₁, hh₁⟩ := kept_lookups.creditAt h hh hr hcredit
      obtain ⟨⟨done, todo, tail, hv, _, howned, hunfinished⟩, hh₂, hcur₂⟩ :=
        kept_lookups.signalAt (s := { s with plan := p₁ }) h₁
          (signalIfT2_eq_ok hsignal)
      obtain ⟨planned, hcur₂⟩ := hcur₂ _ hcur
      obtain ⟨c, _, hc₁, hclive⟩ := Kept.readCurTask_credit h hr hcredit
      obtain rfl := Except.ok.inj (hcur.symm.trans hc₁)
      rw [← job_taskId (job_credited r c)] at hclive
      obtain ⟨rest, rfl⟩ := hv.of_readCurTask hcur₂ hclive
      rw [hq]
      exact howned.resolves hv.toPlaced (hh₂ hh₁ _ hcur₂) (hunfinished.ahead hv.toLayout).2
  | noSlot p cur p₁ hpoint hcur hbump hfind hlook =>
      obtain ⟨⟨done, todo, tail, hv, _, howned, hunfinished⟩, hhp, c, hc, hlive, _⟩ :=
        kept_lookups.preemptionPointAt h hh hr hpoint
      obtain rfl := Except.ok.inj (hcur.symm.trans hc)
      obtain ⟨rest, rfl⟩ := hv.of_readCurTask hcur hlive
      rw [modifyTask_bump hv.toLayout] at hbump
      obtain rfl := Except.ok.inj hbump
      exact (upheld_owned.bump hv.toPlaced howned).looksUp hv.bumped.toPlaced (hhp cur hcur)
        (hunfinished.ahead hv.toLayout).2 hlook
  | freeSlot p cur p₁ first hpoint hcur hfree hnext hfirst hlook =>
      obtain ⟨a', done, todo, tail, hv, _, howned, hunfinished⟩ :=
        kept_lookups.freeSlotPointAt h hh hr (fun _ _ _ _ _ => trivial) hpoint
      obtain ⟨rest, rfl⟩ := hv.of_readCurTask hcur (by omega)
      rw [hv.toLayout.updateCurProcess_next] at hnext
      obtain rfl := Except.ok.inj hnext
      obtain ⟨hread, hread₀⟩ := hv.skip_reads
      have hcredit := hsafe p hpoint
      rw [creditsNoTerminator, hcur, hread, hread₀ first hfirst] at hcredit
      cases rest with
      | nil =>
          exfalso
          have hend : (nextEntry [] tail).taskId = -2 := by
            obtain ⟨t, more, rfl, hid, _⟩ := hv.terminates
            exact hid
          have hpos : 0 < first.instructionsPlanned := by
            simpa [hfree, hend] using hcredit
          have hnonneg := hlook.1
          omega
      | cons n rest =>
          have hbehind := (hunfinished.ahead hv.toLayout).2
          exact (upheld_owned.skip hv.toPlaced howned).looksUp hv.passed.toPlaced
            (hv.headReal_passed hfree _ hv.passed.readCurTask)
            (fun t ht => hbehind t (List.mem_cons_of_mem _ ht)) hlook

/-- Every lookup of a tick finds its owner, unless the tick credits the terminator. -/
theorem lookups_resolve_iff {a : Agenda Job}
    (h : At (fun p => Owned p ∧ Unfinished p) a s.plan) (hh : HeadReal s.plan) (hr : 0 ≤ r) :
    (∀ q, LookupPoint b r s q → Resolves q) ↔
      ∀ p, freeSlotPoint b r s = .ok (some p) → creditsNoTerminator p = true :=
  ⟨fun hall _ hpoint => creditsNoTerminator_of_resolves h hh hr hall hpoint,
    fun hsafe _ hq => resolves_of_creditsNoTerminator h hh hr hsafe hq⟩

end LookupPoints

/-! ## The owners in a run -/

theorem Parsed.owned {p : PbsPlan} (hp : Parsed p) (hf : Formatted p) (hd : DistinctIds p) :
    Owned p := by
  have hl := hp.layout hf
  refine ⟨?_, ?_⟩
  · rw [hl.liveTasks_eq]
    exact hd
  · rw [hl.todoTasks_eq]
    exact Ahead.of_self fun t ht => ⟨(hp.fresh t ht).slotOwner.symm, rfl⟩

/-- In every state a run reaches, the owner of the slot of a task stands at or behind the task;
and the lookups of the next tick find a task of the current process, an unfinished one unless the
current task runs in its own slot, if and only if that tick does not credit the terminator. -/
theorem slotOwners_resolve {text : List Char} {b : Build} {pmu : Nat → Int} {s t : System}
    {k : Nat} (hparse : parsePlan text zeroedPlan = .ok s.plan) (hadmissible : Admissible s.plan)
    (hdistinct : DistinctIds s.plan) (hpmu : ∀ k, 0 ≤ pmu k)
    (ht : runTicks b pmu s k = .ok t) :
    (∀ (j : Nat) (u : PbsTask), t.plan.todoTasks[j]? = some u → u.taskId ≠ -1 →
      ∃ (i : Nat) (o : PbsTask), j ≤ i ∧ t.plan.todoTasks[i]? = some o ∧ o.taskId = u.slotOwner ∧
        o.processId = u.processId) ∧
    ((∀ q, LookupPoint b (pmu k) t q → Resolves q) ↔
      ∀ p, freeSlotPoint b (pmu k) t = .ok (some p) → creditsNoTerminator p = true) := by
  have hparsed := parsePlan_parsed hparse
  obtain ⟨a, hat, hh, _⟩ := kept_lookups.reached hparse hadmissible hpmu
    ⟨hparsed.owned hadmissible.entries hdistinct, hparsed.unfinished hadmissible.entries⟩ ht
  refine ⟨fun j u hu hreal => ?_, lookups_resolve_iff hat hh (hpmu k)⟩
  obtain ⟨_, _, _, _, _, howned, _⟩ := hat
  obtain ⟨hj, rfl⟩ := List.getElem?_eq_some_iff.1 hu
  have hahead := howned.ahead
  rw [← List.take_append_drop j t.plan.todoTasks, List.drop_eq_getElem_cons hj] at hahead
  obtain ⟨o, ho, hid, hpid⟩ := hahead.partner
  rw [List.append_nil, ← List.drop_eq_getElem_cons hj] at ho
  obtain ⟨i, hi⟩ := List.mem_iff_getElem?.1 ho
  rw [List.getElem?_drop] at hi
  exact ⟨j + i, o, by omega, hi, hid, hpid⟩

set_option maxRecDepth 4000 in
/-- Task 0 was moved into the slot of task 2, and the next tick finds every owner. -/
theorem slotOwners_resolve_moved :
    ∃ p t, parsePlan "2;0,0;1,0;;;0,0,1,90000000;1,1,1,1;0,2,1,1;".toList zeroedPlan = .ok p ∧
      runTicks .userland everyTick ⟨p, zeroedSignals⟩ 4 = .ok t ∧
      t.plan.todoTasks.map PbsTask.slotOwner = [1, 2, 2] ∧
      ∀ q, LookupPoint .userland (everyTick 4) t q → Resolves q := by
  obtain ⟨p, t, hp, ht, hcheck⟩ :=
    @of_onRun .userland "2;0,0;1,0;;;0,0,1,90000000;1,1,1,1;0,2,1,1;".toList everyTick 4
      (fun p t => decide (Admissible p ∧ DistinctIds p ∧
          t.plan.todoTasks.map PbsTask.slotOwner = [1, 2, 2]) &&
        atPoint freeSlotPoint creditsNoTerminator .userland (everyTick 4) t) (by decide +kernel)
  simp only [Bool.and_eq_true, decide_eq_true_eq] at hcheck
  obtain ⟨⟨hadmissible, hdistinct, howners⟩, hsafe⟩ := hcheck
  exact ⟨p, t, hp, ht, howners, (slotOwners_resolve hp hadmissible hdistinct everyTick_nonneg
    ht).2.2 fun q hq => of_atPoint hsafe hq⟩

set_option maxRecDepth 4000 in
/-- The first task has planned length 0, so the free slot behind it is booked as a credit of 0
instructions for the terminator, whose slot owner does not exist. -/
theorem slotOwners_missing :
    ∃ p, parsePlan "1;0,0;;;0,5,0,1;-1,-1,10,0;".toList zeroedPlan = .ok p ∧ Admissible p ∧
      DistinctIds p ∧ runTicks .kernel everyTick ⟨p, zeroedSignals⟩ 1 = .error .nullPointer := by
  obtain ⟨p, t, hp, ht, hcheck⟩ :=
    @of_onRun .kernel "1;0,0;;;0,5,0,1;-1,-1,10,0;".toList everyTick 0
      (fun p _ => decide (Admissible p ∧ DistinctIds p ∧
        faultOf (runTicks .kernel everyTick ⟨p, zeroedSignals⟩ 1) = some .nullPointer))
      (by decide +kernel)
  simp only [decide_eq_true_eq] at hcheck
  obtain ⟨hadmissible, hdistinct, hfault⟩ := hcheck
  exact ⟨p, hp, hadmissible, hdistinct, eq_error_of_faultOf hfault⟩

end PbsLevel2
