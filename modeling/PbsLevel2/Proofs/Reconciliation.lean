import PbsLevel2.Proofs.Assertions
import PbsLevel2.Proofs.Ledgers

/-!
# The ledger of the slots

What a task executes in the slot of another one is booked on that slot, and the surplus of
the slot's owner removes it again.  The slot owner is an unfinished task of the same process,
so the sums per process come out even.
-/

namespace PbsLevel2

open Lib

/-! ## The process table as a whole -/

/-- The instructions credited to all processes. -/
def tableTotal (v : Vector PbsProcess maxNumberProcesses) : Int :=
  (v.toList.map PbsProcess.instructionsRetired).sum

theorem tableTotal_updateProcess (v : Vector PbsProcess maxNumberProcesses) {i : Int}
    (hi : ProcessIndex i) (f : PbsProcess → PbsProcess) :
    tableTotal (updateProcess v i f) = tableTotal v +
      ((f (processAt v i)).instructionsRetired - (processAt v i).instructionsRetired) := by
  have hlt : i.toNat < (v.toList.map PbsProcess.instructionsRetired).length := by simpa using hi.2
  have hget : (v.toList.map PbsProcess.instructionsRetired)[i.toNat] =
      (processAt v i).instructionsRetired := by
    rw [List.getElem_map, Vector.getElem_toList, processAt, dif_pos hi]
    rfl
  rw [tableTotal, tableTotal, updateProcess, dif_pos hi, Vector.toList_set, List.map_set,
    List.sum_set', dif_pos hlt, hget]
  omega

theorem exists_processAt {v : Vector PbsProcess maxNumberProcesses} {q : PbsProcess}
    (h : q ∈ v.toList) : ∃ i, ProcessIndex i ∧ processAt v i = q := by
  obtain ⟨i, hi, rfl⟩ := List.getElem_of_mem h
  have hindex : ProcessIndex (i : Int) := ⟨by omega, by simpa using hi⟩
  refine ⟨i, hindex, ?_⟩
  rw [processAt, dif_pos hindex, Vector.getElem_toList]
  rfl

theorem Solvent.tableTotal_nonneg {p : PbsPlan} (h : Solvent p) : 0 ≤ tableTotal p.processes := by
  refine List.sum_nonneg fun x hx => ?_
  obtain ⟨q, hq, rfl⟩ := List.mem_map.1 hx
  obtain ⟨i, hi, rfl⟩ := exists_processAt hq
  exact h i hi

/-! ## The invariant -/

/-- The two books of executed instructions: per process with the slots, and as a whole. -/
structure SlotBooks (p : PbsPlan) : Prop where
  owned : Owned p
  ledger : Ledger PbsTask.instructionsRetiredSlot p
  slots : ∀ n ∈ p.todoTasks.map PbsTask.instructionsRetiredSlot, 0 ≤ n
  node : p.instructionsRetired = tableTotal p.processes

theorem counter_retiredSlot : Counter PbsTask.instructionsRetiredSlot :=
  ⟨fun _ _ => rfl, fun _ _ _ _ => rfl⟩

section Kept

variable {p q : PbsPlan} {done todo tail done' todo' tail' rest : List PbsTask} {cur : PbsTask}
  {r : Int}

theorem slots_of_subset (hl : Layout p done todo tail) (hl' : Layout q done' todo' tail')
    (hslots : ∀ n ∈ p.todoTasks.map PbsTask.instructionsRetiredSlot, 0 ≤ n)
    (hsub : todo'.map PbsTask.instructionsRetiredSlot ⊆ todo.map PbsTask.instructionsRetiredSlot) :
    ∀ n ∈ q.todoTasks.map PbsTask.instructionsRetiredSlot, 0 ≤ n := by
  rw [hl.todoTasks_eq] at hslots
  rw [hl'.todoTasks_eq]
  exact fun n hn => hslots n (hsub hn)

theorem processTotal_retired {a b : List PbsTask} {o : PbsTask}
    (hsplit : pbsUpdateRetiredInstructionsTask r cur :: rest = a ++ o :: b) (i : Int) :
    processTotal PbsTask.instructionsRetiredSlot i (a ++ creditSlot r o :: b) =
      processTotal PbsTask.instructionsRetiredSlot i (cur :: rest) +
        if o.processId = i then r else 0 := by
  have hsame : processTotal PbsTask.instructionsRetiredSlot i
      (pbsUpdateRetiredInstructionsTask r cur :: rest) =
      processTotal PbsTask.instructionsRetiredSlot i (cur :: rest) :=
    total_congr (by simp) (by simp)
  rw [← hsame, hsplit, processTotal, processTotal, total_append, total_append, total_cons,
    total_cons]
  change _ + ((if o.processId = i then o.instructionsRetiredSlot + r else 0) + _) = _
  split <;> omega

theorem SlotBooks.credit (h : SlotBooks p) (hv : Valid p done (cur :: rest) tail)
    (hcur : cur.taskId ≠ -1) (hr : 0 ≤ r) (hq : updateRetiredInstructions r p = .ok q) :
    SlotBooks q := by
  have howned := kept_owned.credit hv hcur hr hq h.owned
  obtain ⟨_, _, _, _, _, _, _, hi, _⟩ := hv.toLayout.retire hr hq
  obtain ⟨a, o, b, hsplit, hpid, _, _, hvq, heq⟩ :=
    h.owned.updateRetiredInstructions_eq hv.toPlaced hr hi
  obtain rfl := Except.ok.inj (heq.symm.trans hq)
  have hprocess : p.curProcess = o.processId := by
    rw [hv.process cur hv.readCurTask, processOf, if_pos hcur, hpid]
  have hl := hv.toLayout
  have hlq := hvq.toLayout
  refine ⟨howned, ?_, ?_, ?_⟩
  · intro i hindex
    have hbefore := hl.ledger_iff.1 h.ledger i hindex
    change (processAt (updateProcess p.processes p.curProcess _) i).instructionsRetired =
      processTotal _ i (p.withTasks _).doneTasks + processTotal _ i (p.withTasks _).todoTasks
    rw [hlq.doneTasks_eq, hlq.todoTasks_eq, processTotal_retired hsplit,
      processAt_updateProcess _ _ hi]
    by_cases hown : i = p.curProcess
    · rw [if_pos hown, if_pos (by omega), ← hown, updateRetiredInstructionsProcess]
      dsimp only
      omega
    · rw [if_neg hown, if_neg (by omega)]
      omega
  · have hslots := h.slots
    rw [hl.todoTasks_eq] at hslots
    change ∀ n ∈ (p.withTasks _).todoTasks.map _, 0 ≤ n
    rw [hlq.todoTasks_eq]
    have hsame : (a ++ o :: b).map PbsTask.instructionsRetiredSlot =
        (cur :: rest).map PbsTask.instructionsRetiredSlot := by
      rw [← hsplit]
      simp
    rw [← hsame] at hslots
    simp only [List.map_append, List.map_cons, List.mem_append, List.mem_cons] at hslots ⊢
    rintro n (hn | rfl | hn)
    · exact hslots n (.inl hn)
    · have ho := hslots o.instructionsRetiredSlot (.inr (.inl rfl))
      exact Int.add_nonneg ho hr
    · exact hslots n (.inr (.inr hn))
  · change p.instructionsRetired + r = tableTotal (updateProcess p.processes p.curProcess _)
    rw [tableTotal_updateProcess _ hi, ← h.node, updateRetiredInstructionsProcess]
    dsimp only
    omega

theorem SlotBooks.finish (h : SlotBooks p) (hv : Valid p done (cur :: rest) tail)
    (hcur : cur.taskId ≠ -1) (hi : ProcessIndex p.curProcess) :
    SlotBooks ((p.booked (cur.instructionsRetiredSlot - cur.instructionsReal) cur).passed
      done cur rest tail) := by
  refine ⟨kept_owned.finish hv hcur hi trivial h.owned,
    h.ledger.finish counter_retiredSlot hv hcur hi rfl,
    slots_of_subset hv.toLayout (hv.booked _).passed.toLayout h.slots ?_, ?_⟩
  · rw [map_startHead PbsTask.instructionsRetiredSlot fun _ => rfl, List.map_cons]
    exact List.subset_cons_self _ _
  · change p.instructionsRetired - _ = tableTotal (updateProcess (updateProcess p.processes
      p.curProcess _) p.curProcess _)
    rw [tableTotal_updateProcess _ hi, tableTotal_updateProcess _ hi, ← h.node]
    simp only [updateRetiredInstructionsProcess, updateLatenessProcess]
    omega

theorem kept_slotBooks : Kept (fun _ => True) SlotBooks where
  congr := by
    intro p q hsame h
    refine ⟨kept_owned.congr hsame h.owned, h.ledger.congr hsame, ?_, ?_⟩
    · rw [PbsPlan.todoTasks, hsame.tasks, hsame.indexCurTask]
      exact h.slots
    · rw [hsame.instructionsRetired, hsame.processes]
      exact h.node
  credit := fun hv hcur hr hq h => h.credit hv hcur hr hq
  signal := by
    intro p done todo tail factor pid hv hi h
    refine ⟨kept_owned.signal hv hi h.owned, h.ledger.signal counter_retiredSlot hv hi,
      slots_of_subset hv.toLayout (hv.rescheduled factor pid).toLayout h.slots ?_, ?_⟩
    · rw [List.map_map, List.map_congr_left fun t _ => ?_]
      · exact List.Subset.refl _
      · change (rescale factor pid t).instructionsRetiredSlot = t.instructionsRetiredSlot
        rw [rescale]
        split <;> rfl
    · change p.instructionsRetired = tableTotal (updateProcess p.processes p.curProcess _)
      rw [tableTotal_updateProcess _ hi, ← h.node]
      dsimp only
      omega
  finish := fun hv hcur hi _ h => h.finish hv hcur hi
  skip := by
    intro p done rest tail cur hv hfree h
    refine ⟨kept_owned.skip hv hfree h.owned, h.ledger.skip counter_retiredSlot hv hfree,
      slots_of_subset hv.toLayout hv.passed.toLayout h.slots ?_, h.node⟩
    rw [map_startHead PbsTask.instructionsRetiredSlot fun _ => rfl, List.map_cons]
    exact List.subset_cons_self _ _
  bump := by
    intro p done todo tail cur hv hcur h
    exact ⟨kept_owned.bump hv hcur h.owned, h.ledger.bump counter_retiredSlot hv,
      slots_of_subset hv.toLayout hv.bumped.toLayout h.slots (List.Subset.refl _), h.node⟩
  rotate := by
    intro p done todo tail blk ns post cur n f hv hcur hrun hc h
    refine ⟨kept_owned.rotate hv hcur hrun hc h.owned, h.ledger.rotate counter_retiredSlot hv hcur hc,
      slots_of_subset hv.toLayout (hv.rotated hcur hc).toLayout h.slots ?_, h.node⟩
    rw [hc.todo_eq]
    intro x hx
    simp only [List.map_append, List.map_cons, List.map_map, List.mem_append, List.mem_cons,
      List.mem_map, Function.comp_apply, changeTaskState, hosted, bump] at hx ⊢
    rcases hx with (hx | hx) | (hx | hx) | hx | hx <;> simp only [hx, true_or, or_true]

end Kept

/-! ## In a run -/

theorem SlotBooks.solvent {p : PbsPlan} {a : Agenda Job} (h : At SlotBooks a p)
    (hreal : ∀ j ∈ a.jobs, 0 ≤ j.instructionsReal) : Solvent p := by
  obtain ⟨done, todo, tail, hv, rfl, hbooks⟩ := h
  intro i hi
  have hl := hv.toLayout
  have hslots := hbooks.slots
  rw [hl.todoTasks_eq] at hslots
  rw [hl.ledger_iff.1 hbooks.ledger i hi]
  refine Int.add_nonneg (total_nonneg fun t ht => ?_)
    (total_nonneg fun t ht => hslots _ (List.mem_map_of_mem ht))
  refine hreal t.job ?_
  rw [Agenda.jobs, agenda]
  exact List.mem_append_left _ (List.mem_map_of_mem ht)

theorem Parsed.slotBooks {p : PbsPlan} (hp : Parsed p) (ha : Admissible p) (hd : DistinctIds p) :
    SlotBooks p := by
  refine ⟨hp.owned ha.entries hd, hp.ledger ha fun t ht => ht.retiredSlot, ?_, ?_⟩
  · rw [(hp.valid ha).toLayout.todoTasks_eq]
    intro n hn
    obtain ⟨t, ht, rfl⟩ := List.mem_map.1 hn
    exact (hp.fresh t ht).retiredSlot.ge
  · rw [hp.counters.2.2.1, tableTotal]
    refine (List.sum_eq_zero fun n hn => ?_).symm
    obtain ⟨q, hq, rfl⟩ := List.mem_map.1 hn
    obtain ⟨i, _, rfl⟩ := exists_processAt hq
    exact (hp.processes i).1

theorem processTotal_jobs {l m : List PbsTask}
    (h : (l.map PbsTask.job).Perm (m.map PbsTask.job)) (i : Int) :
    processTotal PbsTask.instructionsReal i l = processTotal PbsTask.instructionsReal i m := by
  have htotal : ∀ l : List PbsTask, processTotal PbsTask.instructionsReal i l =
      total Job.processId Job.instructionsReal i (l.map PbsTask.job) := by
    intro l
    rw [total, List.filter_map, List.map_map]
    rfl
  rw [htotal, htotal, total_perm h]

/-- In every state a run reaches, each process is credited with the real lengths of its tasks
before the current one and with what was executed in the slots of its other tasks, the plan
with the sum over all processes.  So no counter is negative, the assertion of
`calculate_process_completion` never fails, and at the terminator each process is credited with
its real length. -/
theorem slotLedger_run {text : List Char} {b : Build} {pmu : Nat → Int} {s : System}
    (hparse : parsePlan text zeroedPlan = .ok s.plan) (hadmissible : Admissible s.plan)
    (hdistinct : DistinctIds s.plan) (hreal : ∀ t ∈ s.plan.parsedTasks, 0 ≤ t.instructionsReal)
    (hpmu : ∀ k, 0 ≤ pmu k) (k : Nat) :
    runTicks b pmu s k ≠ .error (.assertion .calculateProcessCompletion) ∧
    ∀ t, runTicks b pmu s k = .ok t →
      (∀ i, ProcessIndex i →
        (processAt t.plan.processes i).instructionsRetired =
          processTotal PbsTask.instructionsReal i t.plan.doneTasks +
          processTotal PbsTask.instructionsRetiredSlot i t.plan.todoTasks ∧
        0 ≤ (processAt t.plan.processes i).instructionsRetired) ∧
      t.plan.instructionsRetired = tableTotal t.plan.processes ∧
      0 ≤ t.plan.instructionsRetired ∧
      ∀ cur, t.plan.readCurTask = .ok cur → cur.taskId = -2 → ∀ i, ProcessIndex i →
        (processAt t.plan.processes i).instructionsRetired =
          processTotal PbsTask.instructionsReal i s.plan.parsedTasks := by
  have hparsed := parsePlan_parsed hparse
  have hreach := fun j t => kept_slotBooks.reached (b := b) (k := j) (t := t) hparse hadmissible hpmu
    (hparsed.slotBooks hadmissible hdistinct)
  have hjobs : ∀ a : Agenda Job, a.jobs.Perm (s.plan.parsedTasks.map PbsTask.job) →
      ∀ j ∈ a.jobs, 0 ≤ j.instructionsReal := by
    intro a hperm j hj
    obtain ⟨t, ht, rfl⟩ := List.mem_map.1 (hperm.subset hj)
    exact hreal t ht
  constructor
  · induction k with
    | zero => exact Avoids.ok _
    | succ k ih =>
        refine Avoids.bind.2 ⟨ih, fun t ht => avoids_pbsRunTimerTick fun p₁ hp₁ => ?_⟩
        obtain ⟨a, hat, hhead, hperm⟩ := hreach k t ht
        obtain ⟨hat₁, _⟩ := kept_slotBooks.creditAt hat hhead (hpmu k) hp₁
        obtain ⟨_, _, _, hv, _⟩ := id hat₁
        exact ⟨SlotBooks.solvent hat₁ (hjobs a hperm), _, _, _, hv.toLayout⟩
  · intro t ht
    obtain ⟨a, hat, hhead, hperm⟩ := hreach k t ht
    have hsolvent := SlotBooks.solvent hat (hjobs a hperm)
    obtain ⟨done, todo, tail, hv, rfl, hbooks⟩ := hat
    refine ⟨fun i hi => ⟨hbooks.ledger i hi, hsolvent i hi⟩, hbooks.node,
      hbooks.node ▸ hsolvent.tableTotal_nonneg, fun cur hcur hend i hi => ?_⟩
    obtain rfl := hv.toLayout.todo_eq_nil hcur hend
    rw [hbooks.ledger i hi, hv.toLayout.doneTasks_eq, hv.toLayout.todoTasks_eq, processTotal_jobs
      (by simpa [Agenda.jobs, agenda] using hperm), processTotal, processTotal, total_nil, add_zero]

set_option maxRecDepth 4000 in
/-- A run with a preemption up to the terminator. -/
theorem slotLedger_run_ended :
    ∃ p t, parsePlan "2;0,0;1,0;;;0,0,2,90000000;1,1,2,2;0,2,2,2;".toList zeroedPlan = .ok p ∧
      runTicks .userland everyTick ⟨p, zeroedSignals⟩ 11 = .ok t ∧
      (processAt t.plan.processes 0).instructionsRetired =
        processTotal PbsTask.instructionsReal 0 p.parsedTasks := by
  obtain ⟨p, t, hp, ht, hcheck⟩ :=
    @of_onRun .userland "2;0,0;1,0;;;0,0,2,90000000;1,1,2,2;0,2,2,2;".toList everyTick 11
      (fun p t => decide (Admissible p ∧ DistinctIds p ∧
          ∀ t ∈ p.parsedTasks, 0 ≤ t.instructionsReal) &&
        onCurTask t.plan (·.taskId = -2)) (by decide +kernel)
  simp only [Bool.and_eq_true, decide_eq_true_eq] at hcheck
  obtain ⟨⟨hadmissible, hdistinct, hreal⟩, hend⟩ := hcheck
  obtain ⟨cur, hcur, hend⟩ := of_onCurTask hend
  exact ⟨p, t, hp, ht, ((slotLedger_run hp hadmissible hdistinct hreal everyTick_nonneg 11).2 t
    ht).2.2.2 cur hcur (by simpa using hend) 0 (by decide)⟩

end PbsLevel2
