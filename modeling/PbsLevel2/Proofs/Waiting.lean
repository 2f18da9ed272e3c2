import PbsLevel2.Lib.Waiting
import PbsLevel2.Proofs.Places

/-!
# How long a task waits

With the counter stub every tick works off one quantum of the task in front, and nobody comes in
front of a task that runs in its own slot.  So it waits no longer than the tasks planned in front of
it take.
-/

namespace PbsLevel2

open Lib

def Errand.ticksLeft (e : Errand) : Nat :=
  if e.taskId = -1 then 0 else max 1 ((e.instructionsReal - e.executed).toNat ⌈/⌉ insPerTick.toNat)

/-- A task `x` runs in its own slot, behind tasks with `n` ticks left. -/
def Waiting (x : Int) (n : Nat) (p : PbsPlan) : Prop :=
  Discipline.Waits Errand.taskId (fun e => e.slotOwner = e.taskId) Errand.ticksLeft x n p.queue

theorem map_ticksLeft_errand (l : List PbsTask) :
    (l.map PbsTask.errand).map Errand.ticksLeft = l.map ticksLeft :=
  List.map_map

theorem worksOff_taskQueue : taskQueue.WorksOff insPerTick Errand.ticksLeft where
  busy e hbusy := by
    have hreal : e.taskId ≠ -1 := mt decide_eq_true hbusy
    rw [Errand.ticksLeft, if_neg hreal]
    exact le_max_left _ _
  serve e hbusy hunfinished := by
    have hreal : e.taskId ≠ -1 := mt decide_eq_true hbusy
    have hrun : ¬ e.instructionsReal ≤ e.executed + insPerTick := mt decide_eq_true hunfinished
    have hquantum : insPerTick.toNat = 10000000 := rfl
    have hsame : insPerTick = 10000000 := rfl
    change (if e.taskId = -1 then 0 else max 1
      ((e.instructionsReal - (e.executed + insPerTick)).toNat ⌈/⌉ insPerTick.toNat)) + 1 ≤ _
    rw [Errand.ticksLeft, if_neg hreal, if_neg hreal, ceilDiv_insPerTick, ceilDiv_insPerTick,
      hquantum]
    omega
  yield _ := rfl
  settle _ _ := rfl
  giveUp e := by
    change (if e.taskId = -1 then 0 else max 1
      ((e.instructionsReal - e.instructionsReal).toNat ⌈/⌉ insPerTick.toNat)) ≤ _
    rw [Errand.ticksLeft]
    by_cases hfree : e.taskId = -1
    · rw [if_pos hfree, if_pos hfree]
    · rw [if_neg hfree, if_neg hfree, Int.sub_self]
      exact max_le_max le_rfl (Nat.zero_le _)

section Waiting

variable {b : Build} {text : List Char} {k n : Nat} {s t u : System} {x : Int}

theorem Ready.waiting_tick (ho : Ready s.plan)
    (hparse : parsePlan text zeroedPlan = .ok s.plan) (hu : runTicks b everyTick s k = .ok u)
    (htick : pbsRunTimerTick b (everyTick k) u = .ok t) (hwaits : Waiting x n t.plan) :
    ∃ n', Waiting x n' u.plan ∧ n + 1 ≤ n' := by
  have hpmu : ∀ k, 0 < everyTick k := fun _ => show 0 < insPerTick by decide
  have hfront := ho.front_run hparse everyTick_nonneg hu
  unfold Waiting at hwaits
  rw [ho.queue_tick hparse hpmu hu htick] at hwaits
  exact Discipline.step_waits keepsHome_taskQueue worksOff_taskQueue
    (fun e l h => (hfront e l h).1) (fun e l h => (hfront e l h).2) hwaits

theorem Ready.waiting_bound (ho : Ready s.plan)
    (hparse : parsePlan text zeroedPlan = .ok s.plan) (ht : runTicks b everyTick s k = .ok t)
    (hwaits : Waiting x n t.plan) : ∃ n', Waiting x n' s.plan ∧ k + n ≤ n' := by
  induction k generalizing t n with
  | zero =>
      obtain rfl := Except.ok.inj ht
      exact ⟨n, hwaits, by omega⟩
  | succ k ih =>
      obtain ⟨u, hu, htick⟩ := run_succ_eq_ok.1 ht
      obtain ⟨n', hbefore, hle⟩ := ho.waiting_tick hparse hu htick hwaits
      obtain ⟨n'', hstart, hle'⟩ := ih hu hbefore
      exact ⟨n'', hstart, by omega⟩

end Waiting

/-- A task that runs in its own slot waits, with the counter stub, no longer than the tasks in front
of it in the parsed plan take: while it waits, the ticks so far and those left in front of it are
together no more than the real lengths of these tasks need, whoever is preempted or given up. -/
theorem waiting_run {b : Build} {text : List Char} {s t : System} {k : Nat}
    (hparse : parsePlan text zeroedPlan = .ok s.plan) (hadmissible : Admissible s.plan)
    (hdistinct : DistinctIds s.plan) (hprocesses : 1 ≤ s.plan.numProcesses)
    (hplanned : ∀ u ∈ s.plan.parsedTasks, 0 < u.instructionsPlanned)
    (ht : runTicks b everyTick s k = .ok t) {before behind : List PbsTask} {u : PbsTask}
    (hsplit : t.plan.todoTasks = before ++ u :: behind) (hne : before ≠ [])
    (hhome : u.slotOwner = u.taskId) :
    ∃ before' u' behind', s.plan.parsedTasks = before' ++ u' :: behind' ∧ u'.taskId = u.taskId ∧
      k + (before.map ticksLeft).sum ≤ (before'.map ticksNeeded).sum := by
  have ho : Ready s.plan :=
    ⟨parsePlan_parsed hparse, hadmissible, hdistinct, hprocesses, hplanned⟩
  have hwaits : Waiting u.taskId (before.map ticksLeft).sum t.plan := by
    refine ⟨before.map PbsTask.errand, u.errand, behind.map PbsTask.errand, ?_, by simpa using hne,
      rfl, decide_eq_true hhome, ?_⟩
    · rw [PbsPlan.queue, hsplit, List.map_append, List.map_cons]
    · rw [map_ticksLeft_errand]
  obtain ⟨_, ⟨front, _, _, hqueue, _, hid, _, rfl⟩, hle⟩ := ho.waiting_bound hparse ht hwaits
  rw [(ho.parsed.valid hadmissible).toLayout.queue_eq] at hqueue
  obtain ⟨before', rest, hparsed, rfl, hrest⟩ := List.map_eq_append_iff.1 hqueue
  obtain ⟨u', behind', rfl, rfl, rfl⟩ := List.map_eq_cons_iff.1 hrest
  refine ⟨before', u', behind', hparsed, hid, ?_⟩
  have hfresh : before'.map ticksLeft = before'.map ticksNeeded := by
    refine List.map_congr_left fun v hv => ho.parsed.ticksLeft_parsed v ?_
    rw [hparsed]
    exact List.mem_append_left _ hv
  rwa [map_ticksLeft_errand, hfresh] at hle

set_option maxRecDepth 4000 in
/-- After four ticks task 2 waits for one tick of task 1 and five of task 0, which was put in front
of it: ten ticks in all, as many as the two need in the parsed plan. -/
theorem waiting_run_gaveWay :
    ∃ p t, parsePlan "2;0,0;1,0;;;0,0,2,90000000;1,1,2,2;0,2,2,2;".toList zeroedPlan = .ok p ∧
      runTicks .userland everyTick ⟨p, zeroedSignals⟩ 4 = .ok t ∧
      t.plan.todoTasks.map (fun u => (u.taskId, ticksLeft u)) = [(1, 1), (0, 5), (2, 1)] ∧
      ∃ before' u' behind', p.parsedTasks = before' ++ u' :: behind' ∧ u'.taskId = 2 ∧
        4 + 6 ≤ (before'.map ticksNeeded).sum := by
  obtain ⟨p, t, hp, ht, hcheck⟩ :=
    @of_onRun .userland "2;0,0;1,0;;;0,0,2,90000000;1,1,2,2;0,2,2,2;".toList everyTick 4
      (fun p t => decide (Admissible p ∧ DistinctIds p ∧ 1 ≤ p.numProcesses ∧
          (∀ u ∈ p.parsedTasks, 0 < u.instructionsPlanned) ∧
          t.plan.todoTasks.map (fun u => (u.taskId, u.slotOwner, ticksLeft u)) =
            [(1, 1, 1), (0, 2, 5), (2, 2, 1)]))
      (by decide +kernel)
  obtain ⟨hadmissible, hdistinct, hprocesses, hplanned, htodo⟩ := of_decide_eq_true hcheck
  obtain ⟨v, _, hlist, hv, htodo⟩ := List.map_eq_cons_iff.1 htodo
  obtain ⟨w, _, rfl, hw, htodo⟩ := List.map_eq_cons_iff.1 htodo
  obtain ⟨u, _, rfl, hu, htodo⟩ := List.map_eq_cons_iff.1 htodo
  obtain rfl := List.map_eq_nil_iff.1 htodo
  simp only [Prod.mk.injEq] at hv hw hu
  have hsplit : t.plan.todoTasks = [v, w] ++ u :: [] := hlist
  obtain ⟨before', u', behind', hparsed, hu', hle⟩ :=
    waiting_run (s := ⟨p, zeroedSignals⟩) hp hadmissible hdistinct hprocesses hplanned ht hsplit
      (List.cons_ne_nil _ _) (hu.2.1.trans hu.1.symm)
  have hsum : ([v, w].map ticksLeft).sum = 6 := by
    rw [List.map_cons, List.map_cons, List.map_nil, hv.2.2, hw.2.2]
    rfl
  rw [hsum] at hle
  refine ⟨p, t, hp, ht, ?_, before', u', behind', hparsed, hu'.trans hu.1, hle⟩
  simp [hlist, hv, hw, hu]

end PbsLevel2
