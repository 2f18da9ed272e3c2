import PbsLevel2.Proofs.Userland

/-!
# How long a run takes

With the counter stub every tick in front of the terminator works off one quantum of one task, so
the number of ticks of a whole run follows from the real lengths alone: neither preemptions nor
signals change it.  Only a task that is given up for want of a slot is finished earlier.
-/

namespace PbsLevel2

open Lib

/-! ## The ticks that are left -/

/-- The ticks it takes to finish the rest of a task: one for each started quantum, at least one. -/
def ticksLeft (t : PbsTask) : Nat :=
  if t.taskId = -1 then 0
  else max 1 ((t.instructionsReal - t.instructionsRetiredTask).toNat ⌈/⌉ insPerTick.toNat)

def PbsPlan.ticksLeft (p : PbsPlan) : Nat :=
  (p.todoTasks.map PbsLevel2.ticksLeft).sum

def ticksNeeded (t : PbsTask) : Nat :=
  if t.taskId = -1 then 0 else max 1 (t.instructionsReal.toNat ⌈/⌉ insPerTick.toNat)

/-- The ticks that the tasks of a parsed plan need together. -/
def PbsPlan.makespan (p : PbsPlan) : Nat :=
  (p.parsedTasks.map ticksNeeded).sum

/-- If the tick from `s` gives a task up for want of a slot, then one more quantum would have
finished it. -/
def losesNone (b : Build) (r : Int) (s : System) : Bool :=
  match preemptionPoint b r s with
  | .ok (some p) =>
      match p.readCurTask with
      | .ok cur =>
          match findSlotToMoveTo b cur.processId p with
          | .ok none => cur.instructionsReal - cur.instructionsRetiredTask ≤ insPerTick
          | _ => true
      | .error _ => true
  | _ => true

section TicksLeft

variable {p q : PbsPlan} {done todo rest tail blk ns post : List PbsTask} {cur t u n f : PbsTask}
  {r : Int} {b : Build} {s s' : System}

theorem ticksLeft_real (h : t.taskId ≠ -1) : ticksLeft t =
    max 1 ((t.instructionsReal - t.instructionsRetiredTask).toNat ⌈/⌉ insPerTick.toNat) :=
  if_neg h

theorem ticksLeft_free (h : t.taskId = -1) : ticksLeft t = 0 :=
  if_pos h

theorem one_le_ticksLeft (h : t.taskId ≠ -1) : 1 ≤ ticksLeft t := by
  rw [ticksLeft_real h]
  exact le_max_left _ _

theorem ticksLeft_of_core (h : t.core = u.core) : ticksLeft t = ticksLeft u :=
  show ticksLeft t.core = ticksLeft u.core by rw [h]

theorem sum_ticksLeft_of_core {l m : List PbsTask} (h : l.map PbsTask.core = m.map PbsTask.core) :
    (l.map ticksLeft).sum = (m.map ticksLeft).sum :=
  congrArg List.sum (map_of_view h fun _ => rfl)

theorem ticksLeft_credited (hreal : cur.taskId ≠ -1)
    (hrun : (credited insPerTick cur).instructionsRetiredTask <
      (credited insPerTick cur).instructionsReal) :
    ticksLeft cur = ticksLeft (credited insPerTick cur) + 1 := by
  have hreal' : (credited insPerTick cur).taskId ≠ -1 := by
    rwa [frame_taskId (frame_credited insPerTick cur)]
  have hquantum : insPerTick.toNat = 10000000 := rfl
  have hsame : insPerTick = 10000000 := rfl
  rw [ticksLeft_real hreal, ticksLeft_real hreal']
  rw [instructionsReal_credited, retiredTask_credited] at hrun ⊢
  rw [ceilDiv_insPerTick, ceilDiv_insPerTick, hquantum]
  omega

theorem ticksLeft_last (hreal : cur.taskId ≠ -1)
    (hlast : (credited insPerTick cur).instructionsReal ≤
      (credited insPerTick cur).instructionsRetiredTask) : ticksLeft cur = 1 := by
  have hquantum : insPerTick.toNat = 10000000 := rfl
  have hsame : insPerTick = 10000000 := rfl
  rw [instructionsReal_credited, retiredTask_credited] at hlast
  rw [ticksLeft_real hreal, ceilDiv_insPerTick, hquantum]
  omega

/-! ## A tick -/

theorem Layout.ticksLeft_eq (hl : Layout p done todo tail) :
    p.ticksLeft = (todo.map PbsLevel2.ticksLeft).sum := by
  rw [PbsPlan.ticksLeft, hl.todoTasks_eq]

theorem Layout.ticksLeft_cons (hl : Layout p done (cur :: rest) tail) :
    p.ticksLeft = PbsLevel2.ticksLeft cur + (rest.map PbsLevel2.ticksLeft).sum := by
  rw [hl.ticksLeft_eq, List.map_cons, List.sum_cons]

theorem Placed.ticksLeft_skip (hv : Placed p done todo tail) (h : skipFreeSlot b p = .ok q)
    (hfirst : ∀ t ∈ q.doneTasks.head?, 0 < t.instructionsPlanned) : q.ticksLeft = p.ticksLeft := by
  rcases hv.skip_books h hfirst with ⟨_, rfl⟩ | ⟨cur, rest, first, rfl, hfree, _, _, rfl⟩
  · rfl
  · calc
      (p.passed done cur rest tail).ticksLeft = (rest.map PbsLevel2.ticksLeft).sum := by
        rw [hv.passed.toLayout.ticksLeft_eq, map_startHead PbsLevel2.ticksLeft fun _ => rfl]
      _ = p.ticksLeft := by
        rw [hv.toLayout.ticksLeft_cons, ticksLeft_free hfree, Nat.zero_add]

theorem losesNone_of_none (hpoint : preemptionPoint b r s = .ok none) : losesNone b r s = true := by
  rw [losesNone, hpoint]

theorem losesNone_cut (hpoint : preemptionPoint b r s = .ok (some p))
    (hl : Layout p done (cur :: rest) tail) (hc : Cut cur rest blk n ns f post) :
    losesNone b r s = true := by
  rw [losesNone, hpoint]
  dsimp only
  rw [hl.readCurTask]
  dsimp only
  rw [findSlotToMoveTo_cut hl hc]

theorem losesNone_noSlot (hpoint : preemptionPoint b r s = .ok (some p))
    (hl : Layout p done (cur :: rest) tail) (hnone : NoSlot cur rest) : losesNone b r s = true ↔
      cur.instructionsReal - cur.instructionsRetiredTask ≤ insPerTick := by
  rw [losesNone, hpoint]
  dsimp only
  rw [hl.readCurTask]
  dsimp only
  rw [findSlotToMoveTo_noSlot hl hnone, decide_eq_true_iff]

theorem ticksLeft_gaveUp (hreal : cur.taskId ≠ -1)
    (hrun : cur.instructionsRetiredTask < cur.instructionsReal) :
    ticksLeft (credited (cur.instructionsReal - cur.instructionsRetiredTask) (bump cur)) = 1 ∧
    (cur.instructionsReal - cur.instructionsRetiredTask ≤ insPerTick ↔ ticksLeft cur = 1) := by
  have hquantum : insPerTick.toNat = 10000000 := rfl
  have hsame : insPerTick = 10000000 := rfl
  constructor
  · have hreal' : (credited (cur.instructionsReal - cur.instructionsRetiredTask)
        (bump cur)).taskId ≠ -1 := by
      rwa [frame_taskId (frame_credited _ (bump cur))]
    have hnone : (bump cur).instructionsReal - ((bump cur).instructionsRetiredTask +
        (cur.instructionsReal - cur.instructionsRetiredTask)) = 0 := by
      change cur.instructionsReal - (cur.instructionsRetiredTask + _) = 0
      omega
    rw [ticksLeft_real hreal', instructionsReal_credited, retiredTask_credited, hnone,
      ceilDiv_insPerTick, hquantum]
    decide
  · rw [ticksLeft_real hreal, ceilDiv_insPerTick, hquantum, hsame]
    omega

/-- A tick in front of the terminator works off one quantum, and more only if it gives the current
task up. -/
theorem Placed.ticksLeft_course (hv : Placed s.plan done (cur :: rest) tail)
    (hreal : cur.taskId ≠ -1)
    (hfinished : cur.state = .finished → cur.instructionsReal ≤ cur.instructionsRetiredTask)
    (hslot : freeSlotPoint b insPerTick s = .ok (some p)) :
    (∃ done' todo' tail', Placed p done' todo' tail') ∧ p.ticksLeft + 1 ≤ s.plan.ticksLeft ∧
    (losesNone b insPerTick s = true ↔ p.ticksLeft + 1 = s.plan.ticksLeft) := by
  have hr : 0 ≤ insPerTick := by decide
  obtain ⟨done₂, cur₂, rest₂, tail₂, hcur₂, _, hrest₂, _, hcourse⟩ := hv.course hr hslot
  have hsum := hv.toLayout.ticksLeft_cons
  rw [← sum_ticksLeft_of_core hrest₂] at hsum
  have hticks := ticksLeft_of_core hcur₂
  cases hcourse with
  | finished tail' hstate hpoint hv' =>
      have hlast := ticksLeft_last hreal
        (credited_finished ((state_of_core hcur₂).symm.trans hstate) hfinished hr)
      have hleft := hv'.toLayout.ticksLeft_eq
      rw [map_startHead PbsLevel2.ticksLeft fun _ => rfl] at hleft
      exact ⟨⟨_, _, _, hv'⟩, by omega, by simp only [losesNone_of_none hpoint, true_iff]; omega⟩
  | rotated p₂ blk n ns f post hstate hcut hpoint hv₂ hv' =>
      have hrun := ticksLeft_credited hreal
        (credited_state ((state_of_core hcur₂).symm.trans_ne hstate))
      have hperm := (hcut.view_perm f.taskId (v := PbsLevel2.ticksLeft) (fun _ => rfl)
        (fun _ => rfl) fun _ => rfl).sum_eq
      rw [← hv'.toLayout.ticksLeft_eq, List.map_cons, List.sum_cons] at hperm
      refine ⟨⟨_, _, _, hv'⟩, by omega, ?_⟩
      simp only [losesNone_cut hpoint hv₂.toLayout hcut, true_iff]
      omega
  | gaveUp p₂ done' rest' tail' hstate hnone hpoint hv₂ hv' hdone hrest =>
      have hcredited := credited_state ((state_of_core hcur₂).symm.trans_ne hstate)
      have hrun := ticksLeft_credited hreal hcredited
      rw [← real_of_core hcur₂, ← retiredTask_of_core hcur₂] at hcredited
      have hreal₂ : cur₂.taskId ≠ -1 := by
        rwa [job_taskId (job_of_core hcur₂), frame_taskId (frame_credited insPerTick cur)]
      have hone := one_le_ticksLeft hreal₂
      obtain ⟨hlast, hquantum⟩ := ticksLeft_gaveUp hreal₂ hcredited
      have hleft := hv'.toLayout.ticksLeft_cons
      rw [sum_ticksLeft_of_core (map_core_of_body hrest), hlast] at hleft
      refine ⟨⟨_, _, _, hv'⟩, by omega, ?_⟩
      rw [losesNone_noSlot hpoint hv₂.toLayout hnone, hquantum]
      omega

theorem Placed.ticksLeft_tick (hv : Placed s.plan done (cur :: rest) tail) (hreal : cur.taskId ≠ -1)
    (hfinished : cur.state = .finished → cur.instructionsReal ≤ cur.instructionsRetiredTask)
    (htick : pbsRunTimerTick b insPerTick s = .ok s')
    (hfirst : ∀ t ∈ s'.plan.doneTasks.head?, 0 < t.instructionsPlanned) :
    s'.plan.ticksLeft + 1 ≤ s.plan.ticksLeft ∧
    (losesNone b insPerTick s = true ↔ s'.plan.ticksLeft + 1 = s.plan.ticksLeft) := by
  have hr : 0 ≤ insPerTick := by decide
  rcases hv.tick_cases hr htick with ⟨p, q, hslot, hskip, hs⟩ |
    ⟨_, hpoint, done₂, cur₂, rest₂, tail₂, hv₂, hstate₂, hcur₂, _, hrest₂, _⟩
  · obtain ⟨⟨_, _, _, hvp⟩, hle, hiff⟩ := hv.ticksLeft_course hreal hfinished hslot
    have hsame : s'.plan.ticksLeft = p.ticksLeft := by
      rw [hs] at hfirst ⊢
      change q.ticksLeft = p.ticksLeft
      exact hvp.ticksLeft_skip hskip hfirst
    rw [hsame]
    exact ⟨hle, hiff⟩
  · have hrun := ticksLeft_credited hreal
      (credited_state ((state_of_core hcur₂).symm.trans_ne hstate₂))
    have hsum := hv.toLayout.ticksLeft_cons
    have hsum' := hv₂.toLayout.ticksLeft_cons
    rw [sum_ticksLeft_of_core hrest₂, ticksLeft_of_core hcur₂] at hsum'
    refine ⟨by omega, ?_⟩
    simp only [losesNone_of_none hpoint, true_iff]
    omega

end TicksLeft

/-! ## The run -/

section Run

variable {b : Build} {text : List Char} {s t u : System} {p : PbsPlan} {k n : Nat} {pmu : Nat → Int}

theorem Parsed.ticksLeft_parsed (hp : Parsed p) :
    ∀ t ∈ p.parsedTasks, PbsLevel2.ticksLeft t = ticksNeeded t := by
  intro t ht
  rw [PbsLevel2.ticksLeft, ticksNeeded, (hp.fresh t ht).retiredTask, Int.sub_zero]

theorem Parsed.ticksLeft_eq (hp : Parsed p) (ha : Admissible p) : p.ticksLeft = p.makespan := by
  rw [(hp.valid ha).toLayout.ticksLeft_eq, PbsPlan.makespan]
  exact congrArg List.sum (List.map_congr_left hp.ticksLeft_parsed)

theorem tickCounter_of_parsePlan (h : parsePlan text zeroedPlan = .ok p) : p.tickCounter = 0 := by
  obtain ⟨_, _, h⟩ := bind_eq_ok.1 h
  obtain ⟨_, _, h⟩ := bind_eq_ok.1 h
  obtain ⟨_, _, h⟩ := bind_eq_ok.1 h
  obtain ⟨_, _, h⟩ := bind_eq_ok.1 h
  obtain rfl := Except.ok.inj h
  rfl

theorem Ready.bookable_run (ho : Ready s.plan) (hparse : parsePlan text zeroedPlan = .ok s.plan)
    (hpmu : ∀ k, 0 < pmu k) (ht : runTicks b pmu s k = .ok t) : Bookable t.plan := by
  have hpmu₀ : ∀ k, 0 ≤ pmu k := fun k => (hpmu k).le
  induction k generalizing t with
  | zero =>
      obtain rfl := Except.ok.inj ht
      exact ho.bookable
  | succ k ih =>
      obtain ⟨u, hu, htick⟩ := run_succ_eq_ok.1 ht
      obtain ⟨a, hat, hhead, hjobs⟩ :=
        (kept_sound s.plan).reached hparse ho.admissible hpmu₀ ho.sound hu
      have hkernel : pbsRunTimerTick .kernel (pmu k) u = .ok t := by
        cases b with
        | userland => exact (builds_pbsRunTimerTick u (pmu k)).eq_ok htick
        | kernel => exact htick
      obtain ⟨v, hv, hbook⟩ := ho.tick hat hhead hjobs (ih hu) (hpmu k) fun p hpoint => by
        obtain ⟨_, hattrue, _⟩ := kept_true.reached hparse ho.admissible hpmu₀ trivial hu
        obtain ⟨hatp, _, cur, hcur, hlive, _⟩ :=
          kept_true.preemptionPointAt hattrue hhead (hpmu₀ k) hpoint
        obtain ⟨q, hq⟩ := preempts_of_tick hpoint hkernel
        exact readsInside_of_preempts hatp hcur hlive hq
      obtain rfl := Except.ok.inj (hkernel.symm.trans hv)
      exact hbook

theorem ended_iff_ticksLeft (hparse : parsePlan text zeroedPlan = .ok s.plan)
    (hadmissible : Admissible s.plan) (hpmu : ∀ k, 0 ≤ pmu k) (ht : runTicks b pmu s k = .ok t) :
    Ended t.plan ↔ t.plan.ticksLeft = 0 := by
  obtain ⟨_, ⟨done, todo, tail, hv, _⟩, hhead, _⟩ :=
    kept_true.reached hparse hadmissible hpmu trivial ht
  constructor
  · intro hend
    obtain rfl := hv.toLayout.todo_of_ended hend
    exact hv.toLayout.ticksLeft_eq
  · intro hnone
    cases todo with
    | nil => exact hv.toLayout.ended
    | cons cur rest =>
        have hone := one_le_ticksLeft (hhead cur hv.readCurTask)
        rw [hv.toLayout.ticksLeft_cons] at hnone
        omega

theorem Ready.ticksLeft_pace (ho : Ready s.plan) (hparse : parsePlan text zeroedPlan = .ok s.plan)
    (hu : runTicks b everyTick s k = .ok u)
    (htick : pbsRunTimerTick b (everyTick k) u = .ok t) :
    t.plan.ticksLeft ≤ u.plan.ticksLeft - 1 ∧
    (losesNone b (everyTick k) u = true ↔ t.plan.ticksLeft = u.plan.ticksLeft - 1) ∧
    t.plan.tickCounter = u.plan.tickCounter + if u.plan.ticksLeft = 0 then 0 else 1 := by
  have ht := (run_succ_of_eq hu).trans htick
  have hunfinished := ho.parsed.unfinished ho.admissible.entries
  obtain ⟨_, ⟨done, todo, tail, hv, _, hun⟩, hhead, _⟩ :=
    kept_unfinished.reached hparse ho.admissible everyTick_nonneg hunfinished hu
  cases todo with
  | nil =>
      have hnone : u.plan.ticksLeft = 0 := hv.toLayout.ticksLeft_eq
      have hend : Ended u.plan := hv.toLayout.ended
      obtain rfl : t = u := by
        have hstays := run_of_ended hparse ho.admissible everyTick_nonneg hu hend 1
        exact Except.ok.inj (ht.symm.trans hstays)
      obtain ⟨cur, hcur, hid⟩ := hend
      have hpoint : preemptionPoint b (everyTick k) t = .ok none := by
        rw [preemptionPoint, hcur, ok_bind, if_pos hid]
        rfl
      rw [hnone, losesNone_of_none hpoint]
      exact ⟨le_rfl, iff_of_true rfl rfl, (Int.add_zero _).symm⟩
  | cons cur rest =>
      have hreal := hhead cur hv.readCurTask
      have hbook := ho.bookable_run hparse (fun _ => show 0 < insPerTick by decide) ht
      obtain ⟨hle, hiff⟩ := hv.toPlaced.ticksLeft_tick hreal
        ((hun.ahead hv.toLayout).1 cur List.mem_cons_self) htick hbook.first
      refine ⟨by omega, ?_, ?_⟩
      · rw [show losesNone b (everyTick k) u = true ↔ _ from hiff]
        omega
      · rw [if_neg (by omega)]
        rcases stress_tick htick with ⟨rfl, _⟩ | ⟨_, _, hcount, _⟩
        · omega
        · exact hcount

/-- After `k` ticks of a run that needs at most `n`, the counted ones and those left add up to at
most `n`, and every tick in front of the terminator was counted. -/
structure Paced (n k : Nat) (p : PbsPlan) : Prop where
  counted : p.tickCounter ≤ k
  spent : p.tickCounter + p.ticksLeft ≤ n
  live : p.ticksLeft = 0 ∨ p.tickCounter = k

theorem Ready.paced_run (ho : Ready s.plan) (hparse : parsePlan text zeroedPlan = .ok s.plan)
    (ht : runTicks b everyTick s k = .ok t) : Paced s.plan.makespan k t.plan := by
  induction k generalizing t with
  | zero =>
      obtain rfl := Except.ok.inj ht
      have hcounter := tickCounter_of_parsePlan hparse
      have hleft := ho.parsed.ticksLeft_eq ho.admissible
      exact ⟨by omega, by omega, .inr (by omega)⟩
  | succ k ih =>
      obtain ⟨u, hu, htick⟩ := run_succ_eq_ok.1 ht
      obtain ⟨hcounted, hspent, hlive⟩ := ih hu
      obtain ⟨hle, _, hcount⟩ := ho.ticksLeft_pace hparse hu htick
      by_cases hnone : u.plan.ticksLeft = 0
      · rw [if_pos hnone] at hcount
        exact ⟨by omega, by omega, .inl (by omega)⟩
      · rw [if_neg hnone] at hcount
        exact ⟨by omega, by omega, .inr (by omega)⟩

theorem Ready.spent_run_iff (ho : Ready s.plan) (hparse : parsePlan text zeroedPlan = .ok s.plan)
    (ht : runTicks b everyTick s k = .ok t) :
    t.plan.tickCounter + t.plan.ticksLeft = s.plan.makespan ↔
      ∀ j < k, ∀ u, runTicks b everyTick s j = .ok u → losesNone b (everyTick j) u = true := by
  induction k generalizing t with
  | zero =>
      obtain rfl := Except.ok.inj ht
      rw [tickCounter_of_parsePlan hparse, ho.parsed.ticksLeft_eq ho.admissible, Int.zero_add]
      exact iff_of_true rfl fun j hj => absurd hj (Nat.not_lt_zero j)
  | succ k ih =>
      obtain ⟨u, hu, htick⟩ := run_succ_eq_ok.1 ht
      have hspent := (ho.paced_run hparse hu).spent
      obtain ⟨hle, hiff, hcount⟩ := ho.ticksLeft_pace hparse hu htick
      have hsum : t.plan.tickCounter + t.plan.ticksLeft = s.plan.makespan ↔
          u.plan.tickCounter + u.plan.ticksLeft = s.plan.makespan ∧
            t.plan.ticksLeft = u.plan.ticksLeft - 1 := by
        rw [hcount]
        split <;> omega
      rw [hsum, ih hu, ← hiff]
      constructor
      · rintro ⟨hbefore, hlast⟩ j hj v hv
        rcases Nat.lt_succ_iff_lt_or_eq.1 hj with hlt | rfl
        · exact hbefore j hlt v hv
        · obtain rfl := Except.ok.inj (hu.symm.trans hv)
          exact hlast
      · intro hall
        exact ⟨fun j hj => hall j (by omega), hall k (by omega) u hu⟩

end Run

/-- With the counter stub, every tick of a run in front of the terminator is counted, and a run
that ends in no fault reaches the terminator at the latest after as many ticks as the real lengths
of the tasks need, however often tasks are preempted and signals raised.  It needs all of them if
and only if no task is given up, for want of a slot, with more than one quantum left. -/
theorem makespan_run {b : Build} {text : List Char} {s t : System} {k : Nat}
    (hparse : parsePlan text zeroedPlan = .ok s.plan) (hadmissible : Admissible s.plan)
    (hdistinct : DistinctIds s.plan) (hprocesses : 1 ≤ s.plan.numProcesses)
    (hplanned : ∀ u ∈ s.plan.parsedTasks, 0 < u.instructionsPlanned)
    (ht : runTicks b everyTick s k = .ok t) :
    (¬ Ended t.plan → t.plan.tickCounter = k) ∧ (s.plan.makespan ≤ k → Ended t.plan) ∧
    t.plan.tickCounter ≤ s.plan.makespan ∧
    (Ended t.plan → (t.plan.tickCounter = s.plan.makespan ↔
      ∀ j < k, ∀ u, runTicks b everyTick s j = .ok u → losesNone b (everyTick j) u = true)) := by
  have ho : Ready s.plan :=
    ⟨parsePlan_parsed hparse, hadmissible, hdistinct, hprocesses, hplanned⟩
  have hended := ended_iff_ticksLeft hparse hadmissible everyTick_nonneg ht
  obtain ⟨hcounted, hspent, hlive⟩ := ho.paced_run hparse ht
  refine ⟨fun hne => ?_, fun hle => ?_, by omega, fun hend => ?_⟩
  · rw [hended] at hne
    omega
  · rw [hended]
    omega
  · rw [← ho.spent_run_iff hparse ht, hended.1 hend]
    omega

set_option maxRecDepth 4000 in
/-- Task 0 takes nine ticks and the other two take one each, although task 0 is preempted twice and
given up, with one quantum left, in the slot of task 2. -/
theorem makespan_run_preempted :
    ∃ p t, parsePlan "2;0,0;1,0;;;0,0,2,90000000;1,1,2,2;0,2,2,2;".toList zeroedPlan = .ok p ∧
      p.makespan = 11 ∧ runTicks .userland everyTick ⟨p, zeroedSignals⟩ 12 = .ok t ∧
      Ended t.plan ∧ t.plan.tickCounter = 11 := by
  obtain ⟨p, t, hp, ht, hcheck⟩ :=
    @of_onRun .userland "2;0,0;1,0;;;0,0,2,90000000;1,1,2,2;0,2,2,2;".toList everyTick 12
      (fun p t => decide (Admissible p ∧ DistinctIds p ∧ 1 ≤ p.numProcesses ∧
          (∀ u ∈ p.parsedTasks, 0 < u.instructionsPlanned) ∧ p.makespan = 11) &&
        allTicks (losesNone .userland) .userland everyTick ⟨p, zeroedSignals⟩ 12)
      (by decide +kernel)
  simp only [Bool.and_eq_true, decide_eq_true_eq] at hcheck
  obtain ⟨⟨hadmissible, hdistinct, hprocesses, hplanned, hmakespan⟩, hloses⟩ := hcheck
  obtain ⟨_, hends, _, hexact⟩ := makespan_run (s := ⟨p, zeroedSignals⟩) hp hadmissible hdistinct
    hprocesses hplanned ht
  rw [hmakespan] at hends hexact
  have hend := hends (by decide)
  exact ⟨p, t, hp, hmakespan, ht, hend, (hexact hend).2 fun j hj u hu => of_allTicks hloses hj hu⟩

end PbsLevel2
