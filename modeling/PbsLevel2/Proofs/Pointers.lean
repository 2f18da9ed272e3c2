import PbsLevel2.Proofs.Course
import PbsLevel2.Proofs.Owners

/-!
# The pointers to the current task and its process

`cur_task`, `index_cur_task` and `cur_process` are updated together, and agree until the
terminator becomes current: `update_cur_process` takes it for a task of process -2.
-/

namespace PbsLevel2

open Lib

/-- `cur_task` is `&tasks[index_cur_task]`, and `cur_process` is the entry of its process, the
last one of the table for a free slot or the terminator. -/
structure Bookkeeping (p : PbsPlan) : Prop where
  curTask : p.curTask = p.indexCurTask
  index : p.indexCurTask ≤ p.numTasks
  curProcess : ∀ cur, p.readCurTask = .ok cur → ProcessIndex p.curProcess ∧
    p.curProcess = if cur.taskId = -1 ∨ cur.taskId = -2 then (maxNumberProcesses : Int) - 1
      else cur.processId

def StartsWithTask (p : PbsPlan) : Prop :=
  ∃ t ∈ p.parsedTasks.head?, t.taskId ≠ -1

/-- With `r` further instructions the task is finished. -/
def FinishedBy (r : Int) (cur : PbsTask) : Prop :=
  (pbsUpdateRetiredInstructionsTask r cur).state = .finished

/-- All that is ahead is at most one free slot. -/
def Exhausted (todo : List PbsTask) : Prop :=
  todo = [] ∨ ∃ f, todo = [f] ∧ f.taskId = -1

/-- The tick from `s` passes the last entry: it finishes the last task, behind which at most one
free slot is left, or it preempts a free slot that is the last entry. -/
def EndsPlan (b : Build) (r : Int) (s : System) : Prop :=
  ∃ cur rest, s.plan.todoTasks = cur :: rest ∧ (FinishedBy r cur ∧ Exhausted rest ∨
    rest = [] ∧ cur.taskId = -1 ∧ ∃ p, preemptionPoint b r s = .ok (some p))

section Standing

variable {p q : PbsPlan} {done todo rest tail : List PbsTask} {cur : PbsTask} {r : Int} {b : Build}
  {s s' t : System} {jobs : List Job}

theorem map_link_of_frame {l m : List PbsTask} (h : l.map PbsTask.frame = m.map PbsTask.frame) :
    l.map PbsTask.link = m.map PbsTask.link :=
  map_of_view h fun _ => rfl

theorem link_credited (r : Int) (t : PbsTask) : (credited r t).link = t.link :=
  show (credited r t).frame.link = t.frame.link by rw [frame_credited]

theorem map_link_of_core {c t : PbsTask} {l m : List PbsTask} (hc : c.core = (credited r t).core)
    (h : l.map PbsTask.core = m.map PbsTask.core) :
    (c :: l).map PbsTask.link = (t :: m).map PbsTask.link := by
  have hlink : c.link = (credited r t).link :=
    show c.core.link = (credited r t).core.link by rw [hc]
  rw [List.map_cons, List.map_cons, hlink, link_credited,
    map_of_view (g := PbsTask.link) h fun _ => rfl]

/-- The list is the one that was parsed, in some order, with the slot owners ahead. -/
def Standing (jobs : List Job) (p : PbsPlan) : Prop :=
  ∃ done todo tail, Placed p done todo tail ∧ ((done ++ todo).map PbsTask.job).Perm jobs ∧
    Ahead Owns [] todo

theorem Exhausted.of_jobs {l m : List PbsTask} (h : l.map PbsTask.job = m.map PbsTask.job) :
    Exhausted l ↔ Exhausted m := by
  cases l with
  | nil =>
      obtain rfl := List.map_eq_nil_iff.1 h.symm
      exact Iff.rfl
  | cons t l =>
      cases m with
      | nil => cases h
      | cons u m =>
          obtain ⟨hjob, htail⟩ := List.cons.inj h
          have hid := job_taskId hjob
          cases l with
          | nil =>
              obtain rfl := List.map_eq_nil_iff.1 htail.symm
              simp [Exhausted, hid]
          | cons v l =>
              cases m with
              | nil => cases htail
              | cons w m => simp [Exhausted]

theorem endsPlan_iff (h : s.plan.todoTasks = cur :: rest) : EndsPlan b r s ↔
    FinishedBy r cur ∧ Exhausted rest ∨
      rest = [] ∧ cur.taskId = -1 ∧ ∃ p, preemptionPoint b r s = .ok (some p) := by
  constructor
  · rintro ⟨c, l, heq, hend⟩
    obtain ⟨rfl, rfl⟩ := List.cons.inj (h.symm.trans heq)
    exact hend
  · exact fun hend => ⟨cur, rest, h, hend⟩

theorem not_endsPlan (h : ∃ u ∈ s.plan.todoTasks.tail, u.taskId ≠ -1) : ¬ EndsPlan b r s := by
  obtain ⟨u, hu, hreal⟩ := h
  rintro ⟨cur, rest, heq, ⟨_, rfl | ⟨f, rfl, hfree⟩⟩ | ⟨rfl, _⟩⟩
  all_goals
    rw [heq] at hu
    simp at hu
  exact hreal (hu ▸ hfree)

theorem Placed.skip_ends (hv : Placed p done todo tail) (hskip : skipFreeSlot b p = .ok q) :
    ∃ done' todo' tail', Placed q done' todo' tail' ∧
      (done' ++ todo').map PbsTask.job = (done ++ todo).map PbsTask.job ∧
      (todo' = [] ↔ Exhausted todo) ∧ (Ahead Owns [] todo → Ahead Owns [] todo') := by
  rcases hv.skip hskip with ⟨hh, rfl⟩ | ⟨cur, rest, done', todo', tail', rfl, hfree, hv', hd, htodo⟩
  · refine ⟨done, todo, tail, hv, rfl, ⟨.inl, fun h => ?_⟩, id⟩
    rcases h with h | ⟨f, rfl, hf⟩
    · exact h
    · exact absurd hf (hh f hv.readCurTask)
  · refine ⟨done', todo', tail', hv', ?_, ?_, fun h => ahead_of_link rfl (map_link_of_frame htodo) h.2⟩
    · rw [List.map_append, map_job_of_frame htodo, map_job_of_body hd]
      simp
    · have hnil : todo' = [] ↔ rest = [] := by
        rw [← List.map_eq_nil_iff (f := PbsTask.frame), htodo, List.map_eq_nil_iff]
      rw [hnil]
      simp [Exhausted, hfree]

theorem Placed.standing_slot (hv : Placed s.plan done (cur :: rest) tail) (hr : 0 ≤ r)
    (hslot : freeSlotPoint b r s = .ok (some p)) :
    ∃ done' todo' tail', Placed p done' todo' tail' ∧
      ((done' ++ todo').map PbsTask.job).Perm ((done ++ cur :: rest).map PbsTask.job) ∧
      (Exhausted todo' ↔ EndsPlan b r s) ∧
      (Ahead Owns [] (cur :: rest) → Ahead Owns [] todo') := by
  obtain ⟨done₂, cur₂, rest₂, tail₂, hcur₂, hdone₂, hrest₂, _, hcourse⟩ := hv.course hr hslot
  have hcurjob : cur₂.job = cur.job := (job_of_core hcur₂).trans (job_credited r cur)
  have hrestjobs := map_job_of_core hrest₂
  have hnil : rest₂ = [] ↔ rest = [] := by
    rw [← List.map_eq_nil_iff (f := PbsTask.job), hrestjobs, List.map_eq_nil_iff]
  have hstate : cur₂.state = .finished ↔ FinishedBy r cur := by
    rw [state_of_core hcur₂, state_credited, FinishedBy]
  have hjobs : (done₂ ++ cur₂ :: rest₂).map PbsTask.job =
      (done ++ cur :: rest).map PbsTask.job := by
    simp only [List.map_append, List.map_cons, hcurjob, map_job_of_core hdone₂, hrestjobs]
  have hahead : Ahead Owns [] (cur :: rest) → Ahead Owns [] (cur₂ :: rest₂) :=
    ahead_of_link rfl (map_link_of_core hcur₂ hrest₂)
  rw [endsPlan_iff hv.toLayout.todoTasks_eq, ← hstate, ← hnil, ← Exhausted.of_jobs hrestjobs,
    ← job_taskId hcurjob, ← hjobs]
  cases hcourse with
  | finished tail₃ hfin hpoint hv₃ =>
      refine ⟨_, _, _, hv₃, by simp, ?_, fun h => ahead_of_link rfl
        (map_link_of_frame (map_startHead PbsTask.frame (fun _ => rfl) rest₂)) (hahead h).2⟩
      rw [Exhausted.of_jobs (map_job_startHead rest₂), hpoint]
      simp [hfin]
  | rotated p₂ blk n ns f post hrun hcut hpoint hv₂ hv₃ =>
      refine ⟨_, _, _, hv₃, ?_, ?_, fun h => hcut.ahead (hahead h)⟩
      · have hperm := hcut.jobs_perm.append_left (done₂.map PbsTask.job)
        rw [← List.map_append, ← List.map_append] at hperm
        exact hperm
      · simp [Exhausted, hrun, hcut.todo_eq]
  | gaveUp p₂ done₃ rest₃ tail₃ hrun hnone hpoint hv₂ hv₃ hdone₃ hrest₃ =>
      refine ⟨_, _, _, hv₃, ?_, ?_, fun h => ahead_of_link rfl ?_ (hahead h)⟩
      · rw [List.map_append, List.map_append, List.map_cons, List.map_cons, job_credited,
          map_job_of_body hdone₃, map_job_of_body hrest₃]
        exact List.Perm.refl _
      · have hcurid : (credited (cur₂.instructionsReal - cur₂.instructionsRetiredTask)
            (bump cur₂)).taskId = cur₂.taskId := job_taskId (job_credited _ _)
        have hnil₃ : rest₃ = [] ↔ rest₂ = [] := by
          rw [← List.map_eq_nil_iff (f := PbsTask.body), hrest₃, List.map_eq_nil_iff]
        rw [hpoint]
        simp [Exhausted, hrun, hcurid, hnil₃]
      · rw [List.map_cons, List.map_cons, link_credited, map_link_of_frame (map_frame_of_body hrest₃)]
        rfl

theorem Placed.standing_tick (hv : Placed s.plan done (cur :: rest) tail) (hr : 0 ≤ r)
    (htick : pbsRunTimerTick b r s = .ok s') :
    ∃ done' todo' tail', Placed s'.plan done' todo' tail' ∧
      ((done' ++ todo').map PbsTask.job).Perm ((done ++ cur :: rest).map PbsTask.job) ∧
      (todo' = [] ↔ EndsPlan b r s) ∧
      (Ahead Owns [] (cur :: rest) → Ahead Owns [] todo') := by
  rcases hv.tick_cases hr htick with ⟨p, q, hslot, hskip, hs⟩ |
    ⟨_, hpoint, done₂, cur₂, rest₂, tail₂, hv₂, hrun, hcur₂, hdone₂, hrest₂, _⟩
  · obtain ⟨done₃, todo₃, tail₃, hv₃, hjobs, hend, hahead⟩ := hv.standing_slot hr hslot
    obtain ⟨done', todo', tail', hv', hjobs', hend', hahead'⟩ := hv₃.skip_ends hskip
    refine ⟨done', todo', tail', ?_, hjobs' ▸ hjobs, hend'.trans hend, hahead' ∘ hahead⟩
    rw [hs]
    exact hv'.of_same rfl rfl rfl rfl
  · refine ⟨done₂, cur₂ :: rest₂, tail₂, hv₂, ?_, ?_,
      ahead_of_link rfl (map_link_of_core hcur₂ hrest₂)⟩
    · simp only [List.map_append, List.map_cons, map_job_of_core hdone₂, map_job_of_core hrest₂,
        (job_of_core hcur₂).trans (job_credited r cur)]
      exact List.Perm.refl _
    · rw [endsPlan_iff hv.toLayout.todoTasks_eq, hpoint]
      have hunfinished : ¬ FinishedBy r cur := by
        rwa [FinishedBy, ← state_credited, ← state_of_core hcur₂]
      simp [hunfinished]

theorem Standing.tick (h : Standing jobs s.plan) (hr : 0 ≤ r)
    (htick : pbsRunTimerTick b r s = .ok s') : Standing jobs s'.plan := by
  obtain ⟨done, todo, tail, hv, hperm, hahead⟩ := h
  cases todo with
  | nil => exact hv.tick_ended htick ▸ ⟨done, [], tail, hv, hperm, hahead⟩
  | cons cur rest =>
      obtain ⟨done', todo', tail', hv', hjobs, _, hahead'⟩ := hv.standing_tick hr htick
      exact ⟨done', todo', tail', hv', hjobs.trans hperm, hahead' hahead⟩

theorem Parsed.standing (hp : Parsed p) (hf : Formatted p)
    (hfirst : ∀ t ∈ p.tasks.toList.head?, t.taskId ≠ -1) :
    Standing (p.parsedTasks.map PbsTask.job) p :=
  ⟨_, _, _, hp.placed hf hfirst, List.Perm.refl _,
    Ahead.of_self fun t ht => ⟨(hp.fresh t ht).slotOwner.symm, rfl⟩⟩

theorem Parsed.standing_run {pmu : Nat → Int} {t : System} {k : Nat} (hp : Parsed s.plan)
    (hf : Formatted s.plan) (hfirst : ∀ t ∈ s.plan.tasks.toList.head?, t.taskId ≠ -1)
    (hpmu : ∀ k, 0 ≤ pmu k) (ht : runTicks b pmu s k = .ok t) :
    Standing (s.plan.parsedTasks.map PbsTask.job) t.plan :=
  run_invariant (I := fun t => Standing (s.plan.parsedTasks.map PbsTask.job) t.plan)
    (hp.standing hf hfirst) (fun j _ _ _ _ h htick => h.tick (hpmu j) htick) ht

theorem Placed.keepsBooks_iff {p₀ : PbsPlan} (hp : Parsed p₀) (hv : Placed p done todo tail)
    (hjobs : ((done ++ todo).map PbsTask.job).Perm (p₀.parsedTasks.map PbsTask.job))
    (hheader : p.header = p₀.header) : Bookkeeping p ↔ todo ≠ [] := by
  constructor
  · rintro h rfl
    obtain ⟨t, rest, rfl, hid, hpid⟩ := id hv.terminates
    have hread := readCurTask_joint (p := p) hv.tasks hv.cur
    obtain ⟨_, hprocess⟩ := h.curProcess t hread
    rw [hv.process t hread, processOf, if_pos (by omega), if_pos (.inr hid), hpid] at hprocess
    cases hprocess
  · intro hne
    obtain ⟨cur, rest, rfl⟩ := List.exists_cons_of_ne_nil hne
    have hnum : p.numTasks = p₀.numTasks := congrArg (·.2.1) hheader
    have hlen := hjobs.length_eq
    have hparsed : p₀.parsedTasks.length = p₀.numTasks := by
      have := hp.numTasks_lt
      rw [PbsPlan.parsedTasks, List.length_take, Vector.length_toList]
      omega
    rw [List.length_map, List.length_map, hparsed, List.length_append] at hlen
    refine ⟨hv.cur.trans hv.index.symm, ?_, fun c hc => ?_⟩
    · rw [hv.index, hnum]
      omega
    · obtain rfl := Except.ok.inj (hv.readCurTask.symm.trans hc)
      obtain ⟨u, hu, hjob⟩ := List.mem_map.1
        (hjobs.subset (List.mem_map_of_mem (show cur ∈ done ++ cur :: rest by simp)))
      have hlive := (hv.live cur (by simp)).1
      rw [hv.process cur hc, processOf]
      by_cases hfree : cur.taskId = -1
      · rw [if_neg (by simpa using hfree), if_pos (.inl hfree)]
        exact ⟨by decide, rfl⟩
      · rw [if_pos hfree, if_neg (by omega)]
        refine ⟨?_, rfl⟩
        rw [← job_processId hjob]
        refine hp.pid u hu fun hpid => hfree ?_
        rw [hv.free cur (by simp), ← job_processId hjob]
        exact hpid

theorem Parsed.startsWithTask (hp : Parsed p) (hf : Formatted p) (hb : Bookkeeping p) :
    StartsWithTask p := by
  have hl := hp.layout hf
  obtain ⟨cur, rest, heq, hcur⟩ := hl.head
  obtain ⟨hindex, _⟩ := hb.curProcess cur hcur
  rw [hp.curProcess cur hcur] at hindex
  have hpid := hindex.1
  cases htasks : p.parsedTasks with
  | nil =>
      obtain ⟨t, more, htail, _, ht⟩ := hl.terminates
      rw [htasks, List.nil_append, htail] at heq
      obtain ⟨rfl, _⟩ := List.cons.inj heq
      omega
  | cons t l =>
      rw [htasks, List.cons_append] at heq
      obtain ⟨rfl, _⟩ := List.cons.inj heq
      refine ⟨t, by rw [htasks]; rfl, fun hid => ?_⟩
      have := (hf t (by rw [htasks]; simp)).2.1 hid
      omega

theorem StartsWithTask.first (h : StartsWithTask p) : ∀ t ∈ p.tasks.toList.head?, t.taskId ≠ -1 := by
  obtain ⟨u, hu, hid⟩ := h
  obtain ⟨l, hl⟩ := List.head?_eq_some_iff.1 hu
  intro t ht
  rw [← List.take_append_drop p.numTasks p.tasks.toList,
    show p.tasks.toList.take p.numTasks = u :: l from hl] at ht
  exact Option.some.inj ht ▸ hid

end Standing

/-- Up to every tick of a run the pointers fit if and only if the plan starts with a task and no
tick passed its last entry. -/
theorem bookkeeping_iff {text : List Char} {b : Build} {pmu : Nat → Int} {s t : System} {k : Nat}
    (hparse : parsePlan text zeroedPlan = .ok s.plan) (hformatted : Formatted s.plan)
    (hpmu : ∀ k, 0 ≤ pmu k) (ht : runTicks b pmu s k = .ok t) :
    (∀ j ≤ k, ∀ u, runTicks b pmu s j = .ok u → Bookkeeping u.plan) ↔
      StartsWithTask s.plan ∧
        ∀ j < k, ∀ u, runTicks b pmu s j = .ok u → ¬ EndsPlan b (pmu j) u := by
  have hparsed := parsePlan_parsed hparse
  by_cases hstart : StartsWithTask s.plan
  · simp only [hstart, true_and]
    refine run_forall_iff (P := fun _ u => Bookkeeping u.plan)
      (C := fun j u => ¬ EndsPlan b (pmu j) u) ht ?_ fun j _ u v hu htick hbefore => ?_
    · obtain ⟨t, ht, _⟩ := id hstart
      refine ((hparsed.placed hformatted hstart.first).keepsBooks_iff hparsed
        (List.Perm.refl _) rfl).2 fun hnil => ?_
      rw [hnil] at ht
      cases ht
    · obtain ⟨done, todo, tail, hplaced, hjobs, _⟩ :=
        hparsed.standing_run hformatted hstart.first hpmu hu
      have hne := (hplaced.keepsBooks_iff hparsed hjobs (header_run hu)).1 hbefore
      obtain ⟨cur, rest, rfl⟩ := List.exists_cons_of_ne_nil hne
      obtain ⟨done', todo', tail', hplaced', hjobs', hend, _⟩ := hplaced.standing_tick (hpmu j) htick
      have hv : runTicks b pmu s (j + 1) = .ok v := run_succ_eq_ok.2 ⟨u, hu, htick⟩
      rw [hplaced'.keepsBooks_iff hparsed (hjobs'.trans hjobs) (header_run hv), ← hend]
  · constructor
    · intro h
      exact absurd (hparsed.startsWithTask hformatted (h 0 (Nat.zero_le k) s rfl)) hstart
    · rintro ⟨h, _⟩
      exact absurd h hstart

set_option maxRecDepth 4000 in
/-- Task 0 finishes and the free slot behind it is skipped; task 1 is still ahead. -/
theorem bookkeeping_iff_skipped :
    ∃ p t, parsePlan "2;0,0;1,0;;;0,0,10,10;-1,-1,10,0;1,1,10,10;".toList zeroedPlan = .ok p ∧
      runTicks .userland everyTick ⟨p, zeroedSignals⟩ 1 = .ok t ∧ t.plan.indexCurTask = 2 ∧
      Bookkeeping t.plan := by
  obtain ⟨p, t, hp, ht, hcheck⟩ :=
    @of_onRun .userland "2;0,0;1,0;;;0,0,10,10;-1,-1,10,0;1,1,10,10;".toList everyTick 1
      (fun p t => decide (Formatted p ∧ (∃ u ∈ p.parsedTasks.head?, u.taskId ≠ -1) ∧
        (∃ u ∈ p.todoTasks.tail, u.taskId ≠ -1) ∧ t.plan.indexCurTask = 2)) (by decide +kernel)
  simp only [decide_eq_true_eq] at hcheck
  obtain ⟨hformatted, hstart, hahead, hindex⟩ := hcheck
  refine ⟨p, t, hp, ht, hindex, (bookkeeping_iff (s := ⟨p, zeroedSignals⟩) hp hformatted
    everyTick_nonneg ht).2 ⟨hstart, fun j hj u hu => ?_⟩ 1 (Nat.le_refl 1) t ht⟩
  obtain rfl : j = 0 := by omega
  obtain rfl := Except.ok.inj hu
  exact not_endsPlan hahead

set_option maxRecDepth 4000 in
/-- When the only task has finished, `cur_process` points two entries in front of the table;
in a plan that starts with a free slot it does so from the beginning. -/
theorem bookkeeping_astray :
    (∃ p t, parsePlan "1;0,0;;;0,0,10,10;".toList zeroedPlan = .ok p ∧ Formatted p ∧
      runTicks .userland everyTick ⟨p, zeroedSignals⟩ 1 = .ok t ∧ t.plan.curProcess = -2 ∧
      ¬ Bookkeeping t.plan) ∧
    ∃ p, parsePlan "1;0,0;;;-1,-1,10,0;0,0,10,10;".toList zeroedPlan = .ok p ∧ Formatted p ∧
      p.curProcess = -1 ∧ ¬ Bookkeeping p := by
  have houtside : ∀ p : PbsPlan, (∃ cur, p.readCurTask = .ok cur) → p.curProcess < 0 →
      ¬ Bookkeeping p := by
    rintro p ⟨cur, hcur⟩ hneg hb
    have := (hb.curProcess cur hcur).1.1
    omega
  constructor
  · obtain ⟨p, t, hp, ht, hcheck⟩ :=
      @of_onRun .userland "1;0,0;;;0,0,10,10;".toList everyTick 1
        (fun p t => decide (Formatted p ∧ t.plan.curProcess = -2) &&
          onCurTask t.plan fun _ => true) (by decide +kernel)
    simp only [Bool.and_eq_true, decide_eq_true_eq] at hcheck
    obtain ⟨⟨hformatted, hprocess⟩, hcur⟩ := hcheck
    obtain ⟨cur, hcur, _⟩ := of_onCurTask hcur
    exact ⟨p, t, hp, hformatted, ht, hprocess, houtside _ ⟨cur, hcur⟩ (by omega)⟩
  · obtain ⟨p, t, hp, ht, hcheck⟩ :=
      @of_onRun .userland "1;0,0;;;-1,-1,10,0;0,0,10,10;".toList everyTick 0
        (fun p t => decide (Formatted p ∧ p.curProcess = -1) &&
          onCurTask p fun _ => true) (by decide +kernel)
    simp only [Bool.and_eq_true, decide_eq_true_eq] at hcheck
    obtain ⟨⟨hformatted, hprocess⟩, hcur⟩ := hcheck
    obtain ⟨cur, hcur, _⟩ := of_onCurTask hcur
    exact ⟨p, hp, hformatted, hprocess, houtside _ ⟨cur, hcur⟩ (by omega)⟩

end PbsLevel2
