import PbsLevel2.Proofs.Pointers

/-!
# Free slots

`handle_free_slot` moves on by exactly one entry and books the first entry of the plan.  So
a free slot is passed as it should be where no other one stands behind it and the first
entry has a positive planned length.
-/

namespace PbsLevel2

open Lib

/-- The check for a free slot passes the whole run of free slots from the current entry on, to
a task or the terminator, and counts none of it as retired instructions of a process. -/
def PassesFreeSlots (b : Build) (p : PbsPlan) : Prop :=
  ∃ q, skipFreeSlot b p = .ok q ∧ HeadReal q ∧
    q.indexCurTask = p.indexCurTask + (p.todoTasks.takeWhile (·.taskId = -1)).length ∧
    ∀ i, (processAt q.processes i).instructionsRetired =
      (processAt p.processes i).instructionsRetired

/-- If the current entry is a free slot, then no other one follows and the first entry of the plan
has a positive planned length; without assertions the length may be 0, unless the terminator
follows. -/
def standsAlone (b : Build) (p : PbsPlan) : Bool :=
  match p.readCurTask, p.readTask (p.curTask + 1), p.readTask 0 with
  | .ok cur, .ok next, .ok first =>
      cur.taskId ≠ -1 || next.taskId ≠ -1 && (0 < first.instructionsPlanned ||
        b = .kernel && first.instructionsPlanned = 0 && next.taskId ≠ -2)
  | _, _, _ => true

/-! ## A credit that succeeds -/

section Credit

variable {p : PbsPlan} {done rest tail : List PbsTask} {cur : PbsTask} {r : Int}

theorem findTaskFrom_exists {taskId : Int} {l post : List PbsTask}
    (hlive : ∀ t ∈ l, t.taskId ≠ -2) (h : ∃ o ∈ l, o.taskId = taskId) (i : Nat) :
    ∃ k, findTaskFrom taskId (l ++ post) i = .ok (some k) := by
  induction l generalizing i with
  | nil =>
      obtain ⟨o, ho, _⟩ := h
      cases ho
  | cons t l ih =>
      rw [List.cons_append, findTaskFrom, if_neg (hlive t (by simp))]
      by_cases ht : t.taskId = taskId
      · exact ⟨i, if_pos ht⟩
      · rw [if_neg ht]
        obtain ⟨o, ho, hoid⟩ := h
        refine ih (fun u hu => hlive u (by simp [hu])) ⟨o, ?_, hoid⟩ _
        rcases List.mem_cons.1 ho with rfl | ho
        · exact absurd hoid ht
        · exact ho

theorem succeeds_modifyTask {i : Nat} {t : PbsTask} (h : p.tasks.toList[i]? = some t)
    (f : PbsTask → PbsTask) : ∃ l, p.modifyTask i f = .ok (p.withTasks l) := by
  obtain ⟨hlt, hget⟩ := List.getElem?_eq_some_iff.1 h
  obtain ⟨hwrite, _⟩ := writeTask_of_lt rfl hlt (f t)
  exact ⟨p.tasks.toList.take i ++ f t :: p.tasks.toList.drop (i + 1), by
    rw [PbsPlan.modifyTask, readTask_eq_ok.2 h, ok_bind, hwrite]⟩

theorem Placed.succeeds_credit (hv : Placed p done (cur :: rest) tail)
    (hahead : Ahead Owns [] (cur :: rest)) (hi : ProcessIndex p.curProcess) (hr : 0 ≤ r) :
    ∃ q, updateRetiredInstructions r p = .ok q := by
  obtain ⟨⟨o, ho, hid, _⟩, _⟩ := hahead
  rw [List.append_nil] at ho
  set u := pbsUpdateRetiredInstructionsTask r cur with hu
  have hfirst : p.modifyTask p.curTask (pbsUpdateRetiredInstructionsTask r) =
      .ok (p.withTasks (done ++ u :: (rest ++ tail))) := by
    rw [hv.cur]
    exact modifyTask_joint hv.toLayout.tasks_cons _
  have hl₁ := toList_withTasks_joint hv.toLayout.tasks_cons u
  have hread := readCurTask_joint hl₁ hv.cur
  obtain ⟨slot, t, hslot, ht⟩ : ∃ slot t,
      slotOfCurTask (p.withTasks (done ++ u :: (rest ++ tail))) = .ok slot ∧
      (p.withTasks (done ++ u :: (rest ++ tail))).tasks.toList[slot]? = some t := by
    rw [slotOfCurTask, hread, ok_bind]
    split
    · exact ⟨_, u, rfl, readTask_eq_ok.1 hread⟩
    · have hlive : ∀ v ∈ done ++ u :: rest, v.taskId ≠ -2 := by
        intro v hv'
        rcases List.mem_append.1 hv' with hv' | hv'
        · exact (hv.live v (by simp [hv'])).1
        · rcases List.mem_cons.1 hv' with rfl | hv'
          · rw [hu, retire_taskId]
            exact (hv.live cur (by simp)).1
          · exact (hv.live v (by simp [hv'])).1
      have howner : ∃ o ∈ done ++ u :: rest, o.taskId = u.slotOwner := by
        rw [hu, retire_slotOwner, ← hid]
        rcases List.mem_cons.1 ho with rfl | ho
        · exact ⟨_, by simp, retire_taskId r o⟩
        · exact ⟨o, by simp [ho], rfl⟩
      obtain ⟨k, hk⟩ := @findTaskFrom_exists _ _ tail hlive howner 0
      rw [List.append_assoc, List.cons_append, ← hl₁] at hk
      obtain ⟨j, t, rfl, ht, _⟩ := findTaskFrom_some hk
      rw [findTaskWithTaskId, hk, ok_bind]
      exact ⟨_, t, rfl, by rwa [Nat.zero_add]⟩
  obtain ⟨l, hl⟩ := succeeds_modifyTask ht (creditSlot r)
  rw [updateRetiredInstructions, if_neg (by omega), hfirst, ok_bind, hslot, ok_bind]
  change ∃ q, (PbsPlan.modifyTask _ _ (creditSlot r) >>= _) = .ok q
  rw [hl, ok_bind]
  dsimp only [PbsPlan.withTasks]
  rw [modifyProcess_eq hi]
  exact ⟨_, rfl⟩

end Credit

/-! ## One free slot -/

section Passes

variable {p q : PbsPlan} {done todo rest tail : List PbsTask} {cur first : PbsTask} {b : Build}

theorem Placed.skipFreeSlot_eq (hv : Placed p done (cur :: rest) tail) (hfree : cur.taskId = -1)
    (hfirst : p.readTask 0 = .ok first) : skipFreeSlot b p = (do
      let q ← updateRetiredInstructions (-first.instructionsPlanned) (p.passed done cur rest tail)
      assertThat b .handleFreeSlotLateness (p.lateness > q.lateness)
      let next ← q.readCurTask
      assertThat b .handleFreeSlotNext (next.taskId ≠ -1)
      return q) := by
  obtain ⟨u, _, hu⟩ := hv.passed_first
  obtain rfl := Except.ok.inj (hfirst.symm.trans (hv.skip_reads.2 u hu))
  rw [skipFreeSlot, hv.readCurTask, ok_bind, if_pos hfree, handleFreeSlot, hv.readCurTask, ok_bind,
    assertThat_true _ _ (by simpa using hfree), ok_bind]
  dsimp only
  rw [hv.toLayout.updateCurProcess_next, ok_bind, hu, ok_bind]

theorem Placed.passes_real (hv : Placed p done todo tail) (hh : HeadReal p) :
    PassesFreeSlots b p := by
  obtain ⟨cur, more, heq, hcur⟩ := hv.head
  refine ⟨p, skipFreeSlot_real hcur (hh cur hcur), hh, ?_, fun i => rfl⟩
  rw [hv.toLayout.todoTasks_eq]
  cases todo with
  | nil => rfl
  | cons t rest =>
      obtain ⟨rfl, _⟩ := List.cons.inj heq
      rw [List.takeWhile_cons_of_neg (by simpa using hh _ hcur)]
      rfl

theorem Placed.passed_head (hv : Placed p done (cur :: rest) tail) :
    ∃ c, (p.passed done cur rest tail).readCurTask = .ok c ∧
      c.taskId = (nextEntry rest tail).taskId := by
  obtain ⟨c, more, heq, hc⟩ := hv.passed.head
  refine ⟨c, hc, ?_⟩
  rw [← modifyHead_start_append] at heq
  rw [nextEntry]
  cases hlist : rest ++ tail with
  | nil =>
      rw [hlist] at heq
      cases heq
  | cons n post =>
      rw [hlist, List.modifyHead_cons] at heq
      obtain ⟨rfl, _⟩ := List.cons.inj heq
      rfl

theorem Placed.freeRun_eq (hv : Placed p done (cur :: rest) tail) (hfree : cur.taskId = -1)
    (hnext : (nextEntry rest tail).taskId ≠ -1) :
    (p.todoTasks.takeWhile (·.taskId = -1)).length = 1 := by
  rw [hv.toLayout.todoTasks_eq, List.takeWhile_cons_of_pos (by simpa using hfree)]
  cases rest with
  | nil => rfl
  | cons n rest =>
      have hreal : n.taskId ≠ -1 := hnext
      rw [List.takeWhile_cons_of_neg (by simpa using hreal)]
      rfl

theorem Placed.passes_of_standsAlone (hv : Placed p done (cur :: rest) tail)
    (hfree : cur.taskId = -1) (hahead : Ahead Owns [] (cur :: rest))
    (hpids : ∀ t ∈ rest, t.processId ≠ -1 → ProcessIndex t.processId)
    (hfirst : p.readTask 0 = .ok first) (hnext : (nextEntry rest tail).taskId ≠ -1)
    (hlength : 0 < first.instructionsPlanned ∨ b = .kernel ∧ first.instructionsPlanned = 0 ∧
      (nextEntry rest tail).taskId ≠ -2) : PassesFreeSlots b p := by
  obtain ⟨c, hc, hcid⟩ := hv.passed_head
  have hrun := hv.freeRun_eq hfree hnext
  rw [PassesFreeSlots, hv.skipFreeSlot_eq hfree hfirst, hrun]
  rcases hlength with hpos | ⟨rfl, hzero, hend⟩
  · have hlate : p.lateness > (p.passed done cur rest tail).lateness + -first.instructionsPlanned := by
      change p.lateness > p.lateness + -first.instructionsPlanned
      omega
    set q : PbsPlan := { p.passed done cur rest tail with
      lateness := (p.passed done cur rest tail).lateness + -first.instructionsPlanned } with hq
    have hread : q.readCurTask = .ok c := hc
    refine ⟨q, ?_, ?_, rfl, fun i => rfl⟩
    · rw [updateRetiredInstructions_neg (by omega), ok_bind, ← hq,
        assertThat_true _ _ (decide_eq_true hlate), ok_bind, hread, ok_bind,
        assertThat_true _ _ (by simpa [hcid] using hnext)]
      rfl
    · intro c' hc'
      obtain rfl := Except.ok.inj (hread.symm.trans hc')
      rw [hcid]
      exact hnext
  · obtain ⟨n, rest, rfl⟩ : ∃ n l, rest = n :: l := by
      refine List.exists_cons_of_ne_nil ?_
      rintro rfl
      obtain ⟨t, more, rfl, hid, _⟩ := hv.terminates
      exact hend hid
    have hvp : Placed (p.passed done cur (n :: rest) tail) (done ++ [cur]) (start n :: rest)
      (startTail (n :: rest) tail) := hv.passed
    have hahead' : Ahead Owns [] (start n :: rest) := ahead_of_link (l := n :: rest) rfl rfl hahead.2
    have hi : ProcessIndex (p.passed done cur (n :: rest) tail).curProcess := by
      have hreal : (start n).taskId ≠ -1 := hnext
      rw [hvp.process _ hvp.readCurTask, processOf, if_pos hreal]
      refine hpids n (by simp) fun hpid => hreal ?_
      exact (hv.free n (by simp)).2 hpid
    obtain ⟨q, hq⟩ := hvp.succeeds_credit hahead' hi (Int.le_refl 0)
    obtain ⟨_, _, _, hvq, _, _, _, heq⟩ := hvp.credit (Int.le_refl 0) hq
    have hqid : (credited 0 (start n)).taskId = n.taskId := job_taskId (job_credited 0 (start n))
    refine ⟨q, ?_, ?_, ?_, ?_⟩
    · rw [hzero, Int.neg_zero, hq, ok_bind, assertThat_kernel, ok_bind, hvq.readCurTask, ok_bind,
        assertThat_kernel]
      rfl
    · intro c' hc'
      obtain rfl := Except.ok.inj (hvq.readCurTask.symm.trans hc')
      rw [hqid]
      exact hnext
    · rw [heq]
      rfl
    · intro i
      rw [heq]
      exact view_updateProcess hi _ (fun x => Int.add_zero _) i

theorem Placed.standsAlone_of_passes (hv : Placed p done (cur :: rest) tail)
    (hfree : cur.taskId = -1) (hfirst : p.readTask 0 = .ok first) (h : PassesFreeSlots b p) :
    (nextEntry rest tail).taskId ≠ -1 ∧ (0 < first.instructionsPlanned ∨
      b = .kernel ∧ first.instructionsPlanned = 0 ∧ (nextEntry rest tail).taskId ≠ -2) := by
  obtain ⟨q, hq, hh, _, hretired⟩ := h
  rw [hv.skipFreeSlot_eq hfree hfirst] at hq
  obtain ⟨q₀, hcredit, hq⟩ := bind_eq_ok.1 hq
  obtain ⟨_, hlate, hq⟩ := bind_eq_ok.1 hq
  obtain ⟨_, _, hq⟩ := bind_eq_ok.1 hq
  obtain ⟨_, _, hq⟩ := bind_eq_ok.1 hq
  obtain rfl := Except.ok.inj hq
  by_cases hr : -first.instructionsPlanned < 0
  · obtain ⟨c, hc, hcid⟩ := hv.passed_head
    rw [updateRetiredInstructions_neg hr] at hcredit
    obtain rfl := Except.ok.inj hcredit
    rw [← hcid]
    exact ⟨hh c hc, .inl (by omega)⟩
  · have hr := Int.not_lt.1 hr
    have hvp := hv.passed
    obtain ⟨n, l, heq⟩ := hvp.retire_todo hr hcredit
    cases rest with
    | nil => cases heq
    | cons n rest =>
        have hvp : Placed (p.passed done cur (n :: rest) tail) (done ++ [cur]) (start n :: rest)
          (startTail (n :: rest) tail) := hv.passed
        obtain ⟨_, _, _, hvq, _, _, hi, heq⟩ := hvp.credit hr hcredit
        have hid : (credited (-first.instructionsPlanned) (start n)).taskId = n.taskId :=
          job_taskId (job_credited _ (start n))
        refine ⟨hid ▸ hh _ hvq.readCurTask, .inr ⟨?_, ?_, (hv.live n (by simp)).1⟩⟩
        · cases b with
          | kernel => rfl
          | userland =>
              have hsame : q₀.lateness = p.lateness := by rw [heq]; rfl
              rw [assertThat, hsame, if_neg (by simp)] at hlate
              cases hlate
        · -- the process that becomes current is credited
          have hcount := hretired (p.passed done cur (n :: rest) tail).curProcess
          rw [heq, processAt_updateProcess _ _ hi, if_pos rfl] at hcount
          change (processAt p.processes _).instructionsRetired + -first.instructionsPlanned =
            (processAt p.processes _).instructionsRetired at hcount
          omega

theorem Placed.passes_iff (hv : Placed p done todo tail) (hahead : Ahead Owns [] todo)
    (hpids : ∀ t ∈ todo, t.processId ≠ -1 → ProcessIndex t.processId) :
    PassesFreeSlots b p ↔ standsAlone b p = true := by
  obtain ⟨cur, more, heq, hcur⟩ := hv.head
  rw [standsAlone, hcur]
  by_cases hfree : cur.taskId = -1
  · obtain ⟨rest, rfl⟩ := hv.of_readCurTask hcur (by omega)
    obtain ⟨hnext, _⟩ := hv.skip_reads
    obtain ⟨first, hfirst⟩ : ∃ first, p.readTask 0 = .ok first := ⟨_, dif_pos (by decide)⟩
    rw [hnext, hfirst]
    simp only [hfree, ne_eq, not_true_eq_false, decide_false, Bool.false_or, Bool.and_eq_true,
      Bool.or_eq_true, decide_eq_true_eq, and_assoc]
    constructor
    · exact hv.standsAlone_of_passes hfree hfirst
    · rintro ⟨halone, hlength⟩
      exact hv.passes_of_standsAlone hfree hahead (fun t ht => hpids t (by simp [ht])) hfirst halone
        hlength
  · have hh : HeadReal p := fun c hc => Except.ok.inj (hcur.symm.trans hc) ▸ hfree
    refine iff_of_true (hv.passes_real hh) ?_
    split
    · rename_i c _ _ hc _ _
      obtain rfl := Except.ok.inj hc
      simp [hfree]
    · rfl

end Passes

/-! ## Free slots in a run -/

section Run

variable {p p₀ : PbsPlan} {done todo tail : List PbsTask} {b : Build} {r : Int} {s s' : System}

theorem Placed.todo_of_slot (hv : Placed s.plan done todo tail) (hr : 0 ≤ r)
    (hslot : freeSlotPoint b r s = .ok (some p)) : ∃ cur rest, todo = cur :: rest := by
  rcases freeSlotPoint_eq_ok hslot with ⟨p₂, hpoint, _⟩ | ⟨p₁, c, s₂, hcredit, _⟩
  · obtain ⟨c₀, _, _, _, hc₀, hlive, _⟩ := preemptionPoint_eq_ok hpoint
    exact ⟨c₀, hv.of_readCurTask hc₀ hlive⟩
  · exact hv.retire_todo hr hcredit

/-- In a state of a run the check for a free slot passes it if and only if it stands alone. -/
theorem Standing.passes_iff (hp : Parsed p₀) (h : Standing (p₀.parsedTasks.map PbsTask.job) s.plan)
    (hr : 0 ≤ r) (hslot : freeSlotPoint b r s = .ok (some p)) :
    PassesFreeSlots b p ↔ standsAlone b p = true := by
  obtain ⟨done, todo, tail, hv, hjobs, hahead⟩ := h
  obtain ⟨cur, rest, rfl⟩ := hv.todo_of_slot hr hslot
  obtain ⟨done', todo', tail', hv', hjobs', _, hahead'⟩ := hv.standing_slot hr hslot
  refine hv'.passes_iff (hahead' hahead) fun t ht hpid => ?_
  obtain ⟨u, hu, hjob⟩ := List.mem_map.1
    ((hjobs'.trans hjobs).subset (List.mem_map_of_mem (List.mem_append_right done' ht)))
  rw [← job_processId hjob] at hpid ⊢
  exact hp.pid u hu hpid

theorem Standing.headReal_tick (hp : Parsed p₀)
    (h : Standing (p₀.parsedTasks.map PbsTask.job) s.plan) (hh : HeadReal s.plan) (hr : 0 ≤ r)
    (halone : ∀ p, freeSlotPoint b r s = .ok (some p) → standsAlone b p = true)
    (htick : pbsRunTimerTick b r s = .ok s') : HeadReal s'.plan := by
  obtain ⟨done, todo, tail, hv, _⟩ := id h
  cases todo with
  | nil => exact hv.tick_ended htick ▸ hh
  | cons cur rest =>
      rcases hv.tick_cases hr htick with ⟨p, q, hslot, hskip, hs⟩ |
        ⟨_, _, done₂, cur₂, rest₂, tail₂, hv₂, _, hcur₂, _⟩
      · obtain ⟨q', hq', hreal, _⟩ := (h.passes_iff hp hr hslot).2 (halone p hslot)
        obtain rfl := Except.ok.inj (hskip.symm.trans hq')
        rw [hs]
        exact hreal
      · intro c hc
        obtain rfl := Except.ok.inj (hv₂.readCurTask.symm.trans hc)
        rw [job_taskId ((job_of_core hcur₂).trans (job_credited r cur))]
        exact hh cur hv.readCurTask

end Run

/-- Up to tick `n` of a run every tick starts at a task or the terminator and passes the free slots
it comes to, if and only if the plan does not start with a free slot and every free slot that
becomes current up to there stands alone. -/
theorem freeSlots_passed_iff {text : List Char} {b : Build} {pmu : Nat → Int} {s : System} (n : Nat)
    (hparse : parsePlan text zeroedPlan = .ok s.plan) (hformatted : Formatted s.plan)
    (hpmu : ∀ k, 0 ≤ pmu k) :
    (∀ k ≤ n, ∀ t, runTicks b pmu s k = .ok t → HeadReal t.plan ∧
      ∀ p, freeSlotPoint b (pmu k) t = .ok (some p) → PassesFreeSlots b p) ↔
    FirstReal s.plan ∧ ∀ k ≤ n, ∀ t p, runTicks b pmu s k = .ok t →
      freeSlotPoint b (pmu k) t = .ok (some p) → standsAlone b p = true := by
  have hparsed := parsePlan_parsed hparse
  have hstands : FirstReal s.plan → ∀ k t, runTicks b pmu s k = .ok t →
      Standing (s.plan.parsedTasks.map PbsTask.job) t.plan := by
    intro hfirst k t ht
    exact hparsed.standing_run hformatted (hparsed.first hformatted hfirst) hpmu ht
  constructor
  · intro h
    have hfirst := (hparsed.headReal_iff hformatted).1 (h 0 (Nat.zero_le n) s rfl).1
    refine ⟨hfirst, fun k hk t p ht hslot => ?_⟩
    exact ((hstands hfirst k t ht).passes_iff hparsed (hpmu k) hslot).1 ((h k hk t ht).2 p hslot)
  · rintro ⟨hfirst, halone⟩ k hk t ht
    refine ⟨?_, fun p hslot => ((hstands hfirst k t ht).passes_iff hparsed (hpmu k) hslot).2
      (halone k hk t p ht hslot)⟩
    refine run_invariant (I := fun t => HeadReal t.plan)
      ((hparsed.headReal_iff hformatted).2 hfirst) (fun j hj u v hu hh hstep => ?_) ht
    exact (hstands hfirst j u hu).headReal_tick hparsed hh (hpmu j)
      (fun p hslot => halone j (by omega) u p hu hslot) hstep

set_option maxRecDepth 4000 in
/-- The free slot behind task 0 is passed in the first tick, and task 1 is current. -/
theorem freeSlots_passed_iff_alone :
    ∃ p t, parsePlan "1;0,0;;;0,0,10,10;-1,-1,20,0;0,1,10,10;".toList zeroedPlan = .ok p ∧
      runTicks .userland everyTick ⟨p, zeroedSignals⟩ 1 = .ok t ∧ t.plan.indexCurTask = 2 ∧
      HeadReal t.plan ∧ ∀ q, freeSlotPoint .userland (everyTick 0) ⟨p, zeroedSignals⟩ =
        .ok (some q) → PassesFreeSlots .userland q := by
  obtain ⟨p, t, hp, ht, hcheck⟩ :=
    @of_onRun .userland "1;0,0;;;0,0,10,10;-1,-1,20,0;0,1,10,10;".toList everyTick 1
      (fun p t => decide (Formatted p ∧ (∀ t ∈ p.parsedTasks.head?, t.taskId ≠ -1) ∧
        t.plan.indexCurTask = 2) && allTicks (atPoint freeSlotPoint (standsAlone .userland) .userland)
          .userland everyTick ⟨p, zeroedSignals⟩ 2) (by decide +kernel)
  simp only [Bool.and_eq_true, decide_eq_true_eq] at hcheck
  obtain ⟨⟨hformatted, hfirst, hindex⟩, hslots⟩ := hcheck
  have hall := (freeSlots_passed_iff (s := ⟨p, zeroedSignals⟩) 1 hp hformatted everyTick_nonneg).2
    ⟨hfirst, fun k hk u q hu hq => of_atPoint (of_allTicks hslots (by omega) hu) hq⟩
  exact ⟨p, t, hp, ht, hindex, (hall 1 (Nat.le_refl 1) t ht).1, (hall 0 (Nat.zero_le 1) _ rfl).2⟩

set_option maxRecDepth 4000 in
/-- Behind task 0 stand two free slots: with assertions the first tick fails one, without them
the next tick starts at the second free slot. -/
theorem freeSlots_adjacent :
    ∃ p t, parsePlan "1;0,0;;;0,0,10,10;-1,-1,20,0;-1,-1,20,0;0,1,10,10;".toList zeroedPlan =
        .ok p ∧ Formatted p ∧ FirstReal p ∧
      runTicks .userland everyTick ⟨p, zeroedSignals⟩ 1 =
        .error (.assertion .handleFreeSlotNext) ∧
      runTicks .kernel everyTick ⟨p, zeroedSignals⟩ 1 = .ok t ∧ ¬ HeadReal t.plan := by
  obtain ⟨p, t, hp, ht, hcheck⟩ :=
    @of_onRun .kernel "1;0,0;;;0,0,10,10;-1,-1,20,0;-1,-1,20,0;0,1,10,10;".toList everyTick 1
      (fun p t => decide (Formatted p ∧ (∀ t ∈ p.parsedTasks.head?, t.taskId ≠ -1) ∧
        faultOf (runTicks .userland everyTick ⟨p, zeroedSignals⟩ 1) =
          some (.assertion .handleFreeSlotNext)) && onCurTask t.plan (·.taskId = -1))
      (by decide +kernel)
  simp only [Bool.and_eq_true, decide_eq_true_eq] at hcheck
  obtain ⟨⟨hformatted, hfirst, hfault⟩, hcur⟩ := hcheck
  obtain ⟨cur, hcur, hfree⟩ := of_onCurTask hcur
  exact ⟨p, t, hp, hformatted, hfirst, eq_error_of_faultOf hfault, ht,
    fun hh => hh cur hcur (of_decide_eq_true hfree)⟩

end PbsLevel2
