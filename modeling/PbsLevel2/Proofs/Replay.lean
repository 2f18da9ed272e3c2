import PbsLevel2.Lib.Advance
import PbsLevel2.Proofs.Caches
import PbsLevel2.Proofs.Recording

/-!
# The planned lengths as a replay of the signals

A run rewrites planned lengths only when it raises a signal.  What the log of the signals says is
enough to compute the planned length of every task from the parsed one.
-/

namespace PbsLevel2

open Lib

/-! ## The list through a tick -/

/-- What the parser reads of a task, the planned length included. -/
def PbsTask.stamp (t : PbsTask) : Job × Int :=
  (t.job, t.instructionsPlanned)

/-- The agenda of a plan with the planned lengths. -/
def PbsPlan.stamps (p : PbsPlan) : Agenda (Job × Int) :=
  ⟨p.doneTasks.map PbsTask.stamp, p.todoTasks.map PbsTask.stamp⟩

section Stamps

variable {p q p₃ p₄ : PbsPlan} {done todo rest tail : List PbsTask} {cur : PbsTask}
  {r surplus : Int} {b : Build} {s s₂ s' : System}

theorem Layout.stamps_eq (hl : Layout p done todo tail) :
    p.stamps = ⟨done.map PbsTask.stamp, todo.map PbsTask.stamp⟩ := by
  rw [PbsPlan.stamps, hl.doneTasks_eq, hl.todoTasks_eq]

theorem stamp_credited (r : Int) (t : PbsTask) : (credited r t).stamp = t.stamp :=
  show (credited r t).frame.stamp = t.frame.stamp by rw [frame_credited]

theorem Placed.stamps_credit (hv : Placed p done (cur :: rest) tail) (hr : 0 ≤ r)
    (h : updateRetiredInstructions r p = .ok q) : q.stamps = p.stamps := by
  obtain ⟨done', rest', tail', hv', hdone, hrest, _⟩ := hv.credit hr h
  rw [hv.toLayout.stamps_eq, hv'.toLayout.stamps_eq, List.map_cons, List.map_cons, stamp_credited,
    map_of_view hdone fun _ => rfl, map_of_view hrest fun _ => rfl]

theorem Placed.stamps_passed (hv : Placed p done (cur :: rest) tail) :
    Agenda.Advances [cur.stamp] p.stamps (p.passed done cur rest tail).stamps := by
  rw [hv.toLayout.stamps_eq, hv.passed.toLayout.stamps_eq, map_startHead PbsTask.stamp fun _ => rfl,
    List.map_append, List.map_cons]
  exact .pass _ _ _

theorem Placed.stamps_finish (hv : Placed p done (cur :: rest) tail)
    (h : (bookFinishedTask surplus p >>= advanceCurTask) = .ok q) :
    Placed q (done ++ [cur]) (rest.modifyHead start) (startTail rest tail) ∧
      Agenda.Advances [cur.stamp] p.stamps q.stamps := by
  obtain ⟨_, rfl⟩ := finishTask_eq_ok hv h
  exact ⟨(hv.booked surplus).passed, (hv.booked surplus).stamps_passed⟩

theorem Placed.stamps_skip (hv : Placed p done todo tail) (h : skipFreeSlot b p = .ok q) :
    (∃ done' todo' tail', Placed q done' todo' tail') ∧
      ∃ skipped, (∀ x ∈ skipped, x.1.taskId = -1) ∧ Agenda.Advances skipped p.stamps q.stamps := by
  rcases skipFreeSlot_eq_ok hv.toLayout h with ⟨_, rfl⟩ | ⟨cur, rest, first, rfl, hfree, _, hq⟩
  · exact ⟨⟨done, todo, tail, hv⟩, [], by simp, .refl _⟩
  · have hvp := hv.passed
    have hpassed := hv.stamps_passed
    by_cases hneg : -first.instructionsPlanned < 0
    · rw [updateRetiredInstructions_neg hneg] at hq
      obtain rfl := Except.ok.inj hq
      exact ⟨⟨_, _, _, hvp.of_same rfl rfl rfl rfl⟩, [cur.stamp],
        List.forall_mem_singleton.2 hfree, hpassed⟩
    · obtain ⟨c, more, heq⟩ := hvp.retire_todo (Int.not_lt.1 hneg) hq
      rw [heq] at hvp
      obtain ⟨done', more', tail', hv', _⟩ := hvp.credit (Int.not_lt.1 hneg) hq
      refine ⟨⟨_, _, _, hv'⟩, [cur.stamp], List.forall_mem_singleton.2 hfree, ?_⟩
      rw [hvp.stamps_credit (Int.not_lt.1 hneg) hq]
      exact hpassed

theorem Placed.stamps_preempt (hv : Placed p done (cur :: rest) tail)
    (hleft : 0 ≤ cur.instructionsReal - cur.instructionsRetiredTask)
    (h : preemptCurTask b p = .ok q) :
    (∃ done' todo' tail', Placed q done' todo' tail') ∧ Agenda.Advances [] p.stamps q.stamps := by
  rcases preemptCurTask_eq_ok hv.toLayout h with
    ⟨blk, n, ns, f, post, hcut, _, rfl⟩ | ⟨_, q₁, hq₁, rfl⟩
  · refine ⟨⟨_, _, _, hv.rotated hcut⟩, ?_⟩
    rw [hv.toLayout.stamps_eq, (hv.rotated hcut).toLayout.stamps_eq]
    exact .reorder _ (hcut.view_perm f.taskId (fun _ => rfl) (fun _ => rfl) fun _ => rfl)
  · obtain ⟨done', rest', tail', hv', _⟩ := hv.bumped.credit hleft hq₁
    refine ⟨⟨_, _, _, hv'.of_same rfl rfl rfl rfl⟩, ?_⟩
    have hbumped : (p.bumped done cur (rest ++ tail)).stamps = p.stamps := by
      rw [hv.toLayout.stamps_eq, hv.bumped.toLayout.stamps_eq]
      rfl
    have hsame : ({ q₁ with state := .planFinished } : PbsPlan).stamps = p.stamps :=
      (hv.bumped.stamps_credit hleft hq₁).trans hbumped
    rw [hsame]
    exact .refl _

/-- A tick in front of the terminator: the credit rewrites no stamp, the signal may, and what
follows it reorders tasks, passes the current one if it is finished, and free slots. -/
theorem Placed.stamps_tick (hv : Placed s.plan done (cur :: rest) tail) (hr : 0 ≤ r)
    (htick : pbsRunTimerTick b r s = .ok s') :
    ∃ p s₂, (∃ done₁ rest₁ tail₁, Placed p done₁ (credited r cur :: rest₁) tail₁) ∧
      updateRetiredInstructions r s.plan = .ok p ∧ p.stamps = s.plan.stamps ∧
      LeavesSignal b r s p s₂ ∧ (∃ done' todo' tail', Placed s'.plan done' todo' tail') ∧
      ∃ skipped, (∀ x ∈ skipped, x.1.taskId = -1) ∧
        Agenda.Advances ((if (credited r cur).state = .finished then s₂.plan.stamps.todo.take 1
          else []) ++ skipped) s₂.plan.stamps s'.plan.stamps := by
  have hc₀ := hv.readCurTask
  have hlive := (hv.live cur (by simp)).1
  cases PbsLevel2.tick_cases htick with
  | ended c hc hend =>
      obtain rfl := Except.ok.inj (hc₀.symm.trans hc)
      exact absurd hend hlive
  | finished p₁ c s₂ p₃ p₄ _ hcredit hc hstate hsignal hbook hskip hs =>
      obtain ⟨done₁, rest₁, tail₁, hv₁, _⟩ := hv.credit hr hcredit
      obtain rfl := Except.ok.inj (hc.symm.trans hv₁.readCurTask)
      obtain ⟨cur₂, rest₂, hv₂, _⟩ :=
        hv₁.signal (s := { s with plan := p₁ }) (signalIfTm2_eq_ok hsignal)
      obtain ⟨hv₃, hadvances₃⟩ := hv₂.stamps_finish hbook
      obtain ⟨⟨_, _, _, hv₄⟩, skipped, hskipped, hadvances₄⟩ := hv₃.stamps_skip hskip
      refine ⟨p₁, s₂, ⟨_, _, _, hv₁⟩, hcredit, hv.stamps_credit hr hcredit,
        leavesSignal_finished hc₀ hlive hcredit hc hstate hsignal, ?_, skipped, hskipped, ?_⟩
      · rw [hs]
        exact ⟨_, _, _, hv₄.of_same rfl rfl rfl rfl⟩
      · rw [hs, if_pos hstate, hv₂.toLayout.stamps_eq]
        rw [hv₂.toLayout.stamps_eq] at hadvances₃
        exact hadvances₃.trans hadvances₄
  | preempted p₁ c s₂ p₃ p₄ _ hcredit hc hstate hsignal ht1 hpreempt hskip hs =>
      obtain ⟨done₁, rest₁, tail₁, hv₁, _⟩ := hv.credit hr hcredit
      obtain rfl := Except.ok.inj (hc.symm.trans hv₁.readCurTask)
      obtain ⟨cur₂, rest₂, hv₂, hcur₂, _⟩ :=
        hv₁.signal (s := { s with plan := p₁ }) (signalIfT2_eq_ok hsignal)
      have hleft : 0 ≤ cur₂.instructionsReal - cur₂.instructionsRetiredTask := by
        have hcredited := credited_state hstate
        rw [← real_of_core hcur₂, ← retiredTask_of_core hcur₂] at hcredited
        omega
      obtain ⟨⟨_, _, _, hv₃⟩, hadvances₃⟩ := hv₂.stamps_preempt hleft hpreempt
      obtain ⟨⟨_, _, _, hv₄⟩, skipped, hskipped, hadvances₄⟩ := hv₃.stamps_skip hskip
      refine ⟨p₁, s₂, ⟨_, _, _, hv₁⟩, hcredit, hv.stamps_credit hr hcredit,
        leavesSignal_running hc₀ hlive hcredit hc hstate hsignal, ?_, skipped, hskipped, ?_⟩
      · rw [hs]
        exact ⟨_, _, _, hv₄.of_same rfl rfl rfl rfl⟩
      · rw [hs, if_neg hstate]
        exact hadvances₃.trans hadvances₄
  | waited p₁ c s₂ _ hcredit hc hstate hsignal ht1 hs =>
      obtain ⟨done₁, rest₁, tail₁, hv₁, _⟩ := hv.credit hr hcredit
      obtain rfl := Except.ok.inj (hc.symm.trans hv₁.readCurTask)
      obtain ⟨cur₂, rest₂, hv₂, _⟩ :=
        hv₁.signal (s := { s with plan := p₁ }) (signalIfT2_eq_ok hsignal)
      rw [relieveStress_eq] at hs
      refine ⟨p₁, s₂, ⟨_, _, _, hv₁⟩, hcredit, hv.stamps_credit hr hcredit,
        leavesSignal_running hc₀ hlive hcredit hc hstate hsignal, ?_, [], by simp, ?_⟩
      · rw [hs]
        exact ⟨_, _, _, hv₂.of_same rfl rfl rfl rfl⟩
      · rw [hs, if_neg hstate]
        exact .refl _

end Stamps

/-! ## The replay -/

/-- The process whose tasks the recorded signal rescaled. -/
def targetPid (sig : PredictionFailureSignal) : Int :=
  if sig.typeSignal = .t2 then sig.processId else 0

/-- What the recorded signal made of the planned length `n` of a task of process `pid`. -/
def replayed (pid n : Int) (sig : PredictionFailureSignal) : Int :=
  if pid = targetPid sig then (n * factorOf sig.typeSignal).tdiv 100 else n

/-- The planned length of a task of process `pid` after the signals of the log, `n` at first. -/
def replay (pid : Int) (log : List PredictionFailureSignal) (n : Int) : Int :=
  log.foldl (replayed pid) n

/-- The tasks ahead saw all signals of the log, the others those up to when they were passed. -/
structure Replays (parsed : List PbsTask) (log : List PredictionFailureSignal)
    (a : Agenda (Job × Int)) : Prop where
  done : ∀ x ∈ a.done, ∃ u ∈ parsed, ∃ seen, seen <+: log ∧ u.job = x.1 ∧
    x.2 = replay x.1.processId seen u.instructionsPlanned
  todo : ∀ x ∈ a.todo, ∃ u ∈ parsed, u.job = x.1 ∧
    x.2 = replay x.1.processId log u.instructionsPlanned

section Replay

variable {p : PbsPlan} {done todo rest tail parsed : List PbsTask} {cur : PbsTask} {r : Int}
  {b : Build} {s s₂ s' t : System} {log : List PredictionFailureSignal} {a a' : Agenda (Job × Int)}
  {signal : Check} {sig : PredictionFailureSignal}

theorem Replays.advances {gone : List (Job × Int)} (h : Replays parsed log a)
    (hadvances : Agenda.Advances gone a a') : Replays parsed log a' := by
  obtain ⟨hdone, htodo⟩ := hadvances.forall_mem
    (fun x ⟨u, hu, hjob, heq⟩ => ⟨u, hu, log, List.prefix_refl _, hjob, heq⟩) h.done h.todo
  exact ⟨hdone, htodo⟩

theorem targetPid_of_signalEntry (hsig : signalEntry signal p = .ok sig) :
    sig.typeSignal = signal ∧ targetPid sig = targetOf signal p := by
  obtain ⟨cur, _, hsig⟩ := bind_eq_ok.1 hsig
  obtain ⟨q, hq, hsig⟩ := bind_eq_ok.1 hsig
  obtain rfl := Except.ok.inj hsig
  rw [readProcess_eq (readProcess_index hq)] at hq
  obtain rfl := Except.ok.inj hq
  exact ⟨rfl, rfl⟩

theorem stamp_rescale (hsig : signalEntry signal p = .ok sig) (t : PbsTask) :
    (rescale (factorOf signal) (targetOf signal p) t).stamp =
      (t.job, replayed t.processId t.instructionsPlanned sig) := by
  obtain ⟨htype, htarget⟩ := targetPid_of_signalEntry hsig
  rw [replayed, htype, htarget, rescale]
  split <;> rfl

theorem LeavesSignal.entry (h : LeavesSignal b r s p s₂) {q : PbsPlan}
    (hpoint : signalPoint b r s = .ok (some (signal, q))) :
    ∃ sig, signalEntry signal p = .ok sig := by
  cases h with
  | silent hnone =>
      rw [hnone] at hpoint
      cases hpoint
  | t2 hraised hs =>
      rw [hraised] at hpoint
      cases hpoint
      obtain ⟨sig, hsig, _⟩ := signals_signal hs
      exact ⟨sig, hsig⟩
  | tm2 hraised hs =>
      rw [hraised] at hpoint
      cases hpoint
      obtain ⟨sig, hsig, _⟩ := signals_signal hs
      exact ⟨sig, hsig⟩

theorem Replays.signalled (h : Replays parsed log p.stamps) (hv : Placed p done todo tail)
    (hleaves : LeavesSignal b r s p s₂) :
    Replays parsed (log ++ entriesOf b r s) s₂.plan.stamps := by
  rcases hleaves.rescaled hv with ⟨hpoint, heq⟩ | ⟨signal, hpoint, hv₂, _⟩
  · rw [heq, entriesOf_of_none hpoint, List.append_nil]
    exact h
  · obtain ⟨sig, hsig⟩ := hleaves.entry hpoint
    rw [entriesOf_of_eq hpoint hsig, hv₂.toLayout.stamps_eq]
    rw [hv.toLayout.stamps_eq] at h
    constructor
    · intro x hx
      obtain ⟨u, hu, seen, hseen, hjob, heq⟩ := h.done x hx
      exact ⟨u, hu, seen, hseen.trans (List.prefix_append _ _), hjob, heq⟩
    · intro x hx
      obtain ⟨_, hmem, rfl⟩ := List.mem_map.1 hx
      obtain ⟨t, ht, rfl⟩ := List.mem_map.1 hmem
      obtain ⟨u, hu, hjob, heq⟩ := h.todo t.stamp (List.mem_map_of_mem ht)
      rw [stamp_rescale hsig]
      refine ⟨u, hu, hjob, ?_⟩
      rw [replay, List.foldl_append]
      exact congrArg (replayed t.processId · sig) heq

/-- What the replay needs of a state that a run reaches. -/
structure Replayed (parsed : List PbsTask) (t : System) (log : List PredictionFailureSignal) :
    Prop where
  placed : ∃ done todo tail, Placed t.plan done todo tail
  replays : Replays parsed log t.plan.stamps

theorem Replayed.tick (h : Replayed parsed s log) (hr : 0 ≤ r)
    (htick : pbsRunTimerTick b r s = .ok s') : Replayed parsed s' (log ++ entriesOf b r s) := by
  obtain ⟨⟨done, todo, tail, hv⟩, hreplays⟩ := h
  cases todo with
  | nil =>
      obtain ⟨cur, hcur, hend⟩ := hv.toLayout.ended
      have hpoint : signalPoint b r s = .ok none := by
        rw [signalPoint, hcur, ok_bind, if_pos hend]
        rfl
      rw [hv.tick_ended htick, entriesOf_of_none hpoint, List.append_nil]
      exact ⟨⟨done, [], tail, hv⟩, hreplays⟩
  | cons cur rest =>
      obtain ⟨p, s₂, ⟨_, _, _, hv₁⟩, _, heq, hleaves, hplaced, _, _, hadvances⟩ :=
        hv.stamps_tick hr htick
      rw [← heq] at hreplays
      exact ⟨hplaced, (hreplays.signalled hv₁ hleaves).advances hadvances⟩

theorem Parsed.replayed (hp : Parsed s.plan) (hformatted : Formatted s.plan)
    (hfirst : ∀ t ∈ s.plan.tasks.toList.head?, t.taskId ≠ -1) :
    Replayed s.plan.parsedTasks s [] := by
  have hv := hp.placed hformatted hfirst
  refine ⟨⟨_, _, _, hv⟩, ?_⟩
  rw [hv.toLayout.stamps_eq]
  refine ⟨by simp, fun x hx => ?_⟩
  obtain ⟨u, hu, rfl⟩ := List.mem_map.1 hx
  exact ⟨u, hu, rfl, rfl⟩

end Replay

end PbsLevel2
