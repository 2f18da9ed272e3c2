import PbsLevel2.Proofs.Settings
import PbsLevel2.Proofs.Signals

/-!
# The list in a tick

What a tick does to the task list of any plan, one with free slots side by side or with a
free slot as its current entry included.
-/

namespace PbsLevel2

open Lib

/-! ## The operations -/

section Operations

variable {p q : PbsPlan} {done todo rest tail : List PbsTask} {cur : PbsTask} {r : Int} {b : Build}
  {s s₂ : System}

theorem map_frame_of_body {l m : List PbsTask} (h : l.map PbsTask.body = m.map PbsTask.body) :
    l.map PbsTask.frame = m.map PbsTask.frame :=
  map_of_view h fun _ => rfl

theorem map_job_of_frame {l m : List PbsTask} (h : l.map PbsTask.frame = m.map PbsTask.frame) :
    l.map PbsTask.job = m.map PbsTask.job :=
  map_of_view h fun _ => rfl

theorem Placed.skip (hv : Placed p done todo tail) (hq : skipFreeSlot b p = .ok q) :
    HeadReal p ∧ q = p ∨
    ∃ cur rest done' todo' tail', todo = cur :: rest ∧ cur.taskId = -1 ∧
      Placed q done' todo' tail' ∧ done'.map PbsTask.body = (done ++ [cur]).map PbsTask.body ∧
      todo'.map PbsTask.frame = rest.map PbsTask.frame := by
  rcases skipFreeSlot_eq_ok hv.toLayout hq with hsame | ⟨cur, rest, first, rfl, hfree, _, hq⟩
  · exact .inl hsame
  · right
    have hvp := hv.passed
    by_cases hr : -first.instructionsPlanned < 0
    · rw [updateRetiredInstructions_neg hr] at hq
      obtain rfl := Except.ok.inj hq
      exact ⟨cur, rest, _, _, startTail rest tail, rfl, hfree, hvp.of_same rfl rfl rfl rfl, rfl,
        map_startHead PbsTask.frame (fun _ => rfl) rest⟩
    · obtain ⟨c, more, heq⟩ := hvp.retire_todo (Int.not_lt.1 hr) hq
      rw [heq] at hvp
      obtain ⟨done', rest', tail', hv', hd, hrest, _⟩ := hvp.credit (Int.not_lt.1 hr) hq
      refine ⟨cur, rest, done', _, tail', rfl, hfree, hv', hd, ?_⟩
      rw [List.map_cons, frame_credited, map_frame_of_body hrest, ← List.map_cons, ← heq,
        map_startHead PbsTask.frame fun _ => rfl]

end Operations

/-! ## What the parser settled -/

section Header

variable {p q : PbsPlan} {b : Build} {r : Int} {s s₂ s' t : System} {pmu : Nat → Int} {k : Nat}

theorem header_of_settings (h : q.settings = p.settings) : q.header = p.header := by
  obtain ⟨h₁, h₂, h₃, _⟩ := Settings.mk.inj h
  rw [PbsPlan.header, PbsPlan.header, h₁, h₂, h₃]

theorem header_signalled (hs : Signalled b s s₂) : s₂.plan.header = s.plan.header := by
  rcases hs with rfl | hs
  · rfl
  · obtain ⟨h₁, h₂, h₃, _⟩ := Settings.mk.inj (settings_signal hs)
    exact Prod.ext h₁ (Prod.ext h₂ h₃)

theorem header_tick (htick : pbsRunTimerTick b r s = .ok s') : s'.plan.header = s.plan.header := by
  cases tick_cases htick with
  | ended cur hcur hend hs => rw [hs]
  | finished p₁ cur s₂ p₃ p₄ hlive hcredit hcur hstate hsignal hbook hskip hs =>
      obtain ⟨p₂, hp₂, hadv⟩ := bind_eq_ok.1 hbook
      calc
        s'.plan.header = p₄.header := by rw [hs]; rfl
        _ = p₂.header := header_of_settings ((keepsSettings_skipFreeSlot _ _ hskip).trans
              (keepsSettings_advanceCurTask _ _ hadv))
        _ = s₂.plan.header := by
              obtain ⟨h₁, h₂, h₃, _⟩ := Settings.mk.inj (settings_bookFinishedTask hp₂)
              exact Prod.ext h₁ (Prod.ext h₂ h₃)
        _ = p₁.header := header_signalled (signalIfTm2_eq_ok hsignal)
        _ = s.plan.header :=
              header_of_settings (keepsSettings_updateRetiredInstructions _ _ _ hcredit)
  | preempted p₁ cur s₂ p₃ p₄ hlive hcredit hcur hstate hsignal ht1 hpreempt hskip hs =>
      calc
        s'.plan.header = p₄.header := by rw [hs]; rfl
        _ = s₂.plan.header := header_of_settings ((keepsSettings_skipFreeSlot _ _ hskip).trans
              (keepsSettings_preemptCurTask _ _ hpreempt))
        _ = p₁.header := header_signalled (signalIfT2_eq_ok hsignal)
        _ = s.plan.header :=
              header_of_settings (keepsSettings_updateRetiredInstructions _ _ _ hcredit)
  | waited p₁ cur s₂ hlive hcredit hcur hstate hsignal ht1 hs =>
      calc
        s'.plan.header = s₂.plan.header := by rw [hs, relieveStress_eq]; rfl
        _ = p₁.header := header_signalled (signalIfT2_eq_ok hsignal)
        _ = s.plan.header :=
              header_of_settings (keepsSettings_updateRetiredInstructions _ _ _ hcredit)

theorem header_run (ht : runTicks b pmu s k = .ok t) : t.plan.header = s.plan.header :=
  run_invariant (I := fun t => t.plan.header = s.plan.header) rfl
    (fun _ _ _ _ _ hI hstep => (header_tick hstep).trans hI) ht

end Header

/-! ## A tick -/

/-- How the tick from `s` comes to the check for a free slot in `p`: after the credit and the
signal `cur` is current, with `done` in front and `rest` and `tail` behind it. -/
inductive Course (b : Build) (r : Int) (s : System) (p : PbsPlan) (done : List PbsTask)
    (cur : PbsTask) (rest tail : List PbsTask) : Prop
  | finished (tail' : List PbsTask) (hstate : cur.state = .finished)
      (hpoint : preemptionPoint b r s = .ok none)
      (hv : Placed p (done ++ [cur]) (rest.modifyHead start) tail')
  | rotated (p₂ : PbsPlan) (blk : List PbsTask) (n : PbsTask) (ns : List PbsTask) (f : PbsTask)
      (post : List PbsTask) (hstate : cur.state ≠ .finished) (hcut : Cut cur rest blk n ns f post)
      (hpoint : preemptionPoint b r s = .ok (some p₂)) (hv₂ : Placed p₂ done (cur :: rest) tail)
      (hv : Placed p done (changeTaskState n .running :: ns ++
        ((bump cur :: blk).map (hosted f.taskId) ++ f :: post)) tail)
  | gaveUp (p₂ : PbsPlan) (done' rest' tail' : List PbsTask) (hstate : cur.state ≠ .finished)
      (hnone : NoSlot cur rest) (hpoint : preemptionPoint b r s = .ok (some p₂))
      (hv₂ : Placed p₂ done (cur :: rest) tail)
      (hv : Placed p done' (credited (cur.instructionsReal - cur.instructionsRetiredTask)
        (bump cur) :: rest') tail')
      (hdone : done'.map PbsTask.body = done.map PbsTask.body)
      (hrest : rest'.map PbsTask.body = rest.map PbsTask.body)

/-- `todo` is ahead when the tick from `s` has made its credit and raised its signal. -/
inductive AheadOnceSignalled (b : Build) (r : Int) (s : System) (todo : List PbsTask) : Prop
  | finished (p : PbsPlan) (c : PbsTask) (s₂ : System)
      (hcredit : updateRetiredInstructions r s.plan = .ok p) (hcur : p.readCurTask = .ok c)
      (hstate : c.state = .finished) (hsignal : signalIfTm2 b { s with plan := p } = .ok s₂)
      (htodo : s₂.plan.todoTasks = todo)
  | running (p : PbsPlan) (c : PbsTask) (s₂ : System)
      (hcredit : updateRetiredInstructions r s.plan = .ok p) (hcur : p.readCurTask = .ok c)
      (hstate : c.state ≠ .finished) (hsignal : signalIfT2 b { s with plan := p } = .ok s₂)
      (htodo : s₂.plan.todoTasks = todo)

section Tick

variable {p : PbsPlan} {done rest tail : List PbsTask} {cur : PbsTask} {r : Int} {b : Build}
  {s s₂ s' : System}

theorem Placed.course (hv : Placed s.plan done (cur :: rest) tail) (hr : 0 ≤ r)
    (hslot : freeSlotPoint b r s = .ok (some p)) :
    ∃ done₂ cur₂ rest₂ tail₂, cur₂.core = (credited r cur).core ∧
      done₂.map PbsTask.core = done.map PbsTask.core ∧
      rest₂.map PbsTask.core = rest.map PbsTask.core ∧
      AheadOnceSignalled b r s (cur₂ :: rest₂) ∧ Course b r s p done₂ cur₂ rest₂ tail₂ := by
  rcases freeSlotPoint_eq_ok hslot with
    ⟨p₂, hpoint, hpreempt⟩ | ⟨p₁, c, s₂, hcredit, hc, hstate, hsignal, hbook⟩
  · obtain ⟨_, p₁, c, s₂, _, _, hcredit, hc, hstate, hsignal, rfl⟩ := preemptionPoint_eq_ok hpoint
    obtain ⟨hread, done₂, cur₂, rest₂, tail₂, hv₂, hcur₂, hdone₂, hrest₂⟩ :=
      hv.front hr hcredit (signalIfT2_eq_ok hsignal)
    obtain rfl := Except.ok.inj (hc.symm.trans hread)
    refine ⟨done₂, cur₂, rest₂, tail₂, hcur₂, hdone₂, hrest₂,
      .running p₁ _ s₂ hcredit hc hstate hsignal hv₂.toLayout.todoTasks_eq, ?_⟩
    have hstate₂ : cur₂.state ≠ .finished := (state_of_core hcur₂).trans_ne hstate
    rcases preemptCurTask_eq_ok hv₂.toLayout hpreempt with
      ⟨blk, n, ns, f, post, hcut, _, rfl⟩ | ⟨hnone, q₁, hq₁, rfl⟩
    · exact .rotated s₂.plan blk n ns f post hstate₂ hcut hpoint hv₂ (hv₂.rotated hcut)
    · have hleft : 0 ≤ cur₂.instructionsReal - cur₂.instructionsRetiredTask := by
        have hcredited := credited_state hstate
        rw [← real_of_core hcur₂, ← retiredTask_of_core hcur₂] at hcredited
        omega
      obtain ⟨done₃, rest₃, tail₃, hv₃, hdone₃, hrest₃, _⟩ := hv₂.bumped.credit hleft hq₁
      exact .gaveUp s₂.plan done₃ rest₃ tail₃ hstate₂ hnone hpoint hv₂
        (hv₃.of_same rfl rfl rfl rfl) hdone₃ hrest₃
  · obtain ⟨hread, done₂, cur₂, rest₂, tail₂, hv₂, hcur₂, hdone₂, hrest₂⟩ :=
      hv.front hr hcredit (signalIfTm2_eq_ok hsignal)
    obtain rfl := Except.ok.inj (hc.symm.trans hread)
    refine ⟨done₂, cur₂, rest₂, tail₂, hcur₂, hdone₂, hrest₂,
      .finished p₁ _ s₂ hcredit hc hstate hsignal hv₂.toLayout.todoTasks_eq, ?_⟩
    obtain ⟨_, rfl⟩ := finishTask_eq_ok hv₂ hbook
    exact .finished (startTail rest₂ tail₂) ((state_of_core hcur₂).trans hstate)
      (preemptionPoint_finished hv.readCurTask (hv.live cur (by simp)).1 hcredit hc hstate)
      (hv₂.booked _).passed

theorem Placed.tick_ended (hv : Placed s.plan done [] tail)
    (htick : pbsRunTimerTick b r s = .ok s') : s' = s := by
  obtain ⟨cur, hcur, hend⟩ := hv.toLayout.ended
  cases PbsLevel2.tick_cases htick with
  | ended _ _ _ hs => exact hs
  | finished p₁ c s₂ p₃ p₄ hlive => exact absurd hend (hlive cur hcur)
  | preempted p₁ c s₂ p₃ p₄ hlive => exact absurd hend (hlive cur hcur)
  | waited p₁ c s₂ hlive => exact absurd hend (hlive cur hcur)

/-- A tick comes to the check for a free slot, or the current task goes on. -/
theorem Placed.tick_cases (hv : Placed s.plan done (cur :: rest) tail) (hr : 0 ≤ r)
    (htick : pbsRunTimerTick b r s = .ok s') :
    (∃ p q, freeSlotPoint b r s = .ok (some p) ∧ skipFreeSlot b p = .ok q ∧
      s'.plan = { q with tickCounter := q.tickCounter + 1 }) ∨
    freeSlotPoint b r s = .ok none ∧ preemptionPoint b r s = .ok none ∧
      ∃ done₂ cur₂ rest₂ tail₂, Placed s'.plan done₂ (cur₂ :: rest₂) tail₂ ∧
        cur₂.state ≠ .finished ∧ cur₂.core = (credited r cur).core ∧
        done₂.map PbsTask.core = done.map PbsTask.core ∧
        rest₂.map PbsTask.core = rest.map PbsTask.core ∧
        AheadOnceSignalled b r s (cur₂ :: rest₂) := by
  have hc₀ := hv.readCurTask
  have hlive := (hv.live cur (by simp)).1
  cases PbsLevel2.tick_cases htick with
  | ended c hc hend hs =>
      obtain rfl := Except.ok.inj (hc₀.symm.trans hc)
      exact absurd hend hlive
  | finished p₁ c s₂ p₃ p₄ _ hcredit hc hstate hsignal hbook hskip hs =>
      exact .inl ⟨p₃, p₄, freeSlotPoint_finished hc₀ hlive hcredit hc hstate hsignal hbook, hskip,
        by rw [hs]⟩
  | preempted p₁ c s₂ p₃ p₄ _ hcredit hc hstate hsignal ht1 hpreempt hskip hs =>
      have hpoint := preemptionPoint_eq hc₀ hlive hcredit hc hstate hsignal ht1
      exact .inl ⟨p₃, p₄, freeSlotPoint_preempted hpoint hpreempt, hskip, by rw [hs]⟩
  | waited p₁ c s₂ _ hcredit hc hstate hsignal ht1 hs =>
      obtain ⟨hread, done₂, cur₂, rest₂, tail₂, hv₂, hcur₂, hdone₂, hrest₂⟩ :=
        hv.front hr hcredit (signalIfT2_eq_ok hsignal)
      obtain rfl := Except.ok.inj (hc.symm.trans hread)
      refine .inr ⟨freeSlotPoint_waited hc₀ hlive hcredit hc hstate hsignal ht1,
        preemptionPoint_waited hc₀ hlive hcredit hc hstate hsignal ht1, done₂, cur₂, rest₂, tail₂,
        ?_, (state_of_core hcur₂).trans_ne hstate, hcur₂, hdone₂, hrest₂,
        .running p₁ _ s₂ hcredit hc hstate hsignal hv₂.toLayout.todoTasks_eq⟩
      rw [hs, relieveStress_eq]
      exact hv₂.of_same rfl rfl rfl rfl

end Tick

end PbsLevel2
