import PbsLevel2.Proofs.Passing

/-!
# The ways through a tick

`tick_cases` says once what `pbs_run_timer_tick` can do; the invariants are derived from
it.  The two points at which a tick can go wrong are given as functions of the state
before the tick.
-/

namespace PbsLevel2

open Lib

/-! ## Inversion of a tick -/

/-- The signalling half of `schedule_task_finished`. -/
def signalIfTm2 (b : Build) (s : System) : Exec System := do
  if ← raisesTm2 b s.plan then signalTm2 b s else return s

inductive TickCase (b : Build) (r : Int) (s s' : System) : Prop
  | ended (cur : PbsTask) (hcur : s.plan.readCurTask = .ok cur) (hend : cur.taskId = -2)
      (hs : s' = s)
  | finished (p₁ : PbsPlan) (cur : PbsTask) (s₂ : System) (p₃ p₄ : PbsPlan)
      (hlive : ∀ c, s.plan.readCurTask = .ok c → c.taskId ≠ -2)
      (hcredit : updateRetiredInstructions r s.plan = .ok p₁)
      (hcur : p₁.readCurTask = .ok cur) (hstate : cur.state = .finished)
      (hsignal : signalIfTm2 b { s with plan := p₁ } = .ok s₂)
      (hbook : (bookFinishedTask (cur.instructionsRetiredSlot - cur.instructionsReal) s₂.plan >>=
        advanceCurTask) = .ok p₃)
      (hskip : skipFreeSlot b p₃ = .ok p₄)
      (hs : s' = ⟨{ p₄ with tickCounter := p₄.tickCounter + 1 }, s₂.signals⟩)
  | preempted (p₁ : PbsPlan) (cur : PbsTask) (s₂ : System) (p₃ p₄ : PbsPlan)
      (hlive : ∀ c, s.plan.readCurTask = .ok c → c.taskId ≠ -2)
      (hcredit : updateRetiredInstructions r s.plan = .ok p₁)
      (hcur : p₁.readCurTask = .ok cur) (hstate : cur.state ≠ .finished)
      (hsignal : signalIfT2 b { s with plan := p₁ } = .ok s₂)
      (ht1 : ∃ c, checkT1 s₂.plan = .ok c ∧ c.transgressed = true)
      (hpreempt : preemptCurTask b s₂.plan = .ok p₃)
      (hskip : skipFreeSlot b p₃ = .ok p₄)
      (hs : s' = ⟨{ p₄ with tickCounter := p₄.tickCounter + 1 }, s₂.signals⟩)
  | waited (p₁ : PbsPlan) (cur : PbsTask) (s₂ : System)
      (hlive : ∀ c, s.plan.readCurTask = .ok c → c.taskId ≠ -2)
      (hcredit : updateRetiredInstructions r s.plan = .ok p₁)
      (hcur : p₁.readCurTask = .ok cur) (hstate : cur.state ≠ .finished)
      (hsignal : signalIfT2 b { s with plan := p₁ } = .ok s₂)
      (ht1 : ∃ c, checkT1 s₂.plan = .ok c ∧ c.transgressed = false)
      (hs : s' = ⟨{ relieveStress s₂.plan with
        tickCounter := s₂.plan.tickCounter + 1 }, s₂.signals⟩)

theorem scheduleTaskFinished_eq_ok {b : Build} {s s' : System} {cur : PbsTask}
    (hcur : s.plan.readCurTask = .ok cur) (h : scheduleTaskFinished b s = .ok s') :
    ∃ s₂ p₂ p₃, signalIfTm2 b s = .ok s₂ ∧
      bookFinishedTask (cur.instructionsRetiredSlot - cur.instructionsReal) s₂.plan = .ok p₂ ∧
      advanceCurTask p₂ = .ok p₃ ∧ skipFreeSlot b p₃ = .ok s'.plan ∧ s'.signals = s₂.signals := by
  rw [scheduleTaskFinished, hcur, ok_bind] at h
  dsimp only at h
  obtain ⟨raised, hraised, h⟩ := bind_eq_ok.1 h
  have hfinish : ∀ s₂ : System, (do
      let p ← bookFinishedTask (cur.instructionsRetiredSlot - cur.instructionsReal) s₂.plan
      let p ← switchTask b p
      return { s₂ with plan := p }) = .ok s' →
      ∃ p₂ p₃, bookFinishedTask (cur.instructionsRetiredSlot - cur.instructionsReal) s₂.plan =
        .ok p₂ ∧ advanceCurTask p₂ = .ok p₃ ∧ skipFreeSlot b p₃ = .ok s'.plan ∧
        s'.signals = s₂.signals := by
    intro s₂ h
    obtain ⟨p₂, hbook, h⟩ := bind_eq_ok.1 h
    obtain ⟨p₄, hswitch, h⟩ := bind_eq_ok.1 h
    obtain ⟨_, _, hswitch⟩ := bind_eq_ok.1 hswitch
    obtain ⟨_, _, hswitch⟩ := bind_eq_ok.1 hswitch
    obtain ⟨p₃, hadv, hskip⟩ := bind_eq_ok.1 hswitch
    cases h
    exact ⟨p₂, p₃, hbook, hadv, hskip, rfl⟩
  rw [signalIfTm2, hraised, ok_bind]
  cases raised with
  | true =>
      obtain ⟨s₂, hsignal, h⟩ := bind_eq_ok.1 h
      obtain ⟨p₂, p₃, h⟩ := hfinish s₂ h
      exact ⟨s₂, p₂, p₃, hsignal, h⟩
  | false =>
      obtain ⟨p₂, p₃, h⟩ := hfinish s h
      exact ⟨s, p₂, p₃, rfl, h⟩

theorem tick_cases {b : Build} {r : Int} {s s' : System} (h : pbsRunTimerTick b r s = .ok s') :
    TickCase b r s s' := by
  obtain ⟨_, _, h⟩ := bind_eq_ok.1 h
  obtain ⟨c, hc, h⟩ := bind_eq_ok.1 h
  by_cases hend : c.taskId = -2
  · rw [if_pos hend] at h
    exact .ended c hc hend (Except.ok.inj h).symm
  · rw [if_neg hend] at h
    have hlive : ∀ c, s.plan.readCurTask = .ok c → c.taskId ≠ -2 := by
      intro c' hc'
      rw [hc] at hc'
      cases hc'
      exact hend
    obtain ⟨p₁, hcredit, h⟩ := bind_eq_ok.1 h
    obtain ⟨cur, hcur, h⟩ := bind_eq_ok.1 h
    dsimp only at h
    by_cases hstate : cur.state = .finished
    · rw [if_pos hstate] at h
      obtain ⟨s₄, hsched, h⟩ := bind_eq_ok.1 h
      obtain ⟨s₂, p₂, p₃, hsignal, hbook, hadv, hskip⟩ := scheduleTaskFinished_eq_ok hcur hsched
      cases h
      exact .finished p₁ cur s₂ p₃ s₄.plan hlive hcredit hcur hstate hsignal
        (by rw [hbook, ok_bind, hadv]) hskip.1 (by rw [hskip.2])
    · rw [if_neg hstate] at h
      obtain ⟨s₄, hsched, h⟩ := bind_eq_ok.1 h
      cases h
      obtain ⟨s₂, hsignal, hsched⟩ := bind_eq_ok.1 hsched
      obtain ⟨c, ht1, hsched⟩ := bind_eq_ok.1 hsched
      split at hsched <;> rename_i hc
      · obtain ⟨p₃, hpreempt, hsched⟩ := bind_eq_ok.1 hsched
        obtain ⟨p₄, hskip, hsched⟩ := bind_eq_ok.1 hsched
        cases hsched
        exact .preempted p₁ cur s₂ p₃ p₄ hlive hcredit hcur hstate hsignal ⟨c, ht1, hc⟩ hpreempt
          hskip rfl
      · cases hsched
        refine .waited p₁ cur s₂ hlive hcredit hcur hstate hsignal ⟨c, ht1, by simpa using hc⟩ ?_
        rw [relieveStress_eq]

/-! ## Evaluation of a tick -/

section Evaluation

variable {b : Build} {r : Int} {s s₂ : System} {p₁ p₂ p₃ p₄ : PbsPlan} {c₀ cur : PbsTask}

theorem tick_of_ended (hnum : s.plan.numTasks < 400) (hcur : s.plan.readCurTask = .ok cur)
    (hend : cur.taskId = -2) : pbsRunTimerTick b r s = .ok s := by
  rw [pbsRunTimerTick, assertThat_true _ _ (by simpa using hnum), ok_bind, hcur, ok_bind,
    if_pos hend]
  rfl

theorem tick_of_live (hnum : s.plan.numTasks < 400) (hc₀ : s.plan.readCurTask = .ok c₀)
    (hlive : c₀.taskId ≠ -2) (hcredit : updateRetiredInstructions r s.plan = .ok p₁)
    (hcur : p₁.readCurTask = .ok cur) : pbsRunTimerTick b r s =
      ((if cur.state = .finished then scheduleTaskFinished b { s with plan := p₁ }
        else scheduleTimerTick b { s with plan := p₁ }) >>= fun s' =>
        .ok { s' with plan := { s'.plan with tickCounter := s'.plan.tickCounter + 1 } }) := by
  rw [pbsRunTimerTick, assertThat_true _ _ (by simpa using hnum), ok_bind, hc₀, ok_bind,
    if_neg hlive, hcredit, ok_bind]
  dsimp only
  rw [hcur, ok_bind]
  split <;> rfl

theorem scheduleTaskFinished_of (hcur : s.plan.readCurTask = .ok cur)
    (hsignal : signalIfTm2 b s = .ok s₂)
    (hbook : bookFinishedTask (cur.instructionsRetiredSlot - cur.instructionsReal) s₂.plan =
      .ok p₂)
    (hread : p₂.readCurTask = .ok c₀) (hstate : c₀.state = .finished)
    (hadv : advanceCurTask p₂ = .ok p₃) (hskip : skipFreeSlot b p₃ = .ok p₄) :
    scheduleTaskFinished b s = .ok { s₂ with plan := p₄ } := by
  have hswitch : switchTask b p₂ = .ok p₄ := by
    rw [switchTask, hread, ok_bind, assertThat_true _ _ (by simpa using hstate), ok_bind, hadv,
      ok_bind, hskip]
  obtain ⟨raised, hraised, hsignal⟩ := bind_eq_ok.1 hsignal
  rw [scheduleTaskFinished, hcur, ok_bind, hraised, ok_bind]
  cases raised with
  | true =>
      change (signalTm2 b s >>= _) = _
      rw [show signalTm2 b s = .ok s₂ from hsignal, ok_bind]
      dsimp only
      rw [hbook, ok_bind, hswitch]
      rfl
  | false =>
      obtain rfl : s = s₂ := Except.ok.inj hsignal
      change (bookFinishedTask _ _ >>= _) = _
      rw [hbook, ok_bind, hswitch]
      rfl

theorem scheduleTimerTick_of {c : Check} (hsignal : signalIfT2 b s = .ok s₂)
    (ht1 : checkT1 s₂.plan = .ok c) : scheduleTimerTick b s =
      if c.transgressed then (do
        let p ← preemptCurTask b s₂.plan
        let p ← skipFreeSlot b p
        return { s₂ with plan := p })
      else .ok { s₂ with plan := relieveStress s₂.plan } := by
  rw [scheduleTimerTick, hsignal, ok_bind, ht1, ok_bind]
  split <;> rfl

end Evaluation

/-! ## The points at which a tick can go wrong -/

/-- The plan a tick hands to `preempt_cur_task`, if it calls it. -/
def preemptionPoint (b : Build) (r : Int) (s : System) : Exec (Option PbsPlan) := do
  let cur ← s.plan.readCurTask
  if cur.taskId = -2 then return none
  else
    let p ← updateRetiredInstructions r s.plan
    let cur ← p.readCurTask
    if cur.state = .finished then return none
    else
      let s ← signalIfT2 b { s with plan := p }
      if (← checkT1 s.plan).transgressed then return some s.plan else return none

/-- The plan a tick hands to the check for a free slot, if it makes one. -/
def freeSlotPoint (b : Build) (r : Int) (s : System) : Exec (Option PbsPlan) := do
  match ← preemptionPoint b r s with
  | some p => return some (← preemptCurTask b p)
  | none =>
      let p ← updateRetiredInstructions r s.plan
      let cur ← p.readCurTask
      if cur.state = .finished then
        let s ← signalIfTm2 b { s with plan := p }
        let p ← bookFinishedTask (cur.instructionsRetiredSlot - cur.instructionsReal) s.plan
        return some (← advanceCurTask p)
      else return none

section Points

variable {b : Build} {r : Int} {s s₂ s' : System} {p₁ p₃ : PbsPlan} {cur : PbsTask}

theorem preemptionPoint_eq {c₀ : PbsTask} (hc₀ : s.plan.readCurTask = .ok c₀)
    (hlive : c₀.taskId ≠ -2) (hcredit : updateRetiredInstructions r s.plan = .ok p₁)
    (hcur : p₁.readCurTask = .ok cur) (hstate : cur.state ≠ .finished)
    (hsignal : signalIfT2 b { s with plan := p₁ } = .ok s₂)
    (ht1 : ∃ c, checkT1 s₂.plan = .ok c ∧ c.transgressed = true) :
    preemptionPoint b r s = .ok (some s₂.plan) := by
  obtain ⟨c, hc, htrans⟩ := ht1
  rw [preemptionPoint, hc₀, ok_bind, if_neg hlive, hcredit, ok_bind, hcur, ok_bind, if_neg hstate,
    hsignal, ok_bind, hc, ok_bind, if_pos htrans]
  rfl

theorem preemptionPoint_ended (hcur : s.plan.readCurTask = .ok cur) (hend : cur.taskId = -2) :
    preemptionPoint b r s = .ok none := by
  rw [preemptionPoint, hcur, ok_bind, if_pos hend]
  rfl

theorem preemptionPoint_finished {c₀ : PbsTask} (hc₀ : s.plan.readCurTask = .ok c₀)
    (hlive : c₀.taskId ≠ -2) (hcredit : updateRetiredInstructions r s.plan = .ok p₁)
    (hcur : p₁.readCurTask = .ok cur) (hstate : cur.state = .finished) :
    preemptionPoint b r s = .ok none := by
  rw [preemptionPoint, hc₀, ok_bind, if_neg hlive, hcredit, ok_bind, hcur, ok_bind, if_pos hstate]
  rfl

theorem preemptionPoint_waited {c₀ : PbsTask} (hc₀ : s.plan.readCurTask = .ok c₀)
    (hlive : c₀.taskId ≠ -2) (hcredit : updateRetiredInstructions r s.plan = .ok p₁)
    (hcur : p₁.readCurTask = .ok cur) (hstate : cur.state ≠ .finished)
    (hsignal : signalIfT2 b { s with plan := p₁ } = .ok s₂)
    (ht1 : ∃ c, checkT1 s₂.plan = .ok c ∧ c.transgressed = false) :
    preemptionPoint b r s = .ok none := by
  obtain ⟨c, hc, htrans⟩ := ht1
  rw [preemptionPoint, hc₀, ok_bind, if_neg hlive, hcredit, ok_bind, hcur, ok_bind, if_neg hstate,
    hsignal, ok_bind, hc, ok_bind, if_neg (by simp [htrans])]
  rfl

theorem freeSlotPoint_preempted (hpoint : preemptionPoint b r s = .ok (some s₂.plan))
    (hpreempt : preemptCurTask b s₂.plan = .ok p₃) : freeSlotPoint b r s = .ok (some p₃) := by
  rw [freeSlotPoint, hpoint, ok_bind]
  dsimp only
  rw [hpreempt]
  rfl

theorem freeSlotPoint_finished {c₀ : PbsTask} (hc₀ : s.plan.readCurTask = .ok c₀)
    (hlive : c₀.taskId ≠ -2) (hcredit : updateRetiredInstructions r s.plan = .ok p₁)
    (hcur : p₁.readCurTask = .ok cur) (hstate : cur.state = .finished)
    (hsignal : signalIfTm2 b { s with plan := p₁ } = .ok s₂)
    (hbook : (bookFinishedTask (cur.instructionsRetiredSlot - cur.instructionsReal) s₂.plan >>=
      advanceCurTask) = .ok p₃) : freeSlotPoint b r s = .ok (some p₃) := by
  rw [freeSlotPoint, preemptionPoint_finished hc₀ hlive hcredit hcur hstate, ok_bind]
  dsimp only
  rw [hcredit, ok_bind, hcur, ok_bind, if_pos hstate, hsignal, ok_bind]
  obtain ⟨p₂, hp₂, hadv⟩ := bind_eq_ok.1 hbook
  rw [hp₂, ok_bind, hadv]
  rfl

theorem freeSlotPoint_waited {c₀ : PbsTask} (hc₀ : s.plan.readCurTask = .ok c₀)
    (hlive : c₀.taskId ≠ -2) (hcredit : updateRetiredInstructions r s.plan = .ok p₁)
    (hcur : p₁.readCurTask = .ok cur) (hstate : cur.state ≠ .finished)
    (hsignal : signalIfT2 b { s with plan := p₁ } = .ok s₂)
    (ht1 : ∃ c, checkT1 s₂.plan = .ok c ∧ c.transgressed = false) :
    freeSlotPoint b r s = .ok none := by
  rw [freeSlotPoint, preemptionPoint_waited hc₀ hlive hcredit hcur hstate hsignal ht1, ok_bind]
  dsimp only
  rw [hcredit, ok_bind, hcur, ok_bind, if_neg hstate]
  rfl

theorem preemptionPoint_eq_ok {p : PbsPlan} (h : preemptionPoint b r s = .ok (some p)) :
    ∃ c₀ p₁ cur s₂, s.plan.readCurTask = .ok c₀ ∧ c₀.taskId ≠ -2 ∧
      updateRetiredInstructions r s.plan = .ok p₁ ∧ p₁.readCurTask = .ok cur ∧
      cur.state ≠ .finished ∧ signalIfT2 b { s with plan := p₁ } = .ok s₂ ∧ p = s₂.plan := by
  obtain ⟨c₀, hc₀, h⟩ := bind_eq_ok.1 h
  split at h <;> rename_i hend
  · cases h
  · obtain ⟨p₁, hcredit, h⟩ := bind_eq_ok.1 h
    obtain ⟨cur, hcur, h⟩ := bind_eq_ok.1 h
    split at h <;> rename_i hstate
    · cases h
    · obtain ⟨s₂, hsignal, h⟩ := bind_eq_ok.1 h
      obtain ⟨c, _, h⟩ := bind_eq_ok.1 h
      split at h
      · cases h
        exact ⟨c₀, p₁, cur, s₂, hc₀, hend, hcredit, hcur, hstate, hsignal, rfl⟩
      · cases h

theorem preempts_of_tick {p : PbsPlan} (hpoint : preemptionPoint b r s = .ok (some p))
    (htick : pbsRunTimerTick b r s = .ok s') : ∃ q, preemptCurTask b p = .ok q := by
  obtain ⟨c₀, _, _, _, hc₀, hlive, _⟩ := preemptionPoint_eq_ok hpoint
  cases tick_cases htick with
  | ended cur hcur hend =>
      rw [preemptionPoint_ended hcur hend] at hpoint
      cases hpoint
  | finished p₁ cur s₂ p₃ p₄ _ hcredit hcur hstate =>
      rw [preemptionPoint_finished hc₀ hlive hcredit hcur hstate] at hpoint
      cases hpoint
  | preempted p₁ cur s₂ p₃ p₄ _ hcredit hcur hstate hsignal ht1 hpreempt =>
      rw [preemptionPoint_eq hc₀ hlive hcredit hcur hstate hsignal ht1] at hpoint
      cases hpoint
      exact ⟨p₃, hpreempt⟩
  | waited p₁ cur s₂ _ hcredit hcur hstate hsignal ht1 =>
      rw [preemptionPoint_waited hc₀ hlive hcredit hcur hstate hsignal ht1] at hpoint
      cases hpoint

theorem freeSlotPoint_eq_ok {p : PbsPlan} (h : freeSlotPoint b r s = .ok (some p)) :
    (∃ p₂, preemptionPoint b r s = .ok (some p₂) ∧ preemptCurTask b p₂ = .ok p) ∨
    ∃ p₁ cur s₂, updateRetiredInstructions r s.plan = .ok p₁ ∧ p₁.readCurTask = .ok cur ∧
      cur.state = .finished ∧ signalIfTm2 b { s with plan := p₁ } = .ok s₂ ∧
      (bookFinishedTask (cur.instructionsRetiredSlot - cur.instructionsReal) s₂.plan >>=
        advanceCurTask) = .ok p := by
  obtain ⟨point, hpoint, h⟩ := bind_eq_ok.1 h
  cases point with
  | some p₂ =>
      left
      obtain ⟨p₃, hp₃, h⟩ := bind_eq_ok.1 h
      cases h
      exact ⟨p₂, hpoint, hp₃⟩
  | none =>
      right
      obtain ⟨p₁, hcredit, h⟩ := bind_eq_ok.1 h
      obtain ⟨cur, hcur, h⟩ := bind_eq_ok.1 h
      split at h <;> rename_i hstate
      · obtain ⟨s₂, hsignal, h⟩ := bind_eq_ok.1 h
        obtain ⟨p₂, hbook, h⟩ := bind_eq_ok.1 h
        obtain ⟨p₃, hadv, h⟩ := bind_eq_ok.1 h
        cases h
        exact ⟨p₁, cur, s₂, hcredit, hcur, hstate, hsignal, by rw [hbook, ok_bind, hadv]⟩
      · cases h

end Points

end PbsLevel2
