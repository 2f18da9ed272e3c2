import PbsLevel2.Proofs.Order
import PbsLevel2.Proofs.Twins

/-!
# Runs side by side

Ticks take two states that agree in everything the scheduler reads to two such states, or
end in the same fault.
-/

namespace PbsLevel2

open Lib

/-! ## The tick -/

section Tick

variable {p q : PbsPlan} {s t : System} {b : Build} {a : Agenda Job} {cur : PbsTask} {r : Int}

theorem busy_of_at {K : PbsPlan → Prop} (h : At K a p) (hh : HeadReal p)
    (hcur : p.readCurTask = .ok cur) (hlive : cur.taskId ≠ -2) : Busy p := by
  obtain ⟨done, todo, tail, hv, _⟩ := h
  have hreal := hh cur hcur
  refine ⟨cur, hcur, hlive, hreal, ?_⟩
  rw [hv.process cur hcur, processOf, if_pos hreal]

theorem Twins.switchTask_agrees {live : List PbsTask} (h : Twins live p q) (hb : Busy p)
    (hvalid : ∀ p', advanceCurTask p = .ok p' → ∃ done todo tail, Valid p' done todo tail) :
    Agrees FaultsAlike Alike (switchTask b p) (switchTask b q) := by
  refine Agrees.bind_of_eq FaultsAlike.refl (h.reads hb).1.symm fun cur _ => ?_
  refine Agrees.bind_of_eq FaultsAlike.refl rfl fun _ _ => ?_
  refine (h.advanceCurTask_agrees hb).bind ?_
  rintro p' q' hp' - ⟨live', h'⟩
  obtain ⟨done, todo, tail, hv⟩ := hvalid p' hp'
  exact h'.skipFreeSlot_agrees hv

theorem finishTask_agrees {s₂ t₂ : System} (h : SystemsAlike s₂ t₂)
    (hat : At (fun _ => True) a s.plan) (hh : HeadReal s.plan) (hs : Signalled b s s₂)
    (hcur : s.plan.readCurTask = .ok cur) (hlive : cur.taskId ≠ -2) :
    Agrees FaultsAlike SystemsAlike
      (do
        let p ← bookFinishedTask (cur.instructionsRetiredSlot - cur.instructionsReal) s₂.plan
        let p ← switchTask b p
        return { s₂ with plan := p })
      (do
        let p ← bookFinishedTask (cur.instructionsRetiredSlot - cur.instructionsReal) t₂.plan
        let p ← switchTask b p
        return { t₂ with plan := p }) := by
  obtain ⟨live, hl⟩ := h.plan
  obtain ⟨hat₂, hh₂, hcur₂⟩ := kept_true.signalAt hat hs
  obtain ⟨planned, hread⟩ := hcur₂ cur hcur
  have hb := busy_of_at hat₂ (hh₂ hh) hread hlive
  refine (hl.bookFinishedTask_agrees hb _).bind ?_
  rintro p₂ q₂ hp₂ - ⟨live₂, h₂⟩
  refine (h₂.switchTask_agrees (hb.bookFinishedTask hp₂) fun p₃ hp₃ => ?_).bind ?_
  · obtain ⟨_, ⟨done, todo, tail, hv, _⟩, _⟩ := kept_true.finishAt (fun _ _ => True) hat₂ (hh₂ hh)
      hread hlive trivial (by rw [hp₂, ok_bind, hp₃])
    exact ⟨done, todo, tail, hv⟩
  · rintro p₄ q₄ - - h₄
    exact .ok ⟨h₄, h.signals⟩

theorem scheduleTaskFinished_agrees (h : SystemsAlike s t) (hat : At (fun _ => True) a s.plan)
    (hh : HeadReal s.plan) (hcur : s.plan.readCurTask = .ok cur) (hlive : cur.taskId ≠ -2) :
    Agrees FaultsAlike SystemsAlike (scheduleTaskFinished b s) (scheduleTaskFinished b t) := by
  obtain ⟨live, hl⟩ := h.plan
  have hb := busy_of_at hat hh hcur hlive
  have hcur' : t.plan.readCurTask = .ok cur := (hl.reads hb).1.trans hcur
  rw [scheduleTaskFinished, scheduleTaskFinished, hcur, hcur', ok_bind, ok_bind]
  dsimp only
  refine Agrees.bind_of_eq FaultsAlike.refl (hl.raisesTm2_eq hb).symm fun raised _ => ?_
  cases raised with
  | true =>
      refine (signalTm2_agrees h hb).bind fun s₂ t₂ hs₂ _ h₂ => ?_
      exact finishTask_agrees h₂ hat hh (.inr (.inr hs₂)) hcur hlive
  | false => exact finishTask_agrees h hat hh (.inl rfl) hcur hlive

theorem scheduleTimerTick_agrees (h : SystemsAlike s t) (hat : At (fun _ => True) a s.plan)
    (hh : HeadReal s.plan) (hcur : s.plan.readCurTask = .ok cur) (hlive : cur.taskId ≠ -2)
    (hrun : cur.instructionsRetiredTask < cur.instructionsReal) :
    Agrees FaultsAlike SystemsAlike (scheduleTimerTick b s) (scheduleTimerTick b t) := by
  refine (signalIfT2_agrees h (busy_of_at hat hh hcur hlive)).bind ?_
  rintro s₂ t₂ hs₂ - h₂
  obtain ⟨hat₂, hh₂, hcur₂⟩ := kept_true.signalAt hat (signalIfT2_eq_ok hs₂)
  obtain ⟨planned, hcur₂⟩ := hcur₂ cur hcur
  have hb₂ := busy_of_at hat₂ (hh₂ hh) hcur₂ hlive
  obtain ⟨live₂, hl₂⟩ := h₂.plan
  refine Agrees.bind_of_eq FaultsAlike.refl (hl₂.checkT1_eq hb₂).symm fun check _ => ?_
  split
  · refine (hl₂.preemptCurTask_agrees hb₂).bind ?_
    rintro p₃ q₃ hp₃ - ⟨live₃, hl₃⟩
    obtain ⟨_, ⟨done, todo, tail, hv, _⟩, _⟩ := kept_true.preemptAt hat₂ (hh₂ hh) hcur₂ hlive hrun
      (allowedAt_any s₂.plan) hp₃
    refine (hl₃.skipFreeSlot_agrees hv).bind ?_
    rintro p₄ q₄ - - h₄
    exact .ok ⟨h₄, h₂.signals⟩
  · exact .ok ⟨⟨live₂, hl₂.relieved⟩, h₂.signals⟩

theorem SystemsAlike.tick (h : SystemsAlike s t) : SystemsAlike
    { s with plan := { s.plan with tickCounter := s.plan.tickCounter + 1 } }
    { t with plan := { t.plan with tickCounter := t.plan.tickCounter + 1 } } := by
  obtain ⟨live, hl⟩ := h.plan
  exact ⟨⟨live, { hl with fields := by rw [hl.fields] }⟩, h.signals⟩

theorem pbsRunTimerTick_agrees (h : SystemsAlike s t) (hat : At (fun _ => True) a s.plan)
    (hh : HeadReal s.plan) (hr : 0 ≤ r) :
    Agrees FaultsAlike SystemsAlike (pbsRunTimerTick b r s) (pbsRunTimerTick b r t) := by
  obtain ⟨live, hl⟩ := h.plan
  have hnum : t.plan.numTasks = s.plan.numTasks := by rw [hl.fields]
  obtain ⟨c, d, hc, hd, hid, _⟩ := hl.exists_cur
  rw [pbsRunTimerTick, pbsRunTimerTick, hnum, hc, hd]
  refine Agrees.bind_of_eq FaultsAlike.refl rfl fun _ _ => ?_
  rw [ok_bind, ok_bind, hid]
  by_cases hend : c.taskId = -2
  · rw [if_pos hend, if_pos hend]
    exact .ok h
  · rw [if_neg hend, if_neg hend]
    refine (hl.updateRetiredInstructions_agrees (busy_of_at hat hh hc hend)).bind ?_
    rintro p₁ q₁ hp₁ - ⟨live₁, hl₁⟩
    obtain ⟨hat₁, hh₁⟩ := kept_true.creditAt hat hh hr hp₁
    obtain ⟨c₀, hc₀, hcur, hlive⟩ := Kept.readCurTask_credit hat hr hp₁
    have hb₁ := busy_of_at hat₁ hh₁ hcur (by rwa [job_taskId (job_credited r c₀)])
    have h₁ : SystemsAlike { s with plan := p₁ } { t with plan := q₁ } := ⟨⟨live₁, hl₁⟩, h.signals⟩
    dsimp only
    refine Agrees.bind_of_eq FaultsAlike.refl (hl₁.reads hb₁).1.symm fun cur hcur' => ?_
    obtain rfl := Except.ok.inj (hcur'.symm.trans hcur)
    rw [← job_taskId (job_credited r c₀)] at hlive
    split
    · refine (scheduleTaskFinished_agrees h₁ hat₁ hh₁ hcur hlive).bind ?_
      exact fun _ _ _ _ h₂ => .ok h₂.tick
    · rename_i hstate
      refine (scheduleTimerTick_agrees h₁ hat₁ hh₁ hcur hlive (credited_state hstate)).bind ?_
      exact fun _ _ _ _ h₂ => .ok h₂.tick

end Tick

/-! ## Runs -/

/-- Two states of runs that no step tells apart. -/
structure Abreast (s t : System) : Prop extends SystemsAlike s t where
  valid : ∃ a, At (fun _ => True) a s.plan
  headReal : HeadReal s.plan

section Runs

variable {s t : System} {b : Build} {r : Int} {pmu : Nat → Int}

theorem Abreast.tick (h : Abreast s t) (hr : 0 ≤ r) :
    Agrees FaultsAlike Abreast (pbsRunTimerTick b r s) (pbsRunTimerTick b r t) := by
  obtain ⟨a, hat⟩ := h.valid
  refine (pbsRunTimerTick_agrees h.toSystemsAlike hat h.headReal hr).mono ?_
  rintro s' t' hs' - h'
  obtain ⟨a', hat', hh', _⟩ := kept_true.tick hat h.headReal hr (fun _ _ _ _ _ => trivial)
    (fun p _ => allowedAt_any p) hs'
  exact ⟨h', ⟨a', hat'⟩, hh'⟩

theorem Abreast.startRun (h : Abreast s t) (hpmu : ∀ k, 0 ≤ pmu k) (fuel k : Nat) :
    Agrees FaultsAlike (Option.Rel Abreast) (startRun b pmu fuel k s)
      (startRun b pmu fuel k t) := by
  induction fuel generalizing k s t with
  | zero => exact .ok .none
  | succ fuel ih =>
      obtain ⟨live, hl⟩ := h.plan
      have hstate : t.plan.state = s.plan.state := by rw [hl.fields]
      rw [PbsLevel2.startRun, PbsLevel2.startRun, hstate]
      split
      · exact .ok (.some h)
      · exact (h.tick (hpmu k)).bind fun _ _ _ _ h' => ih h' (k + 1)

/-- A call of `pbs_run_timer_tick` with its reading of the counter, or of `start_run`, whose loop
is followed for `fuel` passes. -/
inductive Call where
  | tick (r : Int)
  | startRun (pmu : Nat → Int) (fuel : Nat)

/-- The counter counts up. -/
def Call.Counts : Call → Prop
  | .tick r => 0 ≤ r
  | .startRun pmu _ => ∀ k, 0 ≤ pmu k

def Call.perform (b : Build) (s : System) : Call → Exec (Option System)
  | .tick r => do return some (← pbsRunTimerTick b r s)
  | .startRun pmu fuel => PbsLevel2.startRun b pmu fuel 0 s

/-- One call after the other, `none` when one of them has not ended. -/
def performCalls (b : Build) : List Call → System → Exec (Option System)
  | [], s => .ok (some s)
  | call :: calls, s => do
      match ← call.perform b s with
      | some s => performCalls b calls s
      | none => return none

theorem Abreast.perform (h : Abreast s t) {call : Call} (hcall : call.Counts) :
    Agrees FaultsAlike (Option.Rel Abreast) (call.perform b s) (call.perform b t) := by
  cases call with
  | tick r => exact (h.tick hcall).bind fun _ _ _ _ h' => .ok (.some h')
  | startRun pmu fuel => exact h.startRun hcall fuel 0

theorem Abreast.performCalls (h : Abreast s t) {calls : List Call}
    (hcalls : ∀ call ∈ calls, call.Counts) :
    Agrees FaultsAlike (Option.Rel Abreast) (performCalls b calls s)
      (performCalls b calls t) := by
  induction calls generalizing s t with
  | nil => exact .ok (.some h)
  | cons call calls ih =>
      refine (h.perform (hcalls call List.mem_cons_self)).bind ?_
      intro x y _ _ hxy
      cases hxy with
      | some h' => exact ih h' fun c hc => hcalls c (List.mem_cons_of_mem _ hc)
      | none => exact .ok .none

end Runs

end PbsLevel2
