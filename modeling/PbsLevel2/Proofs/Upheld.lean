import PbsLevel2.Proofs.Rule

/-!
# The rule for any mix of tasks and free slots

Where a free slot becomes current the kernel build lets it run like a task.  What every
operation keeps whatever the current entry is holds in every state such a run reaches.
-/

namespace PbsLevel2

open Lib

/-! ## The list up to the signal of a tick -/

/-- A task without its planned length and its slot counter. -/
def PbsTask.core (t : PbsTask) : PbsTask :=
  { t with instructionsPlanned := 0, instructionsRetiredSlot := 0 }

section Core

variable {l m : List PbsTask}

theorem job_of_core {t u : PbsTask} (h : t.core = u.core) : t.job = u.job :=
  show t.core.job = u.core.job by rw [h]

theorem state_of_core {t u : PbsTask} (h : t.core = u.core) : t.state = u.state :=
  show t.core.state = u.core.state by rw [h]

theorem real_of_core {t u : PbsTask} (h : t.core = u.core) :
    t.instructionsReal = u.instructionsReal :=
  show t.core.instructionsReal = u.core.instructionsReal by rw [h]

theorem retiredTask_of_core {t u : PbsTask} (h : t.core = u.core) :
    t.instructionsRetiredTask = u.instructionsRetiredTask :=
  show t.core.instructionsRetiredTask = u.core.instructionsRetiredTask by rw [h]

theorem map_job_of_core (h : l.map PbsTask.core = m.map PbsTask.core) :
    l.map PbsTask.job = m.map PbsTask.job :=
  map_of_view h fun _ => rfl

theorem map_core_of_body (h : l.map PbsTask.body = m.map PbsTask.body) :
    l.map PbsTask.core = m.map PbsTask.core :=
  map_of_view h fun _ => rfl

@[simp] theorem core_rescale (factor pid : Int) (t : PbsTask) :
    (rescale factor pid t).core = t.core := by
  rw [rescale]
  split <;> rfl

theorem map_core_rescale (factor pid : Int) (l : List PbsTask) :
    (l.map (rescale factor pid)).map PbsTask.core = l.map PbsTask.core := by
  rw [List.map_map]
  exact List.map_congr_left fun t _ => core_rescale factor pid t

end Core

section Front

variable {p : PbsPlan} {done rest tail : List PbsTask} {cur : PbsTask} {r : Int} {b : Build}
  {s s₂ : System}

theorem Placed.signal (hv : Placed s.plan done (cur :: rest) tail) (hs : Signalled b s s₂) :
    ∃ cur' rest', Placed s₂.plan done (cur' :: rest') tail ∧ cur'.core = cur.core ∧
      rest'.map PbsTask.core = rest.map PbsTask.core := by
  rcases hs with rfl | hs | hs
  · exact ⟨cur, rest, hv, rfl, rfl⟩
  · obtain ⟨_, heq, _⟩ := signalT2_eq_ok hv.toLayout hs
    rw [heq]
    exact ⟨_, _, (hv.stressed _).rescheduled _ _, core_rescale _ _ cur, map_core_rescale _ _ rest⟩
  · obtain ⟨_, heq, _⟩ := signalTm2_eq_ok hv.toLayout hs
    rw [heq]
    exact ⟨_, _, (hv.stressed _).rescheduled _ _, core_rescale _ _ cur, map_core_rescale _ _ rest⟩

theorem Placed.front (hv : Placed s.plan done (cur :: rest) tail) (hr : 0 ≤ r)
    (hcredit : updateRetiredInstructions r s.plan = .ok p)
    (hs : Signalled b { s with plan := p } s₂) :
    p.readCurTask = .ok (credited r cur) ∧ ∃ done₂ cur₂ rest₂ tail₂,
      Placed s₂.plan done₂ (cur₂ :: rest₂) tail₂ ∧ cur₂.core = (credited r cur).core ∧
      done₂.map PbsTask.core = done.map PbsTask.core ∧
      rest₂.map PbsTask.core = rest.map PbsTask.core := by
  obtain ⟨done₁, rest₁, tail₁, hv₁, hd, hrest, _⟩ := hv.credit hr hcredit
  obtain ⟨cur₂, rest₂, hv₂, hcur₂, hrest₂⟩ := hv₁.signal (s := { s with plan := p }) hs
  exact ⟨hv₁.readCurTask, done₁, cur₂, rest₂, tail₁, hv₂, hcur₂, map_core_of_body hd,
    hrest₂.trans (map_core_of_body hrest)⟩

end Front

/-! ## The rule -/

/-- `K` holds of a plan of any mix of tasks and free slots. -/
def Holds (K : PbsPlan → Prop) (p : PbsPlan) : Prop :=
  ∃ done todo tail, Placed p done todo tail ∧ K p

section Rule

variable {K : PbsPlan → Prop} {p q : PbsPlan} {done rest tail : List PbsTask} {cur : PbsTask}
  {r : Int} {b : Build} {s s₂ s' : System}

theorem Upheld.congrAt (hk : Upheld K) (h : Holds K p) (hsame : SameBooks p q) : Holds K q := by
  obtain ⟨done, todo, tail, hv, hK⟩ := h
  exact ⟨done, todo, tail, hv.of_same hsame.tasks hsame.curTask hsame.indexCurTask hsame.curProcess,
    hk.congr hsame hK⟩

theorem Upheld.creditAt (hk : Upheld K) (h : Holds K p) (hr : 0 ≤ r)
    (hq : updateRetiredInstructions r p = .ok q) : Holds K q := by
  obtain ⟨done, todo, tail, hv, hK⟩ := h
  obtain ⟨cur, rest, rfl⟩ := hv.retire_todo hr hq
  obtain ⟨done', rest', tail', hv', _⟩ := hv.credit hr hq
  exact ⟨done', _, tail', hv', hk.credit hv hr hq hK⟩

theorem Upheld.signal_of {todo : List PbsTask} (hk : Upheld K) (hv : Placed s.plan done todo tail)
    (hK : K s.plan) (hs : Signalled b s s₂) : K s₂.plan := by
  have hstressed : K { s.plan with stress := stressReset } :=
    hk.congr (sameBooks s.plan _ _ _ _) hK
  rcases hs with rfl | hs | hs
  · exact hK
  · obtain ⟨hi, heq, _⟩ := signalT2_eq_ok hv.toLayout hs
    rw [heq]
    exact hk.signal (hv.stressed _) hi hstressed
  · obtain ⟨hi, heq, _⟩ := signalTm2_eq_ok hv.toLayout hs
    rw [heq]
    exact hk.signal (hv.stressed _) hi hstressed

theorem Upheld.signalled (hk : Upheld K) (h : Holds K s.plan) (hr : 0 ≤ r)
    (hcredit : updateRetiredInstructions r s.plan = .ok p) (hcur : p.readCurTask = .ok cur)
    (hs : Signalled b { s with plan := p } s₂) :
    ∃ done₂ cur₂ rest₂ tail₂, Placed s₂.plan done₂ (cur₂ :: rest₂) tail₂ ∧ K s₂.plan ∧
      cur₂.core = cur.core ∧
      (cur.state ≠ .finished → cur₂.instructionsRetiredTask < cur₂.instructionsReal) := by
  obtain ⟨_, _, _, hv₁, hK₁⟩ := hk.creditAt h hr hcredit
  obtain ⟨done, todo, tail, hv, _⟩ := h
  obtain ⟨c, rest, rfl⟩ := hv.retire_todo hr hcredit
  obtain ⟨hread, done₂, cur₂, rest₂, tail₂, hv₂, hcur₂, _⟩ := hv.front hr hcredit hs
  obtain rfl := Except.ok.inj (hcur.symm.trans hread)
  refine ⟨done₂, cur₂, rest₂, tail₂, hv₂, hk.signal_of (s := { s with plan := p }) hv₁ hK₁ hs,
    hcur₂, fun hstate => ?_⟩
  rw [real_of_core hcur₂, retiredTask_of_core hcur₂]
  exact credited_state hstate

theorem Upheld.skipAt (hk : Upheld K) (h : Holds K p) (hq : skipFreeSlot b p = .ok q) :
    Holds K q := by
  obtain ⟨done, todo, tail, hv, hK⟩ := id h
  rcases skipFreeSlot_eq_ok hv.toLayout hq with ⟨_, rfl⟩ | ⟨cur, rest, first, rfl, _, _, hq⟩
  · exact h
  · have hpassed : Holds K (p.passed done cur rest tail) := ⟨_, _, _, hv.passed, hk.skip hv hK⟩
    by_cases hneg : -first.instructionsPlanned < 0
    · rw [updateRetiredInstructions_neg hneg] at hq
      obtain rfl := Except.ok.inj hq
      exact hk.congrAt hpassed (sameBooks _ _ _ _ _)
    · exact hk.creditAt hpassed (Int.not_lt.1 hneg) hq

theorem Upheld.preemptAt (hk : Upheld K) (hv : Placed p done (cur :: rest) tail) (hK : K p)
    (hrun : cur.instructionsRetiredTask < cur.instructionsReal) (hq : preemptCurTask b p = .ok q) :
    Holds K q := by
  rcases preemptCurTask_eq_ok hv.toLayout hq with
    ⟨blk, n, ns, f, post, hc, _, rfl⟩ | ⟨_, q₁, hq₁, rfl⟩
  · exact ⟨_, _, _, hv.rotated hc, hk.rotate hv hrun hc hK⟩
  · have hbumped : Holds K (p.bumped done cur (rest ++ tail)) :=
      ⟨_, _, _, hv.bumped, hk.bump hv hK⟩
    have hcredited := hk.creditAt hbumped (Int.sub_nonneg_of_le (Int.le_of_lt hrun)) hq₁
    exact hk.congrAt hcredited (sameBooks _ _ _ _ _)

theorem Upheld.preemptionPointAt (hk : Upheld K) (h : Holds K s.plan) (hr : 0 ≤ r)
    (hp : preemptionPoint b r s = .ok (some p)) :
    ∃ done cur rest tail, Placed p done (cur :: rest) tail ∧ K p ∧
      cur.instructionsRetiredTask < cur.instructionsReal := by
  obtain ⟨_, p₁, c, s₂, _, _, hcredit, hc, hstate, hsignal, rfl⟩ := preemptionPoint_eq_ok hp
  obtain ⟨done, cur, rest, tail, hv, hK, _, hrun⟩ :=
    hk.signalled h hr hcredit hc (signalIfT2_eq_ok hsignal)
  exact ⟨done, cur, rest, tail, hv, hK, hrun hstate⟩

theorem Upheld.finishedAt (hk : Upheld K) (h : Holds K s.plan) (hr : 0 ≤ r) {p₁ : PbsPlan}
    (hcredit : updateRetiredInstructions r s.plan = .ok p₁) (hcur : p₁.readCurTask = .ok cur)
    (hsignal : signalIfTm2 b { s with plan := p₁ } = .ok s₂)
    (hbook : (bookFinishedTask (cur.instructionsRetiredSlot - cur.instructionsReal) s₂.plan >>=
      advanceCurTask) = .ok p) : Holds K p := by
  obtain ⟨done, c, rest, tail, hv, hK, _⟩ :=
    hk.signalled h hr hcredit hcur (signalIfTm2_eq_ok hsignal)
  obtain ⟨hi, rfl⟩ := finishTask_eq_ok hv hbook
  exact ⟨_, _, _, (hv.booked _).passed, hk.finish hv hi hK⟩

theorem Upheld.freeSlotPointAt (hk : Upheld K) (h : Holds K s.plan) (hr : 0 ≤ r)
    (hp : freeSlotPoint b r s = .ok (some p)) : Holds K p := by
  rcases freeSlotPoint_eq_ok hp with
    ⟨p₂, hpoint, hpreempt⟩ | ⟨p₁, cur, s₂, hcredit, hcur, _, hsignal, hbook⟩
  · obtain ⟨done, cur, rest, tail, hv, hK, hrun⟩ := hk.preemptionPointAt h hr hpoint
    exact hk.preemptAt hv hK hrun hpreempt
  · exact hk.finishedAt h hr hcredit hcur hsignal hbook

theorem Upheld.tick (hk : Upheld K) (h : Holds K s.plan) (hr : 0 ≤ r)
    (htick : pbsRunTimerTick b r s = .ok s') : Holds K s'.plan := by
  cases tick_cases htick with
  | ended cur hcur hend hs =>
      rw [hs]
      exact h
  | finished p₁ cur s₂ p₃ p₄ hlive hcredit hcur hstate hsignal hbook hskip hs =>
      rw [hs]
      exact hk.congrAt (hk.skipAt (hk.finishedAt h hr hcredit hcur hsignal hbook) hskip)
        (sameBooks _ _ _ _ _)
  | preempted p₁ cur s₂ p₃ p₄ hlive hcredit hcur hstate hsignal ht1 hpreempt hskip hs =>
      obtain ⟨done, cur₂, rest, tail, hv, hK, _, hrun⟩ :=
        hk.signalled h hr hcredit hcur (signalIfT2_eq_ok hsignal)
      rw [hs]
      exact hk.congrAt (hk.skipAt (hk.preemptAt hv hK (hrun hstate) hpreempt) hskip)
        (sameBooks _ _ _ _ _)
  | waited p₁ cur s₂ hlive hcredit hcur hstate hsignal ht1 hs =>
      obtain ⟨done, cur₂, rest, tail, hv, hK, _⟩ :=
        hk.signalled h hr hcredit hcur (signalIfT2_eq_ok hsignal)
      rw [hs, relieveStress_eq]
      exact hk.congrAt ⟨_, _, _, hv, hK⟩ (sameBooks _ _ _ _ _)

/-- What its operations keep holds in every state that a run reaches. -/
theorem Upheld.run (hk : Upheld K) {pmu : Nat → Int} (hpmu : ∀ k, 0 ≤ pmu k) (h : Holds K s.plan)
    {k : Nat} {t : System} (ht : runTicks b pmu s k = .ok t) : Holds K t.plan :=
  run_invariant (I := fun t => Holds K t.plan) h
    (fun j _ _ _ _ h htick => hk.tick h (hpmu j) htick) ht

end Rule

end PbsLevel2
