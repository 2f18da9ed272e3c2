import PbsLevel2.Proofs.Completion
import PbsLevel2.Source.Main

/-!
# The driver

`full_run` ticks a plan until the current task is the terminator, with nothing that bounds its
loop.  On an admissible plan it comes to an end all the same: at the terminator, or in a fault of
one of its ticks.
-/

namespace PbsLevel2

open Lib

theorem called_eq_ok {α : Type} {x : Exec α} {a : α} : called x = .ok a ↔ x = .ok a := by
  cases x with
  | error e => exact iff_of_false nofun nofun
  | ok b =>
      constructor <;> intro h <;> cases h <;> rfl

section Loop

variable {garbage : Nat → Char} {file text : List Char} {p plan : PbsPlan} {s u : System}
  {cur : PbsTask} {n fuel : Nat}

theorem testPlanParsing_eq_ok (h : testPlanParsing garbage file plan = .ok p) :
    ∃ text, parsePlan text plan = .ok p := by
  obtain ⟨planString, _, h⟩ := bind_eq_ok.1 h
  obtain ⟨parsed, hparse, h⟩ := bind_eq_ok.1 h
  obtain ⟨number, _, h⟩ := bind_eq_ok.1 h
  split at h
  · obtain rfl := Except.ok.inj h
    exact ⟨_, called_eq_ok.1 hparse⟩
  · cases h

theorem fullRunLoop_ended (hcur : u.plan.readCurTask = .ok cur) (hend : cur.taskId = -2) :
    fullRunLoop (fuel + 1) u = .ok (some u) := by
  rw [fullRunLoop, hcur]
  exact if_pos hend

theorem fullRunLoop_live (hcur : u.plan.readCurTask = .ok cur) (hlive : cur.taskId ≠ -2)
    (hreal : cur.taskId ≠ -1) : fullRunLoop (fuel + 1) u =
      called (pbsRunTimerTick .userland getRetiredInstructions u) >>= fullRunLoop fuel := by
  rw [fullRunLoop, hcur]
  exact (if_neg hlive).trans (if_neg hreal)

/-- From a state of the run, the loop goes on to the terminator or to the first tick that faults:
each tick uses one of the calls that are left. -/
theorem fullRunLoop_ends (hparse : parsePlan text zeroedPlan = .ok s.plan)
    (hadmissible : Admissible s.plan) (hu : runTicks .userland everyTick s n = .ok u)
    (hfuel : u.plan.callsLeft < fuel) :
    (∃ k t, k ≤ n + u.plan.callsLeft ∧ runTicks .userland everyTick s k = .ok t ∧
      Ended t.plan ∧ fullRunLoop fuel u = .ok (some t)) ∨
    ∃ j t e, j ≤ n + u.plan.callsLeft ∧ runTicks .userland everyTick s j = .ok t ∧
      pbsRunTimerTick .userland getRetiredInstructions t = .error e ∧
      fullRunLoop fuel u = .error (.fault e) := by
  induction fuel generalizing n u with
  | zero => exact absurd hfuel (Nat.not_lt_zero _)
  | succ fuel ih =>
      obtain ⟨a, hat, hhead, _⟩ :=
        kept_true.reached hparse hadmissible everyTick_nonneg trivial hu
      obtain ⟨_, _, _, hv, _⟩ := id hat
      obtain ⟨cur, _, _, hcur⟩ := hv.head
      by_cases hend : cur.taskId = -2
      · exact .inl ⟨n, u, Nat.le_add_right _ _, hu, ⟨cur, hcur, hend⟩,
          fullRunLoop_ended hcur hend⟩
      · rw [fullRunLoop_live hcur hend (hhead cur hcur)]
        cases htick : pbsRunTimerTick .userland getRetiredInstructions u with
        | error e => exact .inr ⟨n, u, e, Nat.le_add_right _ _, hu, htick, rfl⟩
        | ok v =>
            have hlive : ∀ c, u.plan.readCurTask = .ok c → c.taskId ≠ -2 := by
              intro c hc
              obtain rfl := Except.ok.inj (hcur.symm.trans hc)
              exact hend
            have hlt := callsLeft_tick hat hhead hlive htick
            have hnext : runTicks .userland everyTick s (n + 1) = .ok v :=
              (run_succ_of_eq hu).trans htick
            rcases ih hnext (by omega) with
              ⟨k, t, hk, ht, hended, heq⟩ | ⟨j, t, e, hj, ht, hfault, heq⟩
            · exact .inl ⟨k, t, by omega, ht, hended, heq⟩
            · exact .inr ⟨j, t, e, by omega, ht, hfault, heq⟩

end Loop

/-- With passes for the bound, `full_run` on a file with an admissible plan comes to one of two
ends: it returns a state with every task executed exactly once, which its last 100 ticks leave as
it is, or one of its ticks faults.  Its own assertion on the current task never fails. -/
theorem fullRun_ends {garbage : Nat → Char} {file : List Char} {fuel : Nat} {p : PbsPlan}
    {signals : SignalBuffer} (hfile : testPlanParsing garbage file zeroedPlan = .ok p)
    (hadmissible : Admissible p) (hdistinct : DistinctIds p) (hfuel : p.callBound < fuel) :
    (∃ k t, k ≤ p.callBound ∧ runTicks .userland everyTick ⟨p, signals⟩ k = .ok t ∧
      Completed p t.plan ∧ fullRun garbage fuel file signals = .ok (some t)) ∨
    ∃ j t e, j ≤ p.callBound ∧ runTicks .userland everyTick ⟨p, signals⟩ j = .ok t ∧
      pbsRunTimerTick .userland getRetiredInstructions t = .error e ∧
      fullRun garbage fuel file signals = .error (.fault e) := by
  obtain ⟨text, hparse⟩ := testPlanParsing_eq_ok hfile
  have hcalls := (parsePlan_parsed hparse).callsLeft_eq hadmissible
  unfold fullRun
  rw [hfile, ok_bind]
  have hstart : runTicks .userland everyTick ⟨p, signals⟩ 0 = .ok ⟨p, signals⟩ := rfl
  rcases fullRunLoop_ends hparse hadmissible hstart (hcalls ▸ hfuel) with
    ⟨k, t, hk, ht, hend, heq⟩ | ⟨j, t, e, hj, ht, hfault, heq⟩
  · left
    obtain ⟨a, hat, hjobs⟩ :=
      delivered_run (s := ⟨p, signals⟩) hparse hadmissible everyTick_nonneg ht
    refine ⟨k, t, by rwa [hcalls, Nat.zero_add] at hk, ht, hat.completed hjobs hdistinct hend, ?_⟩
    have hstays := run_of_ended (s := ⟨p, signals⟩) hparse hadmissible everyTick_nonneg ht hend 100
    rw [runTicks, run_add ht] at hstays
    rw [heq, ok_bind]
    dsimp only
    rw [show runTicks .userland (fun _ => getRetiredInstructions) t 100 = .ok t from hstays]
    rfl
  · right
    refine ⟨j, t, e, by rwa [hcalls, Nat.zero_add] at hj, ht, hfault, ?_⟩
    rw [heq]
    rfl

set_option maxRecDepth 4000 in
/-- Task 0 is preempted on the way. -/
theorem fullRun_ends_completed :
    ∃ p t, testPlanParsing (fun _ => '7')
        "3;0,0;1,0;2,0;;;0,0,2,90000000;1,1,2,2;0,2,2,2;".toList zeroedPlan = .ok p ∧
      fullRun (fun _ => '7') 20 "3;0,0;1,0;2,0;;;0,0,2,90000000;1,1,2,2;0,2,2,2;".toList
        zeroedSignals = .ok (some t) ∧ Completed p t.plan := by
  have hcheck : (testPlanParsing (fun _ => '7')
      "3;0,0;1,0;2,0;;;0,0,2,90000000;1,1,2,2;0,2,2,2;".toList zeroedPlan).toOption.any
        (fun p => decide (Admissible p ∧ DistinctIds p ∧ p.callBound < 20)) = true := by
    decide +kernel
  have hreturns : (fullRun (fun _ => '7') 20
      "3;0,0;1,0;2,0;;;0,0,2,90000000;1,1,2,2;0,2,2,2;".toList zeroedSignals).isOk = true := by
    decide +kernel
  cases hfile : testPlanParsing (fun _ => '7')
      "3;0,0;1,0;2,0;;;0,0,2,90000000;1,1,2,2;0,2,2,2;".toList zeroedPlan with
  | error e =>
      rw [hfile] at hcheck
      cases hcheck
  | ok p =>
      rw [hfile] at hcheck
      obtain ⟨hadmissible, hdistinct, hbound⟩ := of_decide_eq_true hcheck
      rcases fullRun_ends hfile hadmissible hdistinct hbound with
        ⟨_, t, _, _, hcompleted, heq⟩ | ⟨_, _, e, _, _, _, heq⟩
      · exact ⟨p, t, rfl, heq, hcompleted⟩
      · rw [heq] at hreturns
        cases hreturns

end PbsLevel2
