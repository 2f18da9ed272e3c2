import PbsLevel2.Lib.Ring
import PbsLevel2.Proofs.Operations

/-!
# The recorded signals

The signal buffer is a ring whose first write goes to cell 1.  `get_pbs_signal` reads its
window; `print_signals` stops at the first cell that follows one without a tick.
-/

namespace PbsLevel2

open Lib

def zeroedSignal : PredictionFailureSignal := {}

/-- The buffer without its count. -/
def SignalBuffer.ring (s : SignalBuffer) : Ring PredictionFailureSignal sizeSigBuffer :=
  ⟨s.lastSignals, s.curSigBufferPosition, s.position_lt⟩

/-- The globals after the signals `sigs` were recorded, one after the other, from program
start. -/
def recorded (sigs : List PredictionFailureSignal) : SignalBuffer :=
  sigs.foldl (fun s sig => addSignal sig s) zeroedSignals

section Recorded

variable (sigs : List PredictionFailureSignal) (s : SignalBuffer) (sig : PredictionFailureSignal)

theorem ring_addSignal : (addSignal sig s).ring = s.ring.write sig := by
  unfold addSignal
  by_cases hwrap : s.curSigBufferPosition + 1 = 100
  · have hnext : s.ring.next = 0 := if_pos hwrap
    rw [dif_pos hwrap]
    ext1
    · apply Vector.toList_inj.1
      rw [Ring.write_cells, hnext]
      exact Vector.toList_set (show 0 < sizeSigBuffer by decide)
    · exact hnext.symm
  · have hnext : s.ring.next = s.curSigBufferPosition + 1 := if_neg hwrap
    have hlt : s.curSigBufferPosition + 1 < sizeSigBuffer := hnext ▸ s.ring.next_lt
    rw [dif_neg hwrap]
    ext1
    · apply Vector.toList_inj.1
      rw [Ring.write_cells, hnext]
      exact Vector.toList_set hlt
    · exact hnext.symm

theorem ring_recorded : (recorded sigs).ring = zeroedSignals.ring.record sigs := by
  have hfold : ∀ s : SignalBuffer,
      (sigs.foldl (fun s sig => addSignal sig s) s).ring = s.ring.record sigs := by
    induction sigs with
    | nil => intro s; rfl
    | cons sig sigs ih =>
        intro s
        rw [List.foldl_cons, ih, ring_addSignal]
        rfl
  exact hfold zeroedSignals

theorem numberPredictionFailuresCaused_recorded :
    numberPredictionFailuresCaused (recorded sigs) = sigs.length := by
  have hfold : ∀ s : SignalBuffer,
      (sigs.foldl (fun s sig => addSignal sig s) s).predictionFailuresCaused =
        s.predictionFailuresCaused + sigs.length := by
    induction sigs with
    | nil => intro s; rfl
    | cons sig sigs ih =>
        intro s
        rw [List.foldl_cons, ih, predictionFailuresCaused_addSignal, List.length_cons]
        omega
  exact (hfold zeroedSignals).trans (Nat.zero_add _)

theorem window_recorded :
    (recorded sigs).ring.window =
      (sigs.reverse ++ List.replicate sizeSigBuffer zeroedSignal).take sizeSigBuffer := by
  have hblank : zeroedSignals.ring.window =
      List.replicate sizeSigBuffer zeroedSignal := by
    unfold Ring.window
    change ((Vector.replicate sizeSigBuffer zeroedSignal).toList.take 1).reverse ++
      ((Vector.replicate sizeSigBuffer zeroedSignal).toList.drop 1).reverse = _
    rw [Vector.toList_replicate, List.take_replicate, List.drop_replicate, List.reverse_replicate,
      List.reverse_replicate, List.replicate_append_replicate]
    rfl
  rw [ring_recorded, Ring.window_record, hblank]

theorem window_recorded_getElem {k : Nat} (hk : k < min sigs.length sizeSigBuffer) :
    (recorded sigs).ring.window[k]? = sigs.reverse[k]? := by
  rw [window_recorded, List.getElem?_take_of_lt (by omega),
    List.getElem?_append_left (by rw [List.length_reverse]; omega)]

end Recorded

/-! ## `get_pbs_signal` -/

section Pick

variable {s : SignalBuffer} {k : Nat}

theorem getPbsSignal_eq (b : Build) (hk : k < sizeSigBuffer) :
    getPbsSignal b k s = .ok (s.ring.back k : Int) := by
  have hpick : (decide (0 ≤ (k : Int)) && decide ((k : Int) < sizeSigBuffer)) = true := by
    simp; omega
  have hassert : assertThat b .getPbsSignal (0 ≤ (k : Int) && (k : Int) < sizeSigBuffer) = .ok () := by
    rw [hpick]; cases b <;> rfl
  unfold getPbsSignal
  rw [hassert, ok_bind]
  dsimp only
  unfold Ring.back
  have hlt := s.position_lt
  change _ = Except.ok (((if k ≤ s.curSigBufferPosition then s.curSigBufferPosition - k
    else sizeSigBuffer + s.curSigBufferPosition - k : Nat)) : Int)
  split
  · rw [if_pos (by omega)]
    exact congrArg Except.ok (by omega)
  · rw [if_neg (by omega)]
    exact congrArg Except.ok (by omega)

theorem readSignal_eq_ok {i : Nat} {sig : PredictionFailureSignal} :
    s.readSignal i = .ok sig ↔ s.lastSignals.toList[i]? = some sig := by
  unfold SignalBuffer.readSignal
  by_cases hi : i < sizeSigBuffer
  · rw [dif_pos ⟨by omega, by simpa using hi⟩, List.getElem?_eq_getElem (by simpa using hi),
      Vector.getElem_toList]
    simp [Vector.get]
  · rw [dif_neg (by simpa using hi), List.getElem?_eq_none (by simpa using hi)]
    simp

end Pick

/-- After any number of signals, `get_pbs_signal` finds the latest of them in their order. -/
theorem getPbsSignal_recorded (b : Build) (sigs : List PredictionFailureSignal) :
    numberPredictionFailuresCaused (recorded sigs) = sigs.length ∧
    (recorded sigs).curSigBufferPosition < sizeSigBuffer ∧
    ∀ k < min sigs.length sizeSigBuffer, ∃ (i : Int) (sig : PredictionFailureSignal),
      getPbsSignal b k (recorded sigs) = .ok i ∧ 0 ≤ i ∧ i < sizeSigBuffer ∧
      (recorded sigs).readSignal i = .ok sig ∧ sigs.reverse[k]? = some sig := by
  refine ⟨numberPredictionFailuresCaused_recorded sigs, (recorded sigs).position_lt, ?_⟩
  intro k hk
  have hk' : k < sizeSigBuffer := by omega
  have hback := (recorded sigs).ring.back_lt hk'
  have hlatest := window_recorded_getElem sigs hk
  rw [Ring.window_getElem _ hk'] at hlatest
  obtain ⟨sig, hsig⟩ : ∃ sig, sigs.reverse[k]? = some sig :=
    ⟨_, List.getElem?_eq_getElem (by rw [List.length_reverse]; omega)⟩
  rw [hsig] at hlatest
  exact ⟨_, sig, getPbsSignal_eq b hk', by omega, by omega, readSignal_eq_ok.2 hlatest, hsig⟩

def signalsOfTicks (n : Nat) : List PredictionFailureSignal :=
  (List.range n).map fun i => { tick := i + 1, typeSignal := .t2 }

/-- The oldest of 100 signals kept, the write position being behind it. -/
theorem getPbsSignal_recorded_wrapped :
    ∃ (i : Int) (sig : PredictionFailureSignal),
      getPbsSignal .userland 99 (recorded (signalsOfTicks 101)) = .ok i ∧ 0 ≤ i ∧ i < sizeSigBuffer ∧
      (recorded (signalsOfTicks 101)).readSignal i = .ok sig ∧
      (signalsOfTicks 101).reverse[99]? = some sig :=
  (getPbsSignal_recorded .userland (signalsOfTicks 101)).2.2 99 (by decide)

/-! ## `print_signals` -/

/-- The printed entries are the latest of the recorded signals, each once. -/
def ReportsLatest (sig : PredictionFailureSignal) (sigs : List PredictionFailureSignal) : Prop :=
  (printSignals sig (recorded sigs)).Perm (sigs.reverse.take sizeSigBuffer)

section Print

variable {sigs cells : List PredictionFailureSignal} {sig : PredictionFailureSignal}

theorem printSignalsFrom_stopped (h : sig.tick = 0) : printSignalsFrom sig cells = [] := by
  cases cells with
  | nil => rfl
  | cons cell cells => rw [printSignalsFrom, if_neg (by simpa using h)]

theorem printSignalsFrom_all (h : sig.tick ≠ 0) (hcells : ∀ c ∈ cells, c.tick ≠ 0) :
    printSignalsFrom sig cells = cells := by
  induction cells generalizing sig with
  | nil => rfl
  | cons cell cells ih =>
      rw [printSignalsFrom, if_pos h, ih (hcells cell (by simp)) fun c hc => hcells c (by simp [hc])]

theorem position_recorded (h : sigs.length < sizeSigBuffer) :
    (recorded sigs).curSigBufferPosition = sigs.length := by
  have hfold : ∀ s : SignalBuffer, s.curSigBufferPosition + sigs.length < sizeSigBuffer →
      (sigs.foldl (fun s sig => addSignal sig s) s).curSigBufferPosition =
        s.curSigBufferPosition + sigs.length := by
    clear h
    induction sigs with
    | nil => intro s _; rfl
    | cons sig sigs ih =>
        intro s hs
        rw [List.length_cons] at hs ⊢
        have hnext : (addSignal sig s).curSigBufferPosition = s.curSigBufferPosition + 1 := by
          change (addSignal sig s).ring.position = _
          rw [ring_addSignal]
          exact if_neg (show ¬ s.curSigBufferPosition + 1 = sizeSigBuffer by omega)
        rw [List.foldl_cons, ih _ (by omega), hnext]
        omega
  exact (hfold zeroedSignals (by simpa [zeroedSignals] using h)).trans (Nat.zero_add _)

theorem cell_zero_recorded (h : sigs.length < sizeSigBuffer) :
    (recorded sigs).lastSignals.toList[0]? = some zeroedSignal := by
  have hback : (recorded sigs).ring.back sigs.length = 0 := by
    unfold Ring.back
    change (if sigs.length ≤ (recorded sigs).curSigBufferPosition then _ else _) = 0
    rw [position_recorded h, if_pos (Nat.le_refl _)]
    change (recorded sigs).curSigBufferPosition - sigs.length = 0
    rw [position_recorded h, Nat.sub_self]
  have hcell := (recorded sigs).ring.window_getElem h
  rw [hback, window_recorded, List.getElem?_take_of_lt h,
    List.getElem?_append_right (by rw [List.length_reverse]), List.length_reverse, Nat.sub_self] at hcell
  calc
    (recorded sigs).lastSignals.toList[0]? = (List.replicate sizeSigBuffer zeroedSignal)[0]? :=
      hcell.symm
    _ = some zeroedSignal := rfl

theorem not_reportsLatest_of_stopped (hsome : 1 ≤ sigs.length) (hsig : sig.tick = 0) :
    ¬ ReportsLatest sig sigs := by
  unfold ReportsLatest printSignals
  rw [printSignalsFrom_stopped hsig]
  intro hperm
  have hlen := hperm.length_eq
  rw [List.length_nil, List.length_take, List.length_reverse] at hlen
  have hsize : sizeSigBuffer = 100 := rfl
  omega

theorem reportsLatest_of_full (hticks : ∀ sig ∈ sigs, 0 < sig.tick) (hsig : sig.tick ≠ 0)
    (hfull : sizeSigBuffer ≤ sigs.length) : ReportsLatest sig sigs := by
  have hwindow : (recorded sigs).ring.window = sigs.reverse.take sizeSigBuffer := by
    rw [window_recorded, List.take_append_of_le_length (by rwa [List.length_reverse])]
  have hperm : ((recorded sigs).lastSignals.toList).Perm (sigs.reverse.take sizeSigBuffer) := by
    rw [← hwindow]
    exact (recorded sigs).ring.window_perm.symm
  unfold ReportsLatest printSignals
  rw [printSignalsFrom_all hsig]
  · exact hperm
  · intro c hc
    have hmem : c ∈ sigs.reverse := List.mem_of_mem_take (hperm.subset hc)
    have := hticks c (List.mem_reverse.1 hmem)
    omega

/-- The loop starts at a cell that was not written. -/
theorem not_reportsLatest_of_unwritten (hticks : ∀ sig ∈ sigs, 0 < sig.tick) (hsig : sig.tick ≠ 0)
    (hfew : sigs.length < sizeSigBuffer) : ¬ ReportsLatest sig sigs := by
  have hcell := cell_zero_recorded hfew
  unfold ReportsLatest printSignals
  intro hperm
  cases hcells : (recorded sigs).lastSignals.toList with
  | nil =>
      rw [hcells] at hcell
      cases hcell
  | cons cell cells =>
      rw [hcells] at hcell hperm
      obtain rfl : cell = zeroedSignal := by simpa using hcell
      rw [printSignalsFrom, if_pos hsig] at hperm
      have hmem := List.mem_of_mem_take (hperm.subset (List.mem_cons_self))
      have htick := hticks _ (List.mem_reverse.1 hmem)
      exact absurd htick (by decide)

end Print

/-- The report is complete from the hundredth signal on, if the variable that was never
written holds a tick other than 0. -/
theorem reportsLatest_iff {sigs : List PredictionFailureSignal} (hsome : 1 ≤ sigs.length)
    (hticks : ∀ sig ∈ sigs, 0 < sig.tick) (sig : PredictionFailureSignal) :
    ReportsLatest sig sigs ↔ sizeSigBuffer ≤ sigs.length ∧ sig.tick ≠ 0 := by
  constructor
  · intro h
    have hsig : sig.tick ≠ 0 := fun hsig => not_reportsLatest_of_stopped hsome hsig h
    refine ⟨?_, hsig⟩
    by_contra hfew
    exact not_reportsLatest_of_unwritten hticks hsig (by omega) h
  · rintro ⟨hfull, hsig⟩
    exact reportsLatest_of_full hticks hsig hfull

theorem reportsLatest_full : ReportsLatest { tick := 7 } (signalsOfTicks 100) :=
  (reportsLatest_iff (by decide) (by decide) { tick := 7 }).2 ⟨by decide, by decide⟩

/-- Of one recorded signal the report shows nothing: it lists a cell never written, or none. -/
theorem reportsLatest_unrecorded :
    printSignals { tick := 7 } (recorded (signalsOfTicks 1)) = [zeroedSignal] ∧
    printSignals zeroedSignal (recorded (signalsOfTicks 1)) = [] ∧
    ¬ ReportsLatest { tick := 7 } (signalsOfTicks 1) ∧
    ¬ ReportsLatest zeroedSignal (signalsOfTicks 1) := by
  unfold ReportsLatest
  decide

end PbsLevel2
