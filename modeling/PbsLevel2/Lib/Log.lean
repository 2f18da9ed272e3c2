import PbsLevel2.Lib.Run

/-!
# The output of a run

The steps of a run put out entries.  The log of a run lists them in their order, and what a
step does to a state and the log kept so far, the run does to the log.
-/

namespace PbsLevel2.Lib

variable {ε σ α : Type}

/-- What the first `k` steps put out; `emit j t` is what step `j` puts out in state `t`. -/
def emitted (step : Nat → σ → Except ε σ) (emit : Nat → σ → List α) (s : σ) : Nat → List α
  | 0 => []
  | k + 1 =>
      emitted step emit s k ++
        match run step s k with
        | .ok t => emit k t
        | .error _ => []

variable {step : Nat → σ → Except ε σ} {emit : Nat → σ → List α} {s t : σ} {k : Nat}

theorem emitted_succ_of_eq (h : run step s k = .ok t) :
    emitted step emit s (k + 1) = emitted step emit s k ++ emit k t := by
  rw [emitted, h]

theorem mem_emitted {x : α} :
    x ∈ emitted step emit s k ↔ ∃ j < k, ∃ t, run step s j = .ok t ∧ x ∈ emit j t := by
  induction k with
  | zero => simp [emitted]
  | succ k ih =>
      rw [emitted, List.mem_append, ih]
      constructor
      · rintro (⟨j, hj, h⟩ | h)
        · exact ⟨j, by omega, h⟩
        · cases hrun : run step s k with
          | error e => rw [hrun] at h; cases h
          | ok t => rw [hrun] at h; exact ⟨k, by omega, t, hrun, h⟩
      · rintro ⟨j, hj, t, ht, h⟩
        rcases Nat.lt_or_eq_of_le (Nat.le_of_lt_succ hj) with hlt | rfl
        · exact .inl ⟨j, hlt, t, ht, h⟩
        · right
          rw [ht]
          exact h

/-- The rule for runs with a log: a step appends to it what it puts out. -/
theorem run_emitted {I : σ → List α → Prop} (h0 : I s [])
    (hstep : ∀ j < k, ∀ t u l, run step s j = .ok t → I t l → step j t = .ok u →
      I u (l ++ emit j t)) (h : run step s k = .ok t) : I t (emitted step emit s k) := by
  induction k generalizing t with
  | zero =>
      obtain rfl := Except.ok.inj h
      exact h0
  | succ k ih =>
      obtain ⟨u, hu, hut⟩ := run_succ_eq_ok.1 h
      rw [emitted_succ_of_eq hu]
      exact hstep k (by omega) u t _ hu (ih (fun j hj => hstep j (by omega)) hu) hut

end PbsLevel2.Lib
