import Mathlib.Logic.Function.Iterate
import PbsLevel2.Lib.Totals
import PbsLevel2.Proofs.Layout
import PbsLevel2.Source.ParsePlan

/-!
# The texts that are read inside their bounds

`parse_plan` tests neither for the end of its text nor for the end of an array.  Which
texts it reads without leaving one of them is said here in terms of the fields of the text.
-/

namespace PbsLevel2

open Lib

/-! ## One number -/

/-- The characters that end the loop of `parse_next_number`. -/
def isDelimiter (c : Char) : Bool :=
  c = ',' || c = ';' || c = '\n'

def delimited (str : List Char) : Bool :=
  str.any isDelimiter

def nextField (str : List Char) : List Char :=
  (strtoll str).2.tail

theorem parseCurSymbol_cons (c : Char) (cs : List Char) :
    ∃ symbol, parseCurSymbol (c :: cs) = .ok symbol ∧
      (symbol = .number ↔ isDelimiter c = false) := by
  unfold parseCurSymbol
  split <;> simp_all [isDelimiter]

theorem parseCurSymbol_eq_semi {str : List Char} :
    parseCurSymbol str = .ok .semi ↔ ∃ cs, str = ';' :: cs := by
  constructor
  · intro h
    unfold parseCurSymbol at h
    split at h <;> simp_all
  · rintro ⟨cs, rfl⟩
    rfl

theorem skipNumber_succeeds_iff (str : List Char) :
    Succeeds (skipNumber str) ↔ delimited str = true := by
  induction str with
  | nil => simp [skipNumber, delimited, Succeeds]
  | cons c cs ih =>
      obtain ⟨symbol, hsymbol, hnumber⟩ := parseCurSymbol_cons c cs
      rw [skipNumber, hsymbol, ok_bind, delimited, List.any_cons]
      by_cases hs : symbol = .number
      · rw [if_pos hs, hnumber.1 hs, Bool.false_or]
        exact ih
      · have hc : isDelimiter c = true := by
          rw [← Bool.not_eq_false]
          exact fun h => hs (hnumber.2 h)
        rw [if_neg hs, hc, Bool.true_or]
        exact iff_of_true (Succeeds.ok _) rfl

theorem parseNextNumber_eq_ok {str rest : List Char} {n : Int} :
    parseNextNumber str = .ok (n, rest) ↔
      delimited str = true ∧ n = (strtoll str).1 ∧ rest = (strtoll str).2 := by
  rw [← skipNumber_succeeds_iff, parseNextNumber, bind_eq_ok]
  constructor
  · rintro ⟨stop, hstop, h⟩
    obtain ⟨rfl, rfl⟩ := Prod.mk.inj (Except.ok.inj h).symm
    exact ⟨⟨stop, hstop⟩, rfl, rfl⟩
  · rintro ⟨⟨stop, hstop⟩, rfl, rfl⟩
    exact ⟨stop, hstop, rfl⟩

/-! ## What is left is the end of what was there -/

theorem skipSpaces_suffix (str : List Char) : skipSpaces str <:+ str := by
  induction str with
  | nil => exact List.suffix_rfl
  | cons c cs ih =>
      unfold skipSpaces
      split
      · exact ih.trans (List.suffix_cons c cs)
      · exact List.suffix_rfl

theorem readDigits_suffix (acc : Nat) (str : List Char) : (readDigits acc str).2 <:+ str := by
  induction str generalizing acc with
  | nil => exact List.suffix_rfl
  | cons c cs ih =>
      unfold readDigits
      split
      · exact (ih _).trans (List.suffix_cons c cs)
      · exact List.suffix_rfl

theorem readSign_suffix (str : List Char) : (readSign str).2 <:+ str := by
  unfold readSign
  split
  · exact List.suffix_cons _ _
  · exact List.suffix_cons _ _
  · exact List.suffix_rfl

theorem strtoll_suffix (str : List Char) : (strtoll str).2 <:+ str := by
  have hdigits : (readSign (skipSpaces str)).2 <:+ str :=
    (readSign_suffix _).trans (skipSpaces_suffix str)
  unfold strtoll
  dsimp only
  split
  · exact List.suffix_rfl
  · rename_i heq
    split
    · exact (readDigits_suffix 0 _).trans hdigits
    · exact List.suffix_rfl

theorem nextField_suffix (str : List Char) : nextField str <:+ str :=
  (List.tail_suffix _).trans (strtoll_suffix str)

theorem nextField_iterate_suffix (str : List Char) {i j : Nat} (h : i ≤ j) :
    nextField^[j] str <:+ nextField^[i] str := by
  induction j, h using Nat.le_induction with
  | base => exact List.suffix_rfl
  | succ j _ ih =>
      rw [Function.iterate_succ_apply']
      exact (nextField_suffix _).trans ih

theorem delimited_of_suffix {str str' : List Char} (h : str' <:+ str)
    (hd : delimited str' = true) : delimited str = true := by
  obtain ⟨c, hc, hdelimiter⟩ := List.any_eq_true.1 hd
  exact List.any_eq_true.2 ⟨c, h.subset hc, hdelimiter⟩

/-! ## The meta section -/

/-- `str` is a meta section up to its `;;` with `rest` behind it: it lists `entries`
processes, and `m` is the number of processes it leaves in the plan, where there was `n`.
`found` says that this number was read. -/
inductive Header : Bool → Int → List Char → Nat → Int → List Char → Prop where
  | finish (found : Bool) (n : Int) (rest : List Char) :
      Header found n (';' :: ';' :: rest) 0 n rest
  | number {n m : Int} {str rest : List Char} {entries : Nat}
      (hnumber : parseCurSymbol str = .ok .number)
      (hrest : Header true (strtoll str).1 (nextField str) entries m rest) :
      Header false n str entries m rest
  | entry {found : Bool} {n m : Int} {str rest : List Char} {entries : Nat}
      (hentry : found = true ∨ parseCurSymbol str ≠ .ok .number)
      (hfinish : ¬ [';', ';'] <+: str)
      (hrest : Header found n (nextField (nextField str)) entries m rest) :
      Header found n str (entries + 1) m rest

namespace Header

variable {found : Bool} {n m : Int} {str rest : List Char} {entries : Nat}

theorem suffix (h : Header found n str entries m rest) : ';' :: ';' :: rest <:+ str := by
  induction h with
  | finish found n rest => exact List.suffix_rfl
  | number _ _ ih => exact ih.trans (nextField_suffix _)
  | entry _ _ _ ih => exact ih.trans ((nextField_suffix _).trans (nextField_suffix _))

theorem delimited_str (h : Header found n str entries m rest) : delimited str = true :=
  delimited_of_suffix h.suffix rfl

end Header

theorem finish_eq_ok {symbol next : Symbol} {str : List Char}
    (hsymbol : parseCurSymbol str = .ok symbol)
    (h : (if symbol = .semi then parseCurSymbol str.tail else pure .number) = .ok next) :
    next = .semi ↔ [';', ';'] <+: str := by
  constructor
  · rintro rfl
    split at h
    · rename_i hs
      subst hs
      obtain ⟨cs, rfl⟩ := parseCurSymbol_eq_semi.1 hsymbol
      obtain ⟨cs, rfl⟩ := parseCurSymbol_eq_semi.1 h
      exact ⟨cs, rfl⟩
    · cases h
  · rintro ⟨rest, rfl⟩
    obtain rfl : Symbol.semi = symbol := Except.ok.inj hsymbol
    exact (Except.ok.inj h).symm

theorem writeProcess_eq_modify (p : PbsPlan) (i : Int) (r : PbsProcess) :
    p.writeProcess i r = p.modifyProcess i fun _ => r := by
  rw [PbsPlan.modifyProcess, PbsPlan.readProcess, PbsPlan.writeProcess]
  split <;> rfl

theorem parseNextProcess_eq_ok {str : List Char} {q : PbsProcess} {r : PbsProcess × List Char} :
    parseNextProcess str q = .ok r ↔ delimited (nextField str) = true ∧
      r = ({ q with processId := (strtoll str).1, buffer := (strtoll (nextField str)).1 },
        nextField (nextField str)) := by
  rw [parseNextProcess, bind_eq_ok]
  constructor
  · rintro ⟨⟨processId, str₁⟩, h₁, h⟩
    obtain ⟨⟨buffer, str₂⟩, h₂, h⟩ := bind_eq_ok.1 h
    obtain ⟨_, rfl, rfl⟩ := parseNextNumber_eq_ok.1 h₁
    obtain ⟨hd, rfl, rfl⟩ := parseNextNumber_eq_ok.1 h₂
    exact ⟨hd, (Except.ok.inj h).symm⟩
  · rintro ⟨hd, rfl⟩
    have hd₀ := delimited_of_suffix (nextField_suffix str) hd
    refine ⟨_, parseNextNumber_eq_ok.2 ⟨hd₀, rfl, rfl⟩, ?_⟩
    exact bind_eq_ok.2 ⟨_, parseNextNumber_eq_ok.2 ⟨hd, rfl, rfl⟩, rfl⟩

theorem parseMetaLoop_header {fuel : Nat} {found : Bool} {counter : Nat} {str rest : List Char}
    {p q : PbsPlan} (hcounter : counter ≤ maxNumberProcesses)
    (hloop : parseMetaLoop fuel found counter str p = .ok (rest, q)) :
    ∃ entries, Header found p.numProcesses str entries q.numProcesses rest ∧
      counter + entries ≤ maxNumberProcesses := by
  induction fuel generalizing found counter str p with
  | zero => cases hloop
  | succ fuel ih =>
      rw [parseMetaLoop] at hloop
      obtain ⟨symbol, hsymbol, h⟩ := bind_eq_ok.1 hloop
      by_cases hn : symbol = .number ∧ found = false
      · rw [if_pos hn] at h
        obtain ⟨rfl, rfl⟩ := hn
        obtain ⟨⟨number, str₁⟩, hnumber, h⟩ := bind_eq_ok.1 h
        obtain ⟨_, rfl, rfl⟩ := parseNextNumber_eq_ok.1 hnumber
        obtain ⟨entries, hh, hle⟩ := ih hcounter h
        exact ⟨entries, .number hsymbol hh, hle⟩
      · rw [if_neg hn] at h
        obtain ⟨next, hnext, h⟩ := bind_eq_ok.1 h
        have hfinish := finish_eq_ok hsymbol hnext
        by_cases hsemi : next = .semi
        · rw [if_pos hsemi] at h
          obtain ⟨cs, rfl⟩ := hfinish.1 hsemi
          obtain ⟨rfl, rfl⟩ := Prod.mk.inj (Except.ok.inj h)
          exact ⟨0, .finish _ _ _, hcounter⟩
        · rw [if_neg hsemi] at h
          obtain ⟨p₁, h₁, h⟩ := bind_eq_ok.1 h
          obtain ⟨⟨r, str₁⟩, hr, h⟩ := bind_eq_ok.1 h
          obtain ⟨p₂, h₂, h⟩ := bind_eq_ok.1 h
          obtain ⟨_, rfl⟩ := Prod.mk.inj (parseNextProcess_eq_ok.1 hr).2
          rw [writeProcess_eq_modify] at h₂
          obtain ⟨hi, rfl⟩ := modifyProcess_eq_ok h₁
          obtain ⟨_, rfl⟩ := modifyProcess_eq_ok h₂
          have hlt : counter < maxNumberProcesses := by simpa using hi.2
          obtain ⟨entries, hh, hle⟩ := ih hlt h
          refine ⟨entries + 1, .entry ?_ (fun hp => hsemi (hfinish.2 hp)) hh, by omega⟩
          rw [hsymbol]
          by_cases hfound : found = true
          · exact .inl hfound
          · exact .inr fun hs => hn ⟨Except.ok.inj hs, by simpa using hfound⟩

theorem parseCurSymbol_of_delimited {str : List Char} (hd : delimited str = true) :
    ∃ symbol, parseCurSymbol str = .ok symbol := by
  cases str with
  | nil => cases hd
  | cons c cs =>
      obtain ⟨symbol, hsymbol, _⟩ := parseCurSymbol_cons c cs
      exact ⟨symbol, hsymbol⟩

theorem exists_finish {symbol : Symbol} {str : List Char}
    (hsymbol : parseCurSymbol str = .ok symbol) (hd : delimited (nextField str) = true) :
    ∃ next, (if symbol = .semi then parseCurSymbol str.tail else pure .number) = .ok next := by
  split
  · rename_i hs
    subst hs
    obtain ⟨cs, rfl⟩ := parseCurSymbol_eq_semi.1 hsymbol
    exact parseCurSymbol_of_delimited hd
  · exact ⟨_, rfl⟩

/-! ### The three passes of the loop -/

section

variable {fuel counter : Nat} {found : Bool} {str : List Char} {p : PbsPlan}

theorem parseMetaLoop_finish (rest : List Char) :
    parseMetaLoop (fuel + 1) found counter (';' :: ';' :: rest) p = .ok (rest, p) := by
  simp [parseMetaLoop, parseCurSymbol]

theorem parseMetaLoop_number (hnumber : parseCurSymbol str = .ok .number)
    (hd : delimited str = true) :
    parseMetaLoop (fuel + 1) false counter str p =
      parseMetaLoop fuel true counter (nextField str)
        { p with numProcesses := (strtoll str).1 } := by
  rw [parseMetaLoop, hnumber, ok_bind, if_pos ⟨rfl, rfl⟩, parseNextNumber_eq_ok.2 ⟨hd, rfl, rfl⟩]
  rfl

/-- What the pass for the entry `counter` leaves in the process table. -/
def listProcess (v : Vector PbsProcess maxNumberProcesses) (counter : Nat) (str : List Char) :
    Vector PbsProcess maxNumberProcesses :=
  updateProcess (updateProcess v counter fun _ => {}) counter fun _ =>
    { processId := (strtoll str).1, buffer := (strtoll (nextField str)).1 }

theorem parseMetaLoop_entry (hentry : found = true ∨ parseCurSymbol str ≠ .ok .number)
    (hfinish : ¬ [';', ';'] <+: str) (hd : delimited (nextField str) = true)
    (hcounter : counter < maxNumberProcesses) :
    parseMetaLoop (fuel + 1) found counter str p =
      parseMetaLoop fuel found (counter + 1) (nextField (nextField str))
        { p with processes := listProcess p.processes counter str } := by
  obtain ⟨symbol, hsymbol⟩ :=
    parseCurSymbol_of_delimited (delimited_of_suffix (nextField_suffix str) hd)
  obtain ⟨next, hnext⟩ := exists_finish hsymbol hd
  have hi : ProcessIndex counter := ⟨by omega, by simpa using hcounter⟩
  have hn : ¬ (symbol = .number ∧ found = false) := by
    rintro ⟨rfl, rfl⟩
    simp [hsymbol] at hentry
  rw [parseMetaLoop, hsymbol, ok_bind, if_neg hn, hnext, ok_bind,
    if_neg fun hsemi => hfinish ((finish_eq_ok hsymbol hnext).1 hsemi),
    modifyProcess_eq hi, ok_bind, parseNextProcess_eq_ok.2 ⟨hd, rfl⟩, ok_bind]
  dsimp only
  rw [writeProcess_eq_modify, modifyProcess_eq hi, ok_bind]
  rfl

end

theorem Header.parses {found : Bool} {n m : Int} {str rest : List Char} {entries : Nat}
    (h : Header found n str entries m rest) {fuel counter : Nat} {p : PbsPlan}
    (hp : p.numProcesses = n) (hfuel : entries + (if found then 0 else 1) < fuel)
    (hcounter : counter + entries ≤ maxNumberProcesses) :
    ∃ q, parseMetaLoop fuel found counter str p = .ok (rest, q) ∧ q.numProcesses = m := by
  induction h generalizing fuel counter p with
  | finish found n rest =>
      obtain ⟨fuel, rfl⟩ : ∃ k, fuel = k + 1 := ⟨fuel - 1, by omega⟩
      exact ⟨p, parseMetaLoop_finish rest, hp⟩
  | number hnumber hrest ih =>
      obtain ⟨fuel, rfl⟩ : ∃ k, fuel = k + 1 := ⟨fuel - 1, by omega⟩
      rw [parseMetaLoop_number hnumber
        (delimited_of_suffix (nextField_suffix _) hrest.delimited_str)]
      exact ih rfl (by simpa using hfuel) hcounter
  | entry hentry hfinish hrest ih =>
      obtain ⟨fuel, rfl⟩ : ∃ k, fuel = k + 1 := ⟨fuel - 1, by omega⟩
      rw [parseMetaLoop_entry hentry hfinish
        (delimited_of_suffix (nextField_suffix _) hrest.delimited_str) (by omega)]
      exact ih hp (by omega) (by omega)

/-- The process of the two fields at the front of the text. -/
def fieldsProcess (str : List Char) : PbsProcess where
  processId := (strtoll str).1
  buffer := (strtoll (nextField str)).1

theorem processAt_listProcess (v : Vector PbsProcess maxNumberProcesses) {counter : Nat}
    (hcounter : counter < maxNumberProcesses) (str : List Char) (i : Int) :
    processAt (listProcess v counter str) i =
      if i = counter then fieldsProcess str else processAt v i := by
  have hi : ProcessIndex counter := ⟨by omega, by simpa using hcounter⟩
  rw [listProcess, processAt_updateProcess _ _ hi, processAt_updateProcess _ _ hi]
  split
  · rfl
  · rfl

/-- The entries a header lists are those of its fields, whatever stood in the process table
before, and the other entries stay. -/
theorem Header.lists {n m : Int} {str rest : List Char} {entries : Nat}
    (h : Header true n str entries m rest) {fuel counter : Nat} {p : PbsPlan}
    (hfuel : entries < fuel) (hcounter : counter + entries ≤ maxNumberProcesses) :
    ∃ v, parseMetaLoop fuel true counter str p = .ok (rest, { p with processes := v }) ∧
      (∀ j < entries, processAt v (counter + j) = fieldsProcess (nextField^[2 * j] str)) ∧
      ∀ i : Int, i < counter ∨ counter + entries ≤ i →
        processAt v i = processAt p.processes i := by
  obtain ⟨fuel, rfl⟩ : ∃ k, fuel = k + 1 := ⟨fuel - 1, by omega⟩
  generalize hfound : true = found at h
  induction h generalizing fuel counter p with
  | finish found n rest =>
      exact ⟨p.processes, parseMetaLoop_finish rest, fun j hj => absurd hj (Nat.not_lt_zero j),
        fun _ _ => rfl⟩
  | number hnumber hrest ih => cases hfound
  | @entry found n m str rest entries hentry hfinish hrest ih =>
      subst hfound
      obtain ⟨fuel, rfl⟩ : ∃ k, fuel = k + 1 := ⟨fuel - 1, by omega⟩
      rw [parseMetaLoop_entry hentry hfinish
        (delimited_of_suffix (nextField_suffix _) hrest.delimited_str) (by omega)]
      obtain ⟨v, hv, hlisted, hothers⟩ := ih
        (p := { p with processes := listProcess p.processes counter str })
        (show counter + 1 + entries ≤ maxNumberProcesses by omega) fuel
        (show entries < fuel + 1 by omega) rfl
      refine ⟨v, hv, fun j hj => ?_, fun i hi => ?_⟩
      · cases j with
        | zero =>
            rw [hothers _ (.inl (by omega)), processAt_listProcess _ (by omega), if_pos (by simp)]
            rfl
        | succ j =>
            have hlater := hlisted j (by omega)
            rw [show (counter : Int) + (j + 1 : Nat) = (counter + 1 : Nat) + j by omega, hlater]
            rfl
      · rw [hothers i (by omega), processAt_listProcess _ (by omega), if_neg (by omega)]

theorem parseMeta_succeeds_iff {str : List Char} {p : PbsPlan} {rest : List Char} :
    (∃ q, parseMeta str p = .ok (rest, q)) ↔ ∃ entries m,
      Header false p.numProcesses str entries m rest ∧ entries ≤ maxNumberProcesses ∧
        ProcessIndex m := by
  constructor
  · rintro ⟨q, h⟩
    obtain ⟨⟨str', q₁⟩, h₁, h⟩ := bind_eq_ok.1 h
    obtain ⟨q₂, h₂, h⟩ := bind_eq_ok.1 h
    obtain ⟨rfl, rfl⟩ := Prod.mk.inj (Except.ok.inj h)
    obtain ⟨entries, hheader, hle⟩ := parseMetaLoop_header (Nat.zero_le _) h₁
    exact ⟨entries, _, hheader, by omega, (modifyProcess_eq_ok h₂).1⟩
  · rintro ⟨entries, m, hheader, hle, hm⟩
    obtain ⟨q, hq, rfl⟩ := hheader.parses rfl
      (show entries + 1 < maxNumberProcesses + 2 by omega)
      (show 0 + entries ≤ maxNumberProcesses by omega)
    exact ⟨_, bind_eq_ok.2 ⟨_, hq, bind_eq_ok.2 ⟨_, modifyProcess_eq hm _, rfl⟩⟩⟩

/-! ## The task section -/

/-- The semicolons in front of the terminating NUL. -/
def semicolons (str : List Char) : Nat :=
  (str.takeWhile (· ≠ '\x00')).count ';'

theorem semicolons_cons {c : Char} (hc : c ≠ '\x00') (cs : List Char) :
    semicolons (c :: cs) = if c = ';' then semicolons cs + 1 else semicolons cs := by
  simp [semicolons, hc, List.count_cons]
  split <;> rfl

theorem countTasks_eq_ok {str : List Char} {n : Nat} :
    countTasks str = .ok n ↔ '\x00' ∈ str ∧ n = semicolons str := by
  induction str generalizing n with
  | nil => simp [countTasks]
  | cons c cs ih =>
      rw [countTasks]
      by_cases hc : c = '\x00'
      · subst hc
        simp [semicolons, eq_comm]
      · rw [if_neg hc, bind_eq_ok, semicolons_cons hc, List.mem_cons, or_iff_right (Ne.symm hc)]
        constructor
        · rintro ⟨k, hk, h⟩
          obtain ⟨hmem, rfl⟩ := ih.1 hk
          exact ⟨hmem, (Except.ok.inj h).symm⟩
        · rintro ⟨hmem, rfl⟩
          exact ⟨_, ih.2 ⟨hmem, rfl⟩, rfl⟩

/-- The process of a task is none at all or has an entry in the process table. -/
def TaskPid (pid : Int) : Prop :=
  pid = -1 ∨ ProcessIndex pid

theorem modifyTaskProcess_eq {pid : Int} (h : TaskPid pid) (f : PbsProcess → PbsProcess)
    (p : PbsPlan) :
    modifyTaskProcess pid f p = .ok { p with processes := updateProcess p.processes pid f } := by
  rw [modifyTaskProcess]
  rcases h with rfl | h
  · rw [if_neg (by decide), updateProcess, dif_neg (by decide)]
    rfl
  · rw [if_pos (by have := h.1; omega), modifyProcess_eq h]

theorem taskPid_of_modifyTaskProcess {pid : Int} {f : PbsProcess → PbsProcess} {p q : PbsPlan}
    (h : modifyTaskProcess pid f p = .ok q) : TaskPid pid := by
  rw [modifyTaskProcess] at h
  split at h
  · exact .inr (modifyProcess_eq_ok h).1
  · rename_i hpid
    exact .inl (not_not.1 hpid)

/-- The task of the four fields at the front of the text. -/
def fieldsTask (str : List Char) : PbsTask where
  processId := (strtoll str).1
  taskId := (strtoll (nextField str)).1
  instructionsPlanned := (strtoll (nextField^[2] str)).1
  instructionsReal := (strtoll (nextField^[3] str)).1
  slotOwner := (strtoll (nextField str)).1

/-- The process table with a task counted in. -/
def tallyTask (v : Vector PbsProcess maxNumberProcesses) (t : PbsTask) :
    Vector PbsProcess maxNumberProcesses :=
  updateProcess
    (updateProcess v t.processId fun q => { q with numTasksRemaining := q.numTasksRemaining + 1 })
    t.processId fun q => { q with lengthPlan := q.lengthPlan + t.instructionsPlanned }

theorem parseNextTask_eq_ok_iff {p : PbsPlan} {i : Nat} {str : List Char}
    {r : PbsPlan × List Char} :
    parseNextTask p i str = .ok r ↔ delimited (nextField^[3] str) = true ∧
      TaskPid (strtoll str).1 ∧ ∃ h : i < maxNumberTasksInPlan,
        r = ({ p with
          processes := tallyTask p.processes (fieldsTask str)
          tasks := p.tasks.set i (fieldsTask str) h }, nextField^[4] str) := by
  constructor
  · intro h
    obtain ⟨⟨pid, str₁⟩, hpid, h⟩ := bind_eq_ok.1 h
    obtain ⟨p₁, h₁, h⟩ := bind_eq_ok.1 h
    obtain ⟨⟨tid, str₂⟩, htid, h⟩ := bind_eq_ok.1 h
    obtain ⟨⟨planned, str₃⟩, hplanned, h⟩ := bind_eq_ok.1 h
    obtain ⟨p₂, h₂, h⟩ := bind_eq_ok.1 h
    obtain ⟨⟨real, str₄⟩, hreal, h⟩ := bind_eq_ok.1 h
    obtain ⟨p₃, h₃, h⟩ := bind_eq_ok.1 h
    obtain ⟨_, rfl, rfl⟩ := parseNextNumber_eq_ok.1 hpid
    obtain ⟨_, rfl, rfl⟩ := parseNextNumber_eq_ok.1 htid
    obtain ⟨_, rfl, rfl⟩ := parseNextNumber_eq_ok.1 hplanned
    obtain ⟨hd, rfl, rfl⟩ := parseNextNumber_eq_ok.1 hreal
    have htask : TaskPid (strtoll str).1 := taskPid_of_modifyTaskProcess h₁
    rw [modifyTaskProcess_eq htask] at h₁ h₂
    obtain rfl := Except.ok.inj h₁
    obtain rfl := Except.ok.inj h₂
    dsimp only [PbsPlan.writeTask] at h₃
    split at h₃ <;> rename_i hi
    · obtain rfl := Except.ok.inj h₃
      exact ⟨hd, htask, hi, (Except.ok.inj h).symm⟩
    · cases h₃
  · rintro ⟨hd, htask, hi, rfl⟩
    have hd₂ := delimited_of_suffix (nextField_suffix _) hd
    have hd₁ := delimited_of_suffix (nextField_suffix _) hd₂
    have hd₀ := delimited_of_suffix (nextField_suffix _) hd₁
    refine bind_eq_ok.2 ⟨_, parseNextNumber_eq_ok.2 ⟨hd₀, rfl, rfl⟩, ?_⟩
    refine bind_eq_ok.2 ⟨_, modifyTaskProcess_eq htask _ _, ?_⟩
    refine bind_eq_ok.2 ⟨_, parseNextNumber_eq_ok.2 ⟨hd₁, rfl, rfl⟩, ?_⟩
    refine bind_eq_ok.2 ⟨_, parseNextNumber_eq_ok.2 ⟨hd₂, rfl, rfl⟩, ?_⟩
    refine bind_eq_ok.2 ⟨_, modifyTaskProcess_eq htask _ _, ?_⟩
    refine bind_eq_ok.2 ⟨_, parseNextNumber_eq_ok.2 ⟨hd, rfl, rfl⟩, ?_⟩
    exact bind_eq_ok.2 ⟨_, dif_pos hi, rfl⟩

/-- The fields of `n` tasks lie in front of the end of the text, and their processes exist. -/
def FieldsFit (n : Nat) (str : List Char) : Prop :=
  ∀ j < n, delimited (nextField^[4 * j + 3] str) = true ∧
    TaskPid (strtoll (nextField^[4 * j] str)).1

theorem fieldsFit_succ {n : Nat} {str : List Char} :
    FieldsFit (n + 1) str ↔ (delimited (nextField^[3] str) = true ∧ TaskPid (strtoll str).1) ∧
      FieldsFit n (nextField^[4] str) := by
  -- the fields of the later tasks start behind the four of the first one
  have hstep : ∀ j k, nextField^[4 * (j + 1) + k] str =
      nextField^[4 * j + k] (nextField^[4] str) := by
    intro j k
    rw [← Function.iterate_add_apply]
    congr 1
    omega
  rw [FieldsFit, Nat.forall_lt_succ_left, FieldsFit]
  refine and_congr Iff.rfl (forall₂_congr fun j _ => ?_)
  rw [hstep, ← Nat.add_zero (4 * (j + 1)), hstep]
  rfl

def fieldTasks : Nat → List Char → List PbsTask
  | 0, _ => []
  | n + 1, str => fieldsTask str :: fieldTasks n (nextField^[4] str)

theorem length_fieldTasks (n : Nat) (str : List Char) : (fieldTasks n str).length = n := by
  induction n generalizing str with
  | zero => rfl
  | succ n ih => rw [fieldTasks, List.length_cons, ih]

theorem fieldsFit_of_parseTasksLoop {n i : Nat} {str : List Char} {p q : PbsPlan}
    (h : parseTasksLoop n i str p = .ok q) : FieldsFit n str := by
  induction n generalizing i str p with
  | zero => exact fun _ hj => absurd hj (Nat.not_lt_zero _)
  | succ n ih =>
      obtain ⟨r, hr, h⟩ := bind_eq_ok.1 h
      obtain ⟨hd, hpid, _, rfl⟩ := parseNextTask_eq_ok_iff.1 hr
      exact fieldsFit_succ.2 ⟨⟨hd, hpid⟩, ih h⟩

theorem parseTasksLoop_eq {n i : Nat} {str : List Char} {p : PbsPlan}
    {pre old post : List PbsTask} (hfits : FieldsFit n str)
    (hp : p.tasks.toList = pre ++ (old ++ post)) (hi : pre.length = i) (hold : old.length = n) :
    parseTasksLoop n i str p =
      .ok ({ p with processes := (fieldTasks n str).foldl tallyTask p.processes }.withTasks
        (pre ++ (fieldTasks n str ++ post))) := by
  induction n generalizing i str p pre old with
  | zero =>
      obtain rfl := List.length_eq_zero_iff.1 hold
      rw [fieldTasks, ← hp]
      exact congrArg Except.ok (withTasks_toList p).symm
  | succ n ih =>
      obtain ⟨o, old, rfl⟩ := List.exists_cons_of_length_eq_add_one hold
      obtain ⟨⟨hd, hpid⟩, hrest⟩ := fieldsFit_succ.1 hfits
      have hlt : i < maxNumberTasksInPlan := by
        subst hi
        exact joint_lt hp
      have hset : (p.tasks.set i (fieldsTask str) hlt).toList =
          (pre ++ [fieldsTask str]) ++ (old ++ post) := by
        rw [Vector.toList_set, hp, ← hi, List.cons_append,
          List.set_append_right _ _ (Nat.le_refl _), Nat.sub_self]
        simp
      have hloop := ih hrest
        (p := { p with
          processes := tallyTask p.processes (fieldsTask str)
          tasks := p.tasks.set i (fieldsTask str) hlt })
        hset (i := i + 1) (by simp [hi]) (by simpa using hold)
      rw [parseTasksLoop, parseNextTask_eq_ok_iff.2 ⟨hd, hpid, hlt, rfl⟩, ok_bind]
      dsimp only
      rw [hloop, fieldTasks, List.foldl_cons, List.append_assoc]
      rfl

/-- The sum of `value` over the tasks of process `pid`. -/
abbrev processTotal (value : PbsTask → Int) (pid : Int) (l : List PbsTask) : Int :=
  total PbsTask.processId value pid l

theorem processAt_tallyTask (v : Vector PbsProcess maxNumberProcesses) (t : PbsTask) {j : Int}
    (hj : ProcessIndex j) :
    processAt (tallyTask v t) j =
      { processAt v j with
        numTasksRemaining := (processAt v j).numTasksRemaining + if t.processId = j then 1 else 0
        lengthPlan := (processAt v j).lengthPlan +
          if t.processId = j then t.instructionsPlanned else 0 } := by
  by_cases ht : t.processId = j
  · subst ht
    rw [tallyTask, processAt_updateProcess _ _ hj, if_pos rfl, processAt_updateProcess _ _ hj]
    simp
  · rw [if_neg ht, if_neg ht, Int.add_zero, Int.add_zero, tallyTask]
    by_cases hi : ProcessIndex t.processId
    · rw [processAt_updateProcess _ _ hi, if_neg (Ne.symm ht), processAt_updateProcess _ _ hi,
        if_neg (Ne.symm ht)]
    · rw [updateProcess, dif_neg hi, updateProcess, dif_neg hi]

theorem processAt_foldl_tallyTask (l : List PbsTask) (v : Vector PbsProcess maxNumberProcesses)
    {j : Int} (hj : ProcessIndex j) :
    processAt (l.foldl tallyTask v) j =
      { processAt v j with
        numTasksRemaining := (processAt v j).numTasksRemaining + processTotal (fun _ => 1) j l
        lengthPlan := (processAt v j).lengthPlan +
          processTotal PbsTask.instructionsPlanned j l } := by
  induction l generalizing v with
  | nil => simp [processTotal]
  | cons t l ih =>
      rw [List.foldl_cons, ih, processAt_tallyTask v t hj]
      simp only [processTotal, total_cons, Int.add_assoc]

/-- A task section that fits in the text and in the array: a delimiter behind the last field
of its last task, fewer tasks than the array has entries, and no pid outside the process
table. -/
structure TasksFit (rest : List Char) : Prop where
  few : semicolons rest < maxNumberTasksInPlan
  complete : semicolons rest = 0 ∨ delimited (nextField^[4 * semicolons rest - 1] rest) = true
  pids : ∀ j < semicolons rest, TaskPid (strtoll (nextField^[4 * j] rest)).1

theorem tasksFit_iff {rest : List Char} :
    TasksFit rest ↔ semicolons rest < maxNumberTasksInPlan ∧ FieldsFit (semicolons rest) rest := by
  constructor
  · intro h
    refine ⟨h.few, fun j hj => ⟨?_, h.pids j hj⟩⟩
    have hlast := h.complete.resolve_left (by omega)
    exact delimited_of_suffix (nextField_iterate_suffix rest (by omega)) hlast
  · rintro ⟨hfew, hfits⟩
    refine ⟨hfew, ?_, fun j hj => (hfits j hj).2⟩
    rcases Nat.eq_zero_or_pos (semicolons rest) with h0 | hpos
    · exact .inl h0
    · refine .inr ?_
      have hlast := (hfits (semicolons rest - 1) (by omega)).1
      rwa [show 4 * (semicolons rest - 1) + 3 = 4 * semicolons rest - 1 by omega] at hlast

/-- What `parse_tasks` leaves: the tasks of the text and the terminator, in front of what stood
in the array behind them. -/
theorem parseTasks_eq {rest : List Char} {p : PbsPlan} {old post : List PbsTask} {t : PbsTask}
    (hnul : '\x00' ∈ rest) (hfits : FieldsFit (semicolons rest) rest)
    (hp : p.tasks.toList = old ++ t :: post) (hold : old.length = semicolons rest) :
    parseTasks rest p = .ok ({ p with
      numTasks := semicolons rest
      processes := (fieldTasks (semicolons rest) rest).foldl tallyTask p.processes }.withTasks
        (fieldTasks (semicolons rest) rest ++ { t with taskId := -2, processId := -2 } :: post)) := by
  have hcount : countTasks rest = .ok (semicolons rest) := countTasks_eq_ok.2 ⟨hnul, rfl⟩
  have hlen : (fieldTasks (semicolons rest) rest ++ t :: post).length = maxNumberTasksInPlan := by
    have hlength := p.tasks.length_toList
    rw [hp] at hlength
    simpa [length_fieldTasks, hold] using hlength
  have hparsed : { p with numTasks := semicolons rest }.tasks.toList =
      [] ++ (old ++ t :: post) := hp
  have hjoint := modifyTask_joint (toList_withTasks hlen (p := { p with
      numTasks := semicolons rest
      processes := (fieldTasks (semicolons rest) rest).foldl tallyTask p.processes }))
    fun t => { t with taskId := -2, processId := -2 }
  rw [length_fieldTasks] at hjoint
  rw [parseTasks, hcount, ok_bind, parseTasksLoop_eq hfits hparsed List.length_nil hold, ok_bind,
    List.nil_append]
  exact hjoint

theorem tasksFit_of_parseTasks {rest : List Char} {p q : PbsPlan} (h : parseTasks rest p = .ok q) :
    '\x00' ∈ rest ∧ TasksFit rest := by
  obtain ⟨n, hn, h⟩ := bind_eq_ok.1 h
  obtain ⟨p₁, h₁, h⟩ := bind_eq_ok.1 h
  obtain ⟨hnul, rfl⟩ := countTasks_eq_ok.1 hn
  obtain ⟨t, ht, _⟩ := modifyTask_eq_ok h
  have hlt := (List.getElem?_eq_some_iff.1 ht).1
  exact ⟨hnul, tasksFit_iff.2 ⟨by simpa using hlt, fieldsFit_of_parseTasksLoop h₁⟩⟩

theorem parseTasks_succeeds_iff {rest : List Char} {p : PbsPlan} (hnul : '\x00' ∈ rest) :
    Succeeds (parseTasks rest p) ↔ TasksFit rest := by
  constructor
  · rintro ⟨q, h⟩
    exact (tasksFit_of_parseTasks h).2
  · intro h
    obtain ⟨hfew, hfits⟩ := tasksFit_iff.1 h
    have hlen : p.tasks.toList.length = maxNumberTasksInPlan := p.tasks.length_toList
    have hsplit := List.take_append_drop (semicolons rest) p.tasks.toList
    rw [List.drop_eq_getElem_cons (by omega)] at hsplit
    exact ⟨_, parseTasks_eq hnul hfits hsplit.symm (by rw [List.length_take]; omega)⟩

/-! ## `parse_plan` -/

theorem lengthFrom_succeeds_iff {l : List PbsTask} :
    Succeeds (lengthFrom l) ↔ ∃ t ∈ l, t.taskId = -2 := by
  induction l with
  | nil => simp [lengthFrom, Succeeds]
  | cons t ts ih =>
      rw [lengthFrom]
      by_cases ht : t.taskId = -2
      · rw [if_pos ht]
        exact iff_of_true (Succeeds.ok _) ⟨t, List.mem_cons_self, ht⟩
      · rw [if_neg ht, Succeeds.bind, ih]
        simp [ht]

theorem exists_terminator {rest : List Char} {p q : PbsPlan} (h : parseTasks rest p = .ok q) :
    ∃ t ∈ q.tasks.toList, t.taskId = -2 := by
  obtain ⟨n, _, h⟩ := bind_eq_ok.1 h
  obtain ⟨p₁, _, h⟩ := bind_eq_ok.1 h
  obtain ⟨t, ht, _, hset⟩ := modifyTask_eq_ok h
  refine ⟨{ t with taskId := -2, processId := -2 }, ?_, rfl⟩
  rw [hset]
  exact List.mem_set (List.getElem?_eq_some_iff.1 ht).1 _

theorem parsePlan_eq {text rest : List Char} {p p₁ p₂ : PbsPlan} {length : Int}
    (h₁ : parseMeta (text ++ ['\x00']) p = .ok (rest, p₁)) (h₂ : parseTasks rest p₁ = .ok p₂)
    (hlength : lengthFrom p₂.tasks.toList = .ok length) :
    parsePlan text p = .ok { p₂ with
      indexCurTask := 0
      tasksFinished := 0
      curTask := 0
      finishedTasks := 0
      curProcess := (p₂.tasks.get ⟨0, by decide⟩).processId
      tickCounter := 0
      instructionsPlanned := length } := by
  have hfirst : 0 < maxNumberTasksInPlan := by decide
  rw [parsePlan, h₁, ok_bind]
  dsimp only
  rw [h₂, ok_bind, PbsPlan.readCurTask, PbsPlan.readTask, dif_pos hfirst, ok_bind,
    calculateLengthPlan]
  dsimp only
  rw [hlength]
  rfl

/-- A text that `parse_plan` reads without leaving the text or an array, when `n` is the number of
processes in the plan before. -/
def Readable (n : Int) (text : List Char) : Prop :=
  ∃ entries m rest, Header false n (text ++ ['\x00']) entries m rest ∧
    entries ≤ maxNumberProcesses ∧ ProcessIndex m ∧ TasksFit rest

theorem Header.nul_mem {n m : Int} {text rest : List Char} {entries : Nat}
    (h : Header false n (text ++ ['\x00']) entries m rest) : '\x00' ∈ rest := by
  obtain ⟨front, hfront⟩ := h.suffix
  have hmem : '\x00' ∈ ';' :: ';' :: rest := by
    have hlast := congrArg List.getLast? hfront
    rw [List.getLast?_append, List.getLast?_append] at hlast
    exact List.mem_of_getLast? (by simpa using hlast)
  simpa using hmem

/-- `parse_plan` stays inside its text and inside the two arrays for the readable texts and for
no other one.  The loops of the model end, so what does not succeed has left one of them. -/
theorem parsePlan_safe_iff (text : List Char) (p : PbsPlan) :
    Succeeds (parsePlan text p) ↔ Readable p.numProcesses text := by
  constructor
  · rintro ⟨q, h⟩
    obtain ⟨⟨rest, p₁⟩, h₁, h⟩ := bind_eq_ok.1 h
    obtain ⟨p₂, h₂, _⟩ := bind_eq_ok.1 h
    obtain ⟨entries, m, hheader, hle, hm⟩ := parseMeta_succeeds_iff.1 ⟨p₁, h₁⟩
    exact ⟨entries, m, rest, hheader, hle, hm,
      (parseTasks_succeeds_iff hheader.nul_mem).1 ⟨p₂, h₂⟩⟩
  · rintro ⟨entries, m, rest, hheader, hle, hm, htasks⟩
    obtain ⟨p₁, h₁⟩ := parseMeta_succeeds_iff.2 ⟨entries, m, hheader, hle, hm⟩
    obtain ⟨p₂, h₂⟩ := (parseTasks_succeeds_iff (p := p₁) hheader.nul_mem).2 htasks
    obtain ⟨length, hlength⟩ := lengthFrom_succeeds_iff.2 (exists_terminator h₂)
    exact ⟨_, parsePlan_eq h₁ h₂ hlength⟩

/-- A text that ends in the header, one without `;;`, one that announces more processes than
fit beside the idle one, one that lists too many, and one with a pid outside the table. -/
theorem parsePlan_unsafe :
    ¬ Succeeds (parsePlan "1;0,0".toList zeroedPlan) ∧
    ¬ Succeeds (parsePlan "1;0,0;".toList zeroedPlan) ∧
    ¬ Succeeds (parsePlan "10;0,0;;;0,0,10,10;".toList zeroedPlan) ∧
    ¬ Succeeds (parsePlan
      "1;0,0;0,0;0,0;0,0;0,0;0,0;0,0;0,0;0,0;0,0;0,0;;;0,0,10,10;".toList zeroedPlan) ∧
    ¬ Succeeds (parsePlan "1;0,0;;;10,0,10,10;".toList zeroedPlan) := by
  refine ⟨?_, ?_, ?_, ?_, ?_⟩ <;> exact Succeeds.not_of_isOk (by decide +kernel)

end PbsLevel2
