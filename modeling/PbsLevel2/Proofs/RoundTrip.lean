import PbsLevel2.Proofs.Parsing

/-!
# From a plan to its text and back

A plan is written as a header and four fields for every entry.  `parse_plan` gives back what
was written.
-/

namespace PbsLevel2

open Lib

/-! ## Numbers -/

def decimal (n : Int) : List Char :=
  if n < 0 then '-' :: Nat.toDigits 10 n.natAbs else Nat.toDigits 10 n.natAbs

def InLong (n : Int) : Prop :=
  longMin ≤ n ∧ n ≤ longMax

instance (n : Int) : Decidable (InLong n) :=
  inferInstanceAs (Decidable (_ ∧ _))

theorem inLong_of_le {i : Nat} (hi : i ≤ maxNumberProcesses) : InLong i := by
  have : longMin ≤ 0 ∧ 10 ≤ longMax := by decide
  have : maxNumberProcesses = 10 := rfl
  exact ⟨by omega, by omega⟩

theorem isDigit_of_mem_toDigits {n : Nat} {c : Char} (h : c ∈ Nat.toDigits 10 n) :
    isDigit c = true := by
  have hc : c.isDigit = true := Nat.isDigit_of_mem_toDigits (by decide) (by decide) h
  simpa [isDigit] using Char.isDigit_iff_toNat.1 hc

theorem exists_toDigits_cons (n : Nat) :
    ∃ d ds, Nat.toDigits 10 n = d :: ds ∧ isDigit d = true := by
  cases h : Nat.toDigits 10 n with
  | nil => exact absurd h Nat.toDigits_ne_nil
  | cons d ds => exact ⟨d, ds, rfl, isDigit_of_mem_toDigits (h ▸ List.mem_cons_self)⟩

theorem readDigits_append {ds : List Char} (hds : ∀ d ∈ ds, isDigit d = true) {c : Char}
    (hc : isDigit c = false) (acc : Nat) (rest : List Char) :
    readDigits acc (ds ++ c :: rest) = (Nat.ofDigitChars 10 ds acc, c :: rest) := by
  induction ds generalizing acc with
  | nil => simp [readDigits, hc]
  | cons d ds ih =>
      rw [List.cons_append, readDigits, if_pos (hds d List.mem_cons_self),
        ih (fun x hx => hds x (List.mem_cons_of_mem _ hx)), Nat.ofDigitChars_cons, Nat.mul_comm]
      rfl

theorem readDigits_toDigits {c : Char} (hc : isDigit c = false) (n : Nat) (rest : List Char) :
    readDigits 0 (Nat.toDigits 10 n ++ c :: rest) = (n, c :: rest) := by
  rw [readDigits_append (fun _ => isDigit_of_mem_toDigits) hc, Nat.ofDigitChars_ten_toDigits]

theorem skipSpaces_digit {d : Char} (hd : isDigit d = true) (cs : List Char) :
    skipSpaces (d :: cs) = d :: cs := by
  have hspace : isSpace d = false := by
    by_contra h
    simp only [isSpace, isDigit, Bool.not_eq_false, Bool.or_eq_true, Bool.and_eq_true,
      decide_eq_true_eq] at h hd
    rcases h with rfl | h
    · exact absurd hd.1 (by decide)
    · omega
  rw [skipSpaces, hspace]
  rfl

theorem readSign_digit {d : Char} (hd : isDigit d = true) (cs : List Char) :
    readSign (d :: cs) = (1, d :: cs) := by
  unfold readSign
  split <;> simp_all [isDigit]

theorem strtoll_decimal {n : Int} (hn : InLong n) {c : Char} (hc : isDigit c = false)
    (rest : List Char) : strtoll (decimal n ++ c :: rest) = (n, c :: rest) := by
  obtain ⟨hmin, hmax⟩ := hn
  obtain ⟨d, ds, hds, hd⟩ := exists_toDigits_cons n.natAbs
  have hread := readDigits_toDigits hc n.natAbs rest
  rw [hds, List.cons_append] at hread
  by_cases hneg : n < 0
  · have hsign : readSign (skipSpaces (decimal n ++ c :: rest)) = (-1, d :: (ds ++ c :: rest)) := by
      rw [decimal, if_pos hneg, hds]
      rfl
    rw [strtoll, hsign]
    dsimp only
    rw [if_pos hd, hread, min_eq_right (by omega), max_eq_right (by omega)]
    congr 1
    omega
  · have hsign : readSign (skipSpaces (decimal n ++ c :: rest)) = (1, d :: (ds ++ c :: rest)) := by
      rw [decimal, if_neg hneg, hds, List.cons_append, skipSpaces_digit hd, readSign_digit hd]
    rw [strtoll, hsign]
    dsimp only
    rw [if_pos hd, hread, min_eq_right (by omega), max_eq_right (by omega)]
    congr 1
    omega

theorem nextField_decimal {n : Int} (hn : InLong n) {c : Char} (hc : isDigit c = false)
    (rest : List Char) : nextField (decimal n ++ c :: rest) = rest := by
  rw [nextField, strtoll_decimal hn hc]
  rfl

theorem mem_decimal {n : Int} {c : Char} (h : c ∈ decimal n) : c = '-' ∨ isDigit c = true := by
  rw [decimal] at h
  split at h
  · rcases List.mem_cons.1 h with rfl | h
    · exact .inl rfl
    · exact .inr (isDigit_of_mem_toDigits h)
  · exact .inr (isDigit_of_mem_toDigits h)

theorem not_mem_decimal {n : Int} {c : Char} (hne : c ≠ '-') (hdigit : isDigit c = false) :
    c ∉ decimal n := by
  intro h
  rcases mem_decimal h with rfl | h
  · exact hne rfl
  · rw [hdigit] at h
    cases h

theorem semicolons_decimal (n : Int) (rest : List Char) :
    semicolons (decimal n ++ rest) = semicolons rest := by
  have hskip : ∀ l : List Char, (∀ c ∈ l, c ≠ '\x00' ∧ c ≠ ';') →
      semicolons (l ++ rest) = semicolons rest := by
    intro l
    induction l with
    | nil => exact fun _ => rfl
    | cons c cs ih =>
        intro h
        obtain ⟨hnul, hsemi⟩ := h c List.mem_cons_self
        rw [List.cons_append, semicolons_cons hnul, if_neg hsemi]
        exact ih fun x hx => h x (List.mem_cons_of_mem _ hx)
  refine hskip _ fun c hc => ⟨?_, ?_⟩ <;> rintro rfl
  · exact not_mem_decimal (by decide) (by decide) hc
  · exact not_mem_decimal (by decide) (by decide) hc

/-! ## Entries -/

/-- The fields of an entry of the plan. -/
structure Entry where
  processId : Int
  taskId : Int
  instructionsPlanned : Int
  instructionsReal : Int

namespace Entry

def text (e : Entry) : List Char :=
  decimal e.processId ++ ',' :: (decimal e.taskId ++ ',' ::
    (decimal e.instructionsPlanned ++ ',' :: (decimal e.instructionsReal ++ [';'])))

/-- The entry as a task that has not run. -/
def task (e : Entry) : PbsTask where
  processId := e.processId
  taskId := e.taskId
  instructionsPlanned := e.instructionsPlanned
  instructionsReal := e.instructionsReal
  slotOwner := e.taskId

/-- A free slot or a task of one of `n` processes, with numbers a `long` holds. -/
structure Fits (n : Nat) (e : Entry) : Prop where
  process : e.processId = -1 ∧ e.taskId = -1 ∨ 0 ≤ e.processId ∧ e.processId < n
  taskId : InLong e.taskId
  instructionsPlanned : InLong e.instructionsPlanned
  instructionsReal : InLong e.instructionsReal

theorem Fits.taskPid {n : Nat} {e : Entry} (h : e.Fits n) (hn : n ≤ maxNumberProcesses) :
    TaskPid e.processId := by
  rcases h.process with ⟨hfree, _⟩ | ⟨hpos, hlt⟩
  · exact .inl hfree
  · exact .inr ⟨hpos, by omega⟩

theorem Fits.processId {n : Nat} {e : Entry} (h : e.Fits n) (hn : n ≤ maxNumberProcesses) :
    InLong e.processId := by
  have : longMin ≤ -1 ∧ 10 ≤ longMax := by decide
  have : maxNumberProcesses = 10 := rfl
  rcases h.process with ⟨hfree, _⟩ | ⟨hpos, hlt⟩
  · exact ⟨by omega, by omega⟩
  · exact ⟨by omega, by omega⟩

theorem semicolons_text (e : Entry) (rest : List Char) :
    semicolons (e.text ++ rest) = semicolons rest + 1 := by
  have hcomma : ∀ cs, semicolons (',' :: cs) = semicolons cs :=
    fun cs => semicolons_cons (by decide) cs
  simp only [text, List.append_assoc, List.cons_append, semicolons_decimal, hcomma,
    List.nil_append]
  exact semicolons_cons (by decide) rest

theorem fields_text {n : Nat} {e : Entry} (h : e.Fits n) (hn : n ≤ maxNumberProcesses)
    (rest : List Char) :
    fieldsTask (e.text ++ rest) = e.task ∧ delimited (nextField^[3] (e.text ++ rest)) = true ∧
      nextField^[4] (e.text ++ rest) = rest := by
  have hcomma : isDigit ',' = false := by decide
  have hsemi : isDigit ';' = false := by decide
  have htext : e.text ++ rest = decimal e.processId ++ ',' :: (decimal e.taskId ++ ',' ::
      (decimal e.instructionsPlanned ++ ',' :: (decimal e.instructionsReal ++ ';' :: rest))) := by
    simp [text]
  rw [htext, fieldsTask]
  simp only [Function.iterate_succ_apply, Function.iterate_zero_apply,
    nextField_decimal (h.processId hn) hcomma, nextField_decimal h.taskId hcomma,
    nextField_decimal h.instructionsPlanned hcomma, nextField_decimal h.instructionsReal hsemi,
    strtoll_decimal (h.processId hn) hcomma, strtoll_decimal h.taskId hcomma,
    strtoll_decimal h.instructionsPlanned hcomma, strtoll_decimal h.instructionsReal hsemi]
  refine ⟨rfl, ?_, trivial⟩
  simp [delimited, isDelimiter]

end Entry

/-! ## The task section -/

section

variable {n : Nat} {entries : List Entry}

def entriesText (entries : List Entry) : List Char :=
  entries.flatMap Entry.text

theorem semicolons_entriesText (entries : List Entry) (rest : List Char) :
    semicolons (entriesText entries ++ rest) = entries.length + semicolons rest := by
  induction entries with
  | nil => simp [entriesText]
  | cons e entries ih =>
      rw [entriesText, List.flatMap_cons, List.append_assoc, e.semicolons_text,
        ← entriesText, ih, List.length_cons]
      omega

theorem entriesText_cons (e : Entry) (entries : List Entry) (rest : List Char) :
    entriesText (e :: entries) ++ rest = e.text ++ (entriesText entries ++ rest) := by
  rw [entriesText, List.flatMap_cons, List.append_assoc]
  rfl

theorem fieldsFit_entriesText (hn : n ≤ maxNumberProcesses) (hfits : ∀ e ∈ entries, e.Fits n)
    (rest : List Char) : FieldsFit entries.length (entriesText entries ++ rest) := by
  induction entries with
  | nil => exact fun _ hj => absurd hj (Nat.not_lt_zero _)
  | cons e entries ih =>
      have he := hfits e List.mem_cons_self
      obtain ⟨htask, hd, hnext⟩ := e.fields_text he hn (entriesText entries ++ rest)
      have hpid := congrArg PbsTask.processId htask
      rw [List.length_cons, entriesText_cons, fieldsFit_succ, hnext]
      exact ⟨⟨hd, (congrArg TaskPid hpid).mpr (he.taskPid hn)⟩,
        ih fun x hx => hfits x (List.mem_cons_of_mem _ hx)⟩

theorem fieldTasks_entriesText (hn : n ≤ maxNumberProcesses) (hfits : ∀ e ∈ entries, e.Fits n)
    (rest : List Char) :
    fieldTasks entries.length (entriesText entries ++ rest) = entries.map Entry.task := by
  induction entries with
  | nil => rfl
  | cons e entries ih =>
      obtain ⟨htask, _, hnext⟩ := e.fields_text (hfits e List.mem_cons_self) hn
        (entriesText entries ++ rest)
      rw [List.length_cons, entriesText_cons, fieldTasks, htask, hnext,
        ih fun x hx => hfits x (List.mem_cons_of_mem _ hx), List.map_cons]

theorem lengthFrom_terminated (l : List PbsTask) {t : PbsTask} (ht : t.taskId = -2)
    (post : List PbsTask) : lengthFrom (l ++ t :: post) =
      .ok ((l.takeWhile (·.taskId ≠ -2)).map PbsTask.instructionsPlanned).sum := by
  induction l with
  | nil => simp [lengthFrom, ht]
  | cons u l ih =>
      rw [List.cons_append, lengthFrom]
      by_cases hu : u.taskId = -2
      · simp [hu]
      · rw [if_neg hu, ih, ok_bind, List.takeWhile_cons, if_pos (by simpa using hu),
          List.map_cons, List.sum_cons]
        rfl

theorem parseTasks_entriesText_append (hn : n ≤ maxNumberProcesses)
    (hfits : ∀ e ∈ entries, e.Fits n) {rest : List Char} (hnul : '\x00' ∈ rest)
    (hsemi : semicolons rest = 0) {p : PbsPlan} {old post : List PbsTask} {t : PbsTask}
    (hp : p.tasks.toList = old ++ t :: post) (hold : old.length = entries.length) :
    parseTasks (entriesText entries ++ rest) p =
      .ok ({ p with
        numTasks := entries.length
        processes := (entries.map Entry.task).foldl tallyTask p.processes }.withTasks
        (entries.map Entry.task ++ { t with taskId := -2, processId := -2 } :: post)) := by
  have hcount : semicolons (entriesText entries ++ rest) = entries.length := by
    rw [semicolons_entriesText, hsemi, Nat.add_zero]
  have hparse := parseTasks_eq (List.mem_append_right _ hnul)
    (by rw [hcount]; exact fieldsFit_entriesText hn hfits _) hp (hold.trans hcount.symm)
  rw [hcount, fieldTasks_entriesText hn hfits] at hparse
  exact hparse

theorem parseTasks_entriesText (hn : n ≤ maxNumberProcesses) (hfits : ∀ e ∈ entries, e.Fits n)
    {p : PbsPlan} {old post : List PbsTask} {t : PbsTask} (hp : p.tasks.toList = old ++ t :: post)
    (hold : old.length = entries.length) :
    parseTasks (entriesText entries ++ ['\x00']) p =
      .ok ({ p with
        numTasks := entries.length
        processes := (entries.map Entry.task).foldl tallyTask p.processes }.withTasks
        (entries.map Entry.task ++ { t with taskId := -2, processId := -2 } :: post)) :=
  parseTasks_entriesText_append hn hfits List.mem_cons_self rfl hp hold

end

/-! ## The meta section -/

/-- The entries of the process table, from process `i` on. -/
def processesText : Nat → List Int → List Char
  | _, [] => []
  | i, buffer :: buffers =>
      decimal i ++ ',' :: (decimal buffer ++ ';' :: processesText (i + 1) buffers)

theorem exists_decimal_cons (n : Int) :
    ∃ c cs, decimal n = c :: cs ∧ isDelimiter c = false := by
  obtain ⟨d, ds, hds, hd⟩ := exists_toDigits_cons n.natAbs
  rw [decimal]
  split
  · exact ⟨'-', _, rfl, by decide⟩
  · refine ⟨d, ds, hds, ?_⟩
    by_contra h
    simp only [isDelimiter, Bool.not_eq_false, Bool.or_eq_true, decide_eq_true_eq] at h
    rcases h with (rfl | rfl) | rfl <;> exact absurd hd (by decide)

theorem parseCurSymbol_decimal (n : Int) (rest : List Char) :
    parseCurSymbol (decimal n ++ rest) = .ok .number := by
  obtain ⟨c, cs, hcs, hc⟩ := exists_decimal_cons n
  obtain ⟨symbol, hsymbol, hnumber⟩ := parseCurSymbol_cons c (cs ++ rest)
  rw [hcs, List.cons_append, hsymbol, hnumber.2 hc]

theorem processesText_cons (i : Nat) (buffer : Int) (buffers : List Int) (rest : List Char) :
    processesText i (buffer :: buffers) ++ rest =
      decimal i ++ ',' :: (decimal buffer ++ ';' :: (processesText (i + 1) buffers ++ rest)) := by
  simp [processesText]

theorem processFields {i : Nat} (hi : i ≤ maxNumberProcesses) {buffer : Int}
    (hbuffer : InLong buffer) {rest str : List Char}
    (hstr : str = decimal i ++ ',' :: (decimal buffer ++ ';' :: rest)) :
    (strtoll str).1 = i ∧ (strtoll (nextField str)).1 = buffer ∧
      nextField (nextField str) = rest ∧ delimited (nextField str) = true ∧
      ¬ [';', ';'] <+: str := by
  have hlong := inLong_of_le hi
  have hcomma : isDigit ',' = false := by decide
  have hsemi : isDigit ';' = false := by decide
  have hnext : nextField str = decimal buffer ++ ';' :: rest := by
    rw [hstr, nextField_decimal hlong hcomma]
  refine ⟨?_, ?_, ?_, ?_, ?_⟩
  · rw [hstr, strtoll_decimal hlong hcomma]
  · rw [hnext, strtoll_decimal hbuffer hsemi]
  · rw [hnext, nextField_decimal hbuffer hsemi]
  · simp [hnext, delimited, isDelimiter]
  · rintro ⟨cs, hcs⟩
    have hsymbol := parseCurSymbol_decimal i (',' :: (decimal buffer ++ ';' :: rest))
    rw [← hstr, ← hcs] at hsymbol
    cases hsymbol

theorem header_processesText {buffers : List Int} (hbuffers : ∀ b ∈ buffers, InLong b)
    {counter : Nat} (hcounter : counter + buffers.length ≤ maxNumberProcesses) (n : Int)
    (rest : List Char) :
    Header true n (processesText counter buffers ++ ';' :: ';' :: rest) buffers.length n rest := by
  induction buffers generalizing counter with
  | nil => exact .finish true n rest
  | cons buffer buffers ih =>
      rw [List.length_cons] at hcounter
      obtain ⟨_, _, hnext, _, hfinish⟩ := processFields
        (show counter ≤ maxNumberProcesses by omega) (hbuffers buffer List.mem_cons_self)
        (processesText_cons counter buffer buffers (';' :: ';' :: rest))
      refine .entry (.inl rfl) hfinish ?_
      rw [hnext]
      exact ih (fun b hb => hbuffers b (List.mem_cons_of_mem _ hb)) (by omega)

theorem fieldsProcess_processesText {buffers : List Int} (hbuffers : ∀ b ∈ buffers, InLong b)
    {counter : Nat} (hcounter : counter + buffers.length ≤ maxNumberProcesses) (rest : List Char)
    {i : Nat} {b : Int} (hi : buffers[i]? = some b) :
    fieldsProcess (nextField^[2 * i] (processesText counter buffers ++ rest)) =
      { processId := counter + i, buffer := b } := by
  induction buffers generalizing counter i with
  | nil => cases hi
  | cons buffer buffers ih =>
      rw [List.length_cons] at hcounter
      obtain ⟨hpid, hbuffer, hnext, _, _⟩ := processFields
        (show counter ≤ maxNumberProcesses by omega) (hbuffers buffer List.mem_cons_self)
        (processesText_cons counter buffer buffers rest)
      cases i with
      | zero =>
          obtain rfl : buffer = b := Option.some.inj hi
          rw [Nat.mul_zero, Function.iterate_zero_apply, fieldsProcess, hpid, hbuffer]
          simp
      | succ i =>
          have hlater := ih (fun b hb => hbuffers b (List.mem_cons_of_mem _ hb))
            (show counter + 1 + buffers.length ≤ maxNumberProcesses by omega) hi
          rw [Nat.mul_succ, Function.iterate_add_apply]
          change fieldsProcess (nextField^[2 * i] (nextField (nextField _))) = _
          rw [hnext, hlater]
          congr 1
          omega

/-! ## The plan -/

/-- The text of a plan: `n;`, then `pid,buffer;` for every process, then `;;`, then
`pid,tid,planned,real;` for every entry. -/
def planText (buffers : List Int) (entries : List Entry) : List Char :=
  decimal buffers.length ++ ';' ::
    (processesText 0 buffers ++ ';' :: ';' :: entriesText entries)

/-- What `p` holds when it was read from the text of `buffers` and `entries`. -/
structure ReadsBack (buffers : List Int) (entries : List Entry) (p : PbsPlan) : Prop where
  numTasks : p.numTasks = entries.length
  tasks : p.tasks.toList.take p.numTasks = entries.map Entry.task
  terminator : p.readTask p.numTasks = .ok { taskId := -2, processId := -2 }
  numProcesses : p.numProcesses = buffers.length
  numberProcessesInPlan : numberProcessesInPlan p = .ok buffers.length
  processes : ∀ (i : Nat) b, buffers[i]? = some b → p.readProcess i = .ok
    { processId := i
      buffer := b
      numTasksRemaining := entries.countP fun e => e.processId = (i : Int)
      lengthPlan := ((entries.filter fun e => e.processId = (i : Int)).map
        Entry.instructionsPlanned).sum }
  instructionsPlanned : p.instructionsPlanned =
    ((entries.takeWhile (·.taskId ≠ -2)).map Entry.instructionsPlanned).sum

theorem planText_append (buffers : List Int) (entries : List Entry) (rest : List Char) :
    planText buffers entries ++ rest = decimal buffers.length ++ ';' ::
      (processesText 0 buffers ++ ';' :: ';' :: (entriesText entries ++ rest)) := by
  simp [planText]

theorem planText_append_nul (buffers : List Int) (entries : List Entry) :
    planText buffers entries ++ ['\x00'] = decimal buffers.length ++ ';' ::
      (processesText 0 buffers ++ ';' :: ';' :: (entriesText entries ++ ['\x00'])) :=
  planText_append buffers entries ['\x00']

theorem parseMeta_header {buffers : List Int} (hbuffers : ∀ b ∈ buffers, InLong b)
    (hlen : buffers.length < maxNumberProcesses) {text rest : List Char}
    (htext : text ++ ['\x00'] =
      decimal buffers.length ++ ';' :: (processesText 0 buffers ++ ';' :: ';' :: rest))
    (p : PbsPlan) :
    ∃ v, parseMeta (text ++ ['\x00']) p =
        .ok (rest, { p with numProcesses := buffers.length, processes := v }) ∧
      (∀ (i : Nat) b, buffers[i]? = some b →
        processAt v i = { processId := i, buffer := b }) ∧
      (processAt v buffers.length).processId = -2 := by
  have hsemi : isDigit ';' = false := by decide
  have hlong := inLong_of_le hlen.le
  obtain ⟨v, hv, hlisted, _⟩ := (header_processesText hbuffers
      (show 0 + buffers.length ≤ maxNumberProcesses by omega) buffers.length rest).lists
    (p := { p with numProcesses := buffers.length })
    (show buffers.length < maxNumberProcesses + 1 by omega)
    (show 0 + buffers.length ≤ maxNumberProcesses by omega)
  have hidle : ProcessIndex buffers.length := ⟨by omega, by omega⟩
  refine ⟨updateProcess v buffers.length fun q =>
    { q with processId := -2, buffer := -2, lengthPlan := 0 }, ?_, ?_, ?_⟩
  · rw [parseMeta, htext, parseMetaLoop_number (parseCurSymbol_decimal _ _)
      (by simp [delimited, isDelimiter]), nextField_decimal hlong hsemi,
      strtoll_decimal hlong hsemi, hv, ok_bind]
    dsimp only
    rw [modifyProcess_eq hidle]
    rfl
  · intro i b hi
    have hlt := (List.getElem?_eq_some_iff.1 hi).1
    have hentry := hlisted i hlt
    rw [fieldsProcess_processesText hbuffers (by omega) _ hi] at hentry
    rw [processAt_updateProcess _ _ hidle, if_neg (by omega)]
    simpa using hentry
  · rw [processAt_updateProcess _ _ hidle, if_pos rfl]

theorem parseMeta_planText {buffers : List Int} (hbuffers : ∀ b ∈ buffers, InLong b)
    (hlen : buffers.length < maxNumberProcesses) (entries : List Entry) (p : PbsPlan) :
    ∃ v, parseMeta (planText buffers entries ++ ['\x00']) p =
        .ok (entriesText entries ++ ['\x00'],
          { p with numProcesses := buffers.length, processes := v }) ∧
      (∀ (i : Nat) b, buffers[i]? = some b →
        processAt v i = { processId := i, buffer := b }) ∧
      (processAt v buffers.length).processId = -2 :=
  parseMeta_header hbuffers hlen (planText_append_nul buffers entries) p

theorem countProcessesFrom_eq {l : List PbsProcess} {n : Nat} {q : PbsProcess}
    (hlt : ∀ i < n, ∃ r, l[i]? = some r ∧ r.processId ≠ -2) (hn : l[n]? = some q)
    (hq : q.processId = -2) : countProcessesFrom l = .ok n := by
  induction n generalizing l with
  | zero =>
      cases l with
      | nil => cases hn
      | cons r l =>
          obtain rfl : r = q := Option.some.inj hn
          rw [countProcessesFrom, if_pos hq]
  | succ n ih =>
      cases l with
      | nil => cases hn
      | cons r l =>
          obtain ⟨r', hr, hne⟩ := hlt 0 (Nat.succ_pos n)
          obtain rfl : r = r' := Option.some.inj hr
          rw [countProcessesFrom, if_neg hne, ih (fun i hi => hlt (i + 1) (by omega)) hn]
          rfl

theorem getElem?_processes (v : Vector PbsProcess maxNumberProcesses) {i : Nat}
    (hi : i < maxNumberProcesses) : v.toList[i]? = some (processAt v i) := by
  have hindex : ProcessIndex i := ⟨by omega, by simpa using hi⟩
  rw [processAt, dif_pos hindex, List.getElem?_eq_getElem (by simpa using hi),
    Vector.getElem_toList]
  rfl

theorem processTotal_map_task (value : PbsTask → Int) (i : Int) (entries : List Entry) :
    processTotal value i (entries.map Entry.task) =
      ((entries.filter fun e => e.processId = i).map fun e => value e.task).sum := by
  rw [processTotal, total, List.filter_map, List.map_map]
  rfl

section

variable {buffers : List Int} {entries : List Entry}

theorem processAt_counted (entries : List Entry) {v : Vector PbsProcess maxNumberProcesses}
    {i : Nat} (hi : i < maxNumberProcesses) {b : Int}
    (hv : processAt v i = { processId := i, buffer := b }) :
    processAt ((entries.map Entry.task).foldl tallyTask v) i =
      { processId := i
        buffer := b
        numTasksRemaining := entries.countP fun e => e.processId = (i : Int)
        lengthPlan := ((entries.filter fun e => e.processId = (i : Int)).map
          Entry.instructionsPlanned).sum } := by
  have hcount : processTotal (fun _ => 1) i (entries.map Entry.task) =
      entries.countP fun e => e.processId = (i : Int) := by
    rw [processTotal_map_task, List.countP_eq_length_filter, List.map_const', List.sum_replicate]
    simp
  rw [processAt_foldl_tallyTask _ _ ⟨by omega, by simpa using hi⟩, hv, hcount,
    processTotal_map_task]
  simp only [Int.zero_add]
  rfl

theorem readsBack_of {q : PbsPlan} {v : Vector PbsProcess maxNumberProcesses}
    {post : List PbsTask} (hlen : buffers.length < maxNumberProcesses)
    (htasks : q.tasks.toList =
      entries.map Entry.task ++ { taskId := -2, processId := -2 } :: post)
    (hprocesses : q.processes = (entries.map Entry.task).foldl tallyTask v)
    (hnumTasks : q.numTasks = entries.length) (hnumProcesses : q.numProcesses = buffers.length)
    (hplanned : q.instructionsPlanned =
      ((entries.takeWhile (·.taskId ≠ -2)).map Entry.instructionsPlanned).sum)
    (hlisted : ∀ (i : Nat) b, buffers[i]? = some b →
      processAt v i = { processId := i, buffer := b })
    (hidle : (processAt v buffers.length).processId = -2) : ReadsBack buffers entries q := by
  have hindex : ∀ i ≤ buffers.length, ProcessIndex i := fun i hi => ⟨by omega, by simp; omega⟩
  have hentry : ∀ (i : Nat) b, buffers[i]? = some b → _ :=
    fun i b hi => processAt_counted entries
      (lt_trans (List.getElem?_eq_some_iff.1 hi).1 hlen) (hlisted i b hi)
  have hcount : numberProcessesInPlan q = .ok buffers.length := by
    refine countProcessesFrom_eq (fun i hi => ?_) (getElem?_processes q.processes hlen) ?_
    · refine ⟨_, getElem?_processes q.processes (by omega), ?_⟩
      rw [hprocesses, hentry i _ (List.getElem?_eq_getElem hi)]
      dsimp only
      omega
    · rw [hprocesses, processAt_foldl_tallyTask _ _ (hindex _ (Nat.le_refl _))]
      exact hidle
  have hterminator : q.readTask q.numTasks = .ok { taskId := -2, processId := -2 } := by
    have hjoint := readTask_joint htasks
    rwa [List.length_map, ← hnumTasks] at hjoint
  refine ⟨hnumTasks, ?_, hterminator, hnumProcesses, hcount, fun i b hi => ?_, hplanned⟩
  · rw [htasks, hnumTasks]
    exact List.take_left' (List.length_map _)
  · rw [readProcess_eq (hindex i (List.getElem?_eq_some_iff.1 hi).1.le), hprocesses, hentry i b hi]

/-- A plan with at most nine processes and at most 399 entries is read back from its text.
The length of the plan is that of all entries when none has the task id of the terminator. -/
theorem planText_roundTrip (hlen : buffers.length ≤ 9) (hbuffers : ∀ b ∈ buffers, InLong b)
    (hentries : entries.length ≤ 399) (hfits : ∀ e ∈ entries, e.Fits buffers.length) :
    ∃ p, parsePlan (planText buffers entries) zeroedPlan = .ok p ∧
      ReadsBack buffers entries p := by
  have hmax : maxNumberProcesses = 10 := rfl
  have hmaxTasks : maxNumberTasksInPlan = 400 := rfl
  obtain ⟨v, hmeta, hlisted, hidle⟩ :=
    parseMeta_planText hbuffers (by omega) entries zeroedPlan
  set zeros := List.replicate (maxNumberTasksInPlan - entries.length - 1) zeroedTask with hzeros
  have hold : zeroedPlan.tasks.toList =
      List.replicate entries.length zeroedTask ++ zeroedTask :: zeros :=
    zeroedPlan_tasks (by omega)
  have htasks := parseTasks_entriesText (by omega) hfits
    (p := { zeroedPlan with numProcesses := buffers.length, processes := v }) hold (by simp)
  have hall := toList_withTasks (p := { zeroedPlan with
      numProcesses := buffers.length
      numTasks := entries.length
      processes := (entries.map Entry.task).foldl tallyTask v })
    (l := entries.map Entry.task ++ { zeroedTask with taskId := -2, processId := -2 } :: zeros)
    (by simp [zeros]; omega)
  have hlength := lengthFrom_terminated (entries.map Entry.task)
    (t := { zeroedTask with taskId := -2, processId := -2 }) rfl zeros
  rw [← hall] at hlength
  refine ⟨_, parsePlan_eq hmeta htasks hlength,
    readsBack_of (by omega) hall rfl rfl rfl ?_ hlisted hidle⟩
  rw [List.takeWhile_map, List.map_map]
  rfl

end

theorem planText_two : "2;0,50;1,-1;;;0,7,100,90;-1,-1,20,0;1,8,30,40;".toList =
    planText [50, -1] [⟨0, 7, 100, 90⟩, ⟨-1, -1, 20, 0⟩, ⟨1, 8, 30, 40⟩] := by
  decide +kernel

theorem fits_two :
    ∀ e ∈ [⟨0, 7, 100, 90⟩, ⟨-1, -1, 20, 0⟩, ⟨1, 8, 30, 40⟩], Entry.Fits 2 e := by
  simp only [List.forall_mem_cons, List.not_mem_nil, false_implies, implies_true, and_true]
  exact ⟨⟨by decide, by decide, by decide, by decide⟩, ⟨by decide, by decide, by decide, by decide⟩,
    ⟨by decide, by decide, by decide, by decide⟩⟩

/-- Two processes, and a free slot between their tasks. -/
theorem planText_roundTrip_two :
    ∃ p, parsePlan "2;0,50;1,-1;;;0,7,100,90;-1,-1,20,0;1,8,30,40;".toList zeroedPlan = .ok p ∧
      ReadsBack [50, -1] [⟨0, 7, 100, 90⟩, ⟨-1, -1, 20, 0⟩, ⟨1, 8, 30, 40⟩] p := by
  rw [planText_two]
  exact planText_roundTrip (by decide) (by decide) (by decide) fits_two

/-- A task with the id of the terminator ends the sum of `calculate_length_plan`. -/
theorem planText_cutShort :
    Entry.Fits 1 ⟨0, -2, 10, 10⟩ ∧
      ¬ ∃ p, parsePlan (planText [0] [⟨0, -2, 10, 10⟩]) zeroedPlan = .ok p ∧
        p.instructionsPlanned = 10 := by
  refine ⟨⟨by decide, by decide, by decide, by decide⟩, ?_⟩
  have hsum : ((parsePlan (planText [0] [⟨0, -2, 10, 10⟩]) zeroedPlan).map
      PbsPlan.instructionsPlanned) = .ok 0 := by
    decide +kernel
  rintro ⟨p, hp, hplanned⟩
  rw [hp] at hsum
  have hzero : p.instructionsPlanned = 0 := Except.ok.inj hsum
  omega

end PbsLevel2
