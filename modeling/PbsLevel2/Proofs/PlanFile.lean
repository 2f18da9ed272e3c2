import PbsLevel2.Proofs.RoundTrip
import PbsLevel2.Source.Main

/-!
# Plan files

`read_plan` gives the parser the first line of the file, whatever the buffer held before and
whatever stands behind that line.
-/

namespace PbsLevel2

open Lib

/-! ## Lines -/

section Line

variable {n : Nat} {pre post l : List Char}

theorem length_readLine_le (n : Nat) (l : List Char) : (readLine n l).length ≤ l.length := by
  induction n generalizing l with
  | zero => exact Nat.zero_le _
  | succ n ih =>
      cases l with
      | nil => exact Nat.le_refl _
      | cons c cs =>
          rw [readLine]
          by_cases hc : c = '\n'
          · rw [if_pos hc]
            simp
          · rw [if_neg hc]
            simpa using ih cs

theorem readLine_newline (hpre : '\n' ∉ pre) (hn : pre.length < n) (post : List Char) :
    readLine n (pre ++ '\n' :: post) = pre ++ ['\n'] := by
  induction pre generalizing n with
  | nil =>
      cases n with
      | zero => exact absurd hn (Nat.not_lt_zero _)
      | succ n => rw [List.nil_append, readLine, if_pos rfl, List.nil_append]
  | cons c pre ih =>
      obtain ⟨hc, hpre⟩ := List.ne_and_not_mem_of_not_mem_cons hpre
      cases n with
      | zero => exact absurd hn (Nat.not_lt_zero _)
      | succ n =>
          rw [List.cons_append, readLine, if_neg (Ne.symm hc), ih hpre (Nat.lt_of_succ_lt_succ hn)]
          rfl

theorem readLine_eof (hl : '\n' ∉ l) (hn : l.length ≤ n) : readLine n l = l := by
  induction l generalizing n with
  | nil => cases n <;> rfl
  | cons c l ih =>
      obtain ⟨hc, hl⟩ := List.ne_and_not_mem_of_not_mem_cons hl
      cases n with
      | zero => exact absurd hn (Nat.not_succ_le_zero _)
      | succ n => rw [readLine, if_neg (Ne.symm hc), ih hl (Nat.le_of_succ_le_succ hn)]

/-! ## Buffers -/

theorem cString_append_nul (hl : '\x00' ∉ l) (post : List Char) :
    cString (l ++ '\x00' :: post) = l := by
  have hall : ∀ c ∈ l, decide (c ≠ '\x00') = true := by
    intro c hc
    rw [decide_eq_true_eq]
    rintro rfl
    exact hl hc
  rw [cString, List.takeWhile_append_of_pos hall, List.takeWhile_cons_of_neg (by simp),
    List.append_nil]

theorem cString_set (hl : '\x00' ∉ l) (post : List Char) {i : Nat} (hi : l.length ≤ i) :
    cString ((l ++ '\x00' :: post).set i '\x00') = l := by
  obtain ⟨d, rfl⟩ := Nat.exists_eq_add_of_le hi
  rw [List.set_append_right _ _ hi, Nat.add_sub_cancel_left]
  cases d with
  | zero => exact cString_append_nul hl post
  | succ d => exact cString_append_nul hl (post.set d '\x00')

end Line

theorem readPlan_line {file buffer : List Char} (hsize : file.length + 1 < 2 ^ 31)
    (hbuffer : buffer.length = file.length + 1) (hnul : '\x00' ∉ readLine file.length file) :
    ∃ planString, readPlan file buffer (getFileSize file) = .ok planString ∧
      cString planString = readLine file.length file := by
  have hint : toInt (getFileSize file) = file.length + 1 := by
    rw [toInt, getFileSize, Int.bmod_eq_of_le_mul_two (by omega) (by omega)]
  have hends : ¬ ((file.length : Int) + 1 ≤ 0 ∨ (file.length : Int) + 1 ≠ 1 ∧ file = []) := by
    rintro (hle | ⟨hne, rfl⟩)
    · omega
    · exact hne rfl
  have hline := length_readLine_le file.length file
  set line := readLine file.length file
  have hfgets : fgets buffer (file.length + 1) file =
      .ok (line ++ '\x00' :: buffer.drop (line.length + 1)) := by
    rw [fgets, if_neg hends, Int.add_sub_cancel, Int.toNat_natCast]
    dsimp only
    rw [if_pos (show line.length < buffer.length by omega)]
  refine ⟨(line ++ '\x00' :: buffer.drop (line.length + 1)).set file.length '\x00', ?_,
    cString_set hnul _ hline⟩
  have hlast : 1 ≤ getFileSize file ∧ (getFileSize file - 1).toNat <
      (line ++ '\x00' :: buffer.drop (line.length + 1)).length := by
    rw [getFileSize, Int.add_sub_cancel, Int.toNat_natCast]
    simp only [List.length_append, List.length_cons, List.length_drop]
    omega
  rw [readPlan, hint, hfgets, ok_bind, if_pos hlast, getFileSize, Int.add_sub_cancel, Int.toNat_natCast]
  rfl

/-! ## Plans in files -/

section PlanText

variable {buffers : List Int} {entries : List Entry} {c : Char}

theorem mem_processesText {i : Nat} (h : c ∈ processesText i buffers) :
    c = ',' ∨ c = ';' ∨ ∃ n, c ∈ decimal n := by
  induction buffers generalizing i with
  | nil => cases h
  | cons b buffers ih =>
      rw [processesText, List.mem_append, List.mem_cons, List.mem_append, List.mem_cons] at h
      rcases h with h | h | h | h | h
      · exact .inr (.inr ⟨_, h⟩)
      · exact .inl h
      · exact .inr (.inr ⟨_, h⟩)
      · exact .inr (.inl h)
      · exact ih h

theorem Entry.mem_text {e : Entry} (h : c ∈ e.text) : c = ',' ∨ c = ';' ∨ ∃ n, c ∈ decimal n := by
  simp only [Entry.text, List.mem_append, List.mem_cons, List.not_mem_nil, or_false] at h
  rcases h with h | h | h | h | h | h | h | h
  · exact .inr (.inr ⟨_, h⟩)
  · exact .inl h
  · exact .inr (.inr ⟨_, h⟩)
  · exact .inl h
  · exact .inr (.inr ⟨_, h⟩)
  · exact .inl h
  · exact .inr (.inr ⟨_, h⟩)
  · exact .inr (.inl h)

theorem mem_planText (h : c ∈ planText buffers entries) :
    c = ',' ∨ c = ';' ∨ ∃ n, c ∈ decimal n := by
  rw [planText, List.mem_append, List.mem_cons, List.mem_append, List.mem_cons, List.mem_cons] at h
  rcases h with h | h | h | h | h | h
  · exact .inr (.inr ⟨_, h⟩)
  · exact .inr (.inl h)
  · exact mem_processesText h
  · exact .inr (.inl h)
  · exact .inr (.inl h)
  · obtain ⟨e, _, he⟩ := List.mem_flatMap.1 h
    exact e.mem_text he

theorem not_mem_planText (hcomma : c ≠ ',') (hsemi : c ≠ ';') (hsign : c ≠ '-')
    (hdigit : isDigit c = false) : c ∉ planText buffers entries := by
  intro h
  rcases mem_planText h with rfl | rfl | ⟨n, h⟩
  · exact hcomma rfl
  · exact hsemi rfl
  · exact not_mem_decimal hsign hdigit h

theorem parsePlan_planText_append (hlen : buffers.length ≤ 9) (hbuffers : ∀ b ∈ buffers, InLong b)
    (hentries : entries.length ≤ 399) (hfits : ∀ e ∈ entries, e.Fits buffers.length)
    {rest : List Char} (hrest : semicolons (rest ++ ['\x00']) = 0) :
    ∃ p, parsePlan (planText buffers entries ++ rest) zeroedPlan = .ok p ∧
      ReadsBack buffers entries p := by
  have hmax : maxNumberProcesses = 10 := rfl
  have hmaxTasks : maxNumberTasksInPlan = 400 := rfl
  have htext := planText_append buffers entries (rest ++ ['\x00'])
  rw [← List.append_assoc] at htext
  obtain ⟨v, hmeta, hlisted, hidle⟩ := parseMeta_header hbuffers (by omega) htext zeroedPlan
  set zeros := List.replicate (maxNumberTasksInPlan - entries.length - 1) zeroedTask
  have hold : zeroedPlan.tasks.toList =
      List.replicate entries.length zeroedTask ++ zeroedTask :: zeros :=
    zeroedPlan_tasks (by omega)
  have htasks := parseTasks_entriesText_append (by omega) hfits
    (List.mem_append_right _ List.mem_cons_self) hrest
    (p := { zeroedPlan with numProcesses := buffers.length, processes := v }) hold (by simp)
  have hall := toList_withTasks (p := { zeroedPlan with
      numProcesses := buffers.length
      numTasks := entries.length
      processes := (entries.map Entry.task).foldl tallyTask v })
    (l := entries.map Entry.task ++ { zeroedTask with taskId := -2, processId := -2 } :: zeros)
    (by simp [zeros]; omega)
  have hlength := lengthFrom_terminated (entries.map Entry.task)
    (t := { zeroedTask with taskId := -2, processId := -2 }) rfl zeros
  rw [← hall] at hlength
  refine ⟨_, parsePlan_eq hmeta htasks hlength,
    readsBack_of (by omega) hall rfl rfl rfl ?_ hlisted hidle⟩
  rw [List.takeWhile_map, List.map_map]
  rfl

/-- What `read_plan` leaves of a file with a plan on its first line. -/
theorem readPlan_planText {file more : List Char}
    (hfile : file = planText buffers entries ∨ file = planText buffers entries ++ '\n' :: more)
    (hsize : file.length + 1 < 2 ^ 31) {buffer : List Char}
    (hbuffer : buffer.length = file.length + 1) :
    ∃ planString rest, readPlan file buffer (getFileSize file) = .ok planString ∧
      cString planString = planText buffers entries ++ rest ∧
      semicolons (rest ++ ['\x00']) = 0 := by
  have hnul : '\x00' ∉ planText buffers entries :=
    not_mem_planText (by decide) (by decide) (by decide) (by decide)
  have hnewline : '\n' ∉ planText buffers entries :=
    not_mem_planText (by decide) (by decide) (by decide) (by decide)
  obtain ⟨rest, hline, hrest, hsemi⟩ : ∃ rest, readLine file.length file =
      planText buffers entries ++ rest ∧ '\x00' ∉ rest ∧ semicolons (rest ++ ['\x00']) = 0 := by
    rcases hfile with rfl | rfl
    · refine ⟨[], ?_, by decide, by decide⟩
      rw [readLine_eof hnewline (Nat.le_refl _), List.append_nil]
    · refine ⟨['\n'], ?_, by decide, by decide⟩
      exact readLine_newline hnewline (by simp) more
  have hplain : '\x00' ∉ readLine file.length file := by
    rw [hline, List.mem_append]
    exact fun h => h.elim hnul hrest
  obtain ⟨planString, hread, hstring⟩ := readPlan_line hsize hbuffer hplain
  exact ⟨planString, rest, hread, hstring.trans hline, hsemi⟩

theorem called_ok {α : Type} (a : α) : called (.ok a : Exec α) = .ok a := rfl

/-- A plan on the first line of a file is read back from what `read_plan` leaves of the file,
whatever follows that line and whatever the buffer held before; the test accepts it if it has three
processes. -/
theorem planFile_roundTrip {file more : List Char} (garbage : Nat → Char)
    (hlen : buffers.length ≤ 9) (hbuffers : ∀ b ∈ buffers, InLong b)
    (hentries : entries.length ≤ 399) (hfits : ∀ e ∈ entries, e.Fits buffers.length)
    (hfile : file = planText buffers entries ∨ file = planText buffers entries ++ '\n' :: more)
    (hsize : file.length + 1 < 2 ^ 31) :
    ∃ planString p,
      readPlan file ((List.range (getFileSize file).toNat).map garbage) (getFileSize file) =
        .ok planString ∧
      parsePlan (cString planString) zeroedPlan = .ok p ∧ ReadsBack buffers entries p ∧
      testPlanParsing garbage file zeroedPlan =
        if buffers.length = 3 then .ok p else .error .testPlanParsing := by
  have hbuffer : ((List.range (getFileSize file).toNat).map garbage).length = file.length + 1 := by
    rw [List.length_map, List.length_range, getFileSize]
    omega
  obtain ⟨planString, rest, hread, hstring, hrest⟩ := readPlan_planText hfile hsize hbuffer
  obtain ⟨p, hparse, hback⟩ := parsePlan_planText_append hlen hbuffers hentries hfits hrest
  refine ⟨planString, p, hread, hstring ▸ hparse, hback, ?_⟩
  rw [testPlanParsing, hread, called_ok, ok_bind, hstring, hparse, called_ok, ok_bind,
    hback.numberProcessesInPlan, called_ok, ok_bind]
  by_cases hthree : buffers.length = 3
  · rw [if_pos hthree, if_pos (by omega)]
    rfl
  · rw [if_neg hthree, if_neg (by omega)]
    rfl

end PlanText

theorem planText_three : "3;0,50;1,-1;2,0;;;0,7,100,90;-1,-1,20,0;2,8,30,40;\n1;;;5".toList =
    planText [50, -1, 0] [⟨0, 7, 100, 90⟩, ⟨-1, -1, 20, 0⟩, ⟨2, 8, 30, 40⟩] ++
      '\n' :: "1;;;5".toList := by
  decide +kernel

/-- Behind the plan stands another line, and the buffer was full of digits. -/
theorem planFile_roundTrip_lines :
    ∃ file planString p,
      file = "3;0,50;1,-1;2,0;;;0,7,100,90;-1,-1,20,0;2,8,30,40;\n1;;;5".toList ∧
      readPlan file ((List.range (getFileSize file).toNat).map fun _ => '7') (getFileSize file) =
        .ok planString ∧
      parsePlan (cString planString) zeroedPlan = .ok p ∧
      ReadsBack [50, -1, 0] [⟨0, 7, 100, 90⟩, ⟨-1, -1, 20, 0⟩, ⟨2, 8, 30, 40⟩] p ∧
      testPlanParsing (fun _ => '7') file zeroedPlan = .ok p := by
  have hfits : ∀ e ∈ [⟨0, 7, 100, 90⟩, ⟨-1, -1, 20, 0⟩, ⟨2, 8, 30, 40⟩], Entry.Fits 3 e := by
    simp only [List.forall_mem_cons, List.not_mem_nil, false_implies, implies_true, and_true]
    exact ⟨⟨by decide, by decide, by decide, by decide⟩,
      ⟨by decide, by decide, by decide, by decide⟩, ⟨by decide, by decide, by decide, by decide⟩⟩
  obtain ⟨planString, p, hread, hparse, hback, htest⟩ :=
    planFile_roundTrip (fun _ => '7') (by decide) (by decide) (by decide) hfits
      (.inr planText_three) (by decide)
  exact ⟨_, planString, p, rfl, hread, hparse, hback, htest⟩

end PbsLevel2
