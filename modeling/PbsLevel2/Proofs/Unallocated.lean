import PbsLevel2.Proofs.Substitution

/-!
# Unallocated slots

What `handle_unallocated_slot` makes of the task list.  The entries behind the chosen task move
one place forward, and the preemption mark is cleared through the pointer to the place that
task had.
-/

namespace PbsLevel2

open Lib

/-! ## The shift -/

section Shift

variable {p : PbsPlan} {t u e : PbsTask} {pre mid more rest : List PbsTask} {n : Nat}

theorem moveForwardFrom_end (hp : p.tasks.toList = pre ++ e :: rest) (he : e.taskId = -2) :
    moveForwardFrom (n + 1) pre.length p = .ok p := by
  rw [moveForwardFrom, readTask_joint hp, ok_bind]
  exact if_pos he

theorem moveForwardFrom_step (hp : p.tasks.toList = pre ++ t :: u :: rest) (ht : t.taskId ≠ -2) :
    moveForwardFrom (n + 1) pre.length p =
      moveForwardFrom n (pre ++ [u]).length (p.withTasks (pre ++ u :: u :: rest)) := by
  have hnext : p.readTask (pre.length + 1) = .ok u := by
    have hp : p.tasks.toList = (pre ++ [t]) ++ u :: rest := by rw [hp]; simp
    have hread := readTask_joint hp
    rwa [List.length_append] at hread
  rw [moveForwardFrom, readTask_joint hp, ok_bind, if_neg ht, hnext, ok_bind, writeTask_joint hp,
    ok_bind, List.length_append]
  rfl

/-- The entries behind the first one move forward, up to the terminator, which is there twice
afterwards. -/
theorem moveForwardFrom_eq (hp : p.tasks.toList = pre ++ t :: (more ++ e :: rest))
    (he : e.taskId = -2) (hend : ∀ u ∈ t :: more, u.taskId ≠ -2) (hn : more.length + 2 ≤ n) :
    moveForwardFrom n pre.length p = .ok (p.withTasks (pre ++ (more ++ e :: e :: rest))) := by
  induction more generalizing p pre t n with
  | nil =>
      obtain ⟨n, rfl⟩ : ∃ m, n = m + 2 := ⟨n - 2, by simp at hn; omega⟩
      have hq : (p.withTasks (pre ++ e :: e :: rest)).tasks.toList = (pre ++ [e]) ++ e :: rest := by
        rw [List.append_assoc]
        exact toList_withTasks_joint hp e
      rw [moveForwardFrom_step hp (hend t (by simp)), moveForwardFrom_end hq he]
      rfl
  | cons u more ih =>
      obtain ⟨n, rfl⟩ : ∃ m, n = m + 1 := ⟨n - 1, by simp at hn; omega⟩
      have hq : (p.withTasks (pre ++ u :: u :: (more ++ e :: rest))).tasks.toList =
          (pre ++ [u]) ++ u :: (more ++ e :: rest) := by
        rw [List.append_assoc]
        exact toList_withTasks_joint hp u
      rw [List.cons_append] at hp
      rw [moveForwardFrom_step hp (hend t (by simp)),
        ih hq (fun v hv => hend v (List.mem_cons_of_mem _ hv)) (by simp at hn; omega)]
      simp [PbsPlan.withTasks]

theorem replaceUnallocatedSlot_eq {f : PbsTask}
    (hp : p.tasks.toList = f :: mid ++ t :: (more ++ e :: rest)) (he : e.taskId = -2)
    (hend : ∀ u ∈ t :: more, u.taskId ≠ -2) :
    replaceUnallocatedSlotInPlan (some (f :: mid).length) p =
      .ok (p.withTasks (t :: mid ++ (more ++ e :: e :: rest))) := by
  have hlen := congrArg List.length hp
  simp only [Vector.length_toList, List.length_append, List.length_cons] at hlen
  have hq : (p.withTasks (t :: mid ++ t :: (more ++ e :: rest))).tasks.toList =
      t :: mid ++ t :: (more ++ e :: rest) :=
    toList_withTasks_joint (show p.tasks.toList = [] ++ f :: _ from hp) t
  have hfirst : p.writeTask 0 t = .ok (p.withTasks (t :: mid ++ t :: (more ++ e :: rest))) :=
    writeTask_joint (show p.tasks.toList = [] ++ f :: _ from hp) t
  have hmove := moveForwardFrom_eq (n := maxNumberTasksInPlan - (t :: mid).length) hq he hend
    (by rw [List.length_cons]; omega)
  unfold replaceUnallocatedSlotInPlan
  dsimp only
  rw [readTask_joint hp, ok_bind, hfirst, ok_bind]
  exact hmove

end Shift

/-! ## The filled slot -/

theorem handleUnallocatedSlot_eq (p : PbsPlan) :
    handleUnallocatedSlot p = (substitutionTask p >>= fun nextTaskToRun =>
      replaceUnallocatedSlotInPlan nextTaskToRun p >>= fun p =>
        match nextTaskToRun with
        | none => .error .nullPointer
        | some i => p.modifyTask i clearPreemption) := by
  unfold handleUnallocatedSlot substitutionTask
  cases findNextTaskForAllProcesses p (Vector.replicate _ {}) <;> rfl

/-- The current task is a free slot at the front of the list. -/
structure FreeSlotFirst (p : PbsPlan) : Prop where
  current : p.curTask = 0
  free : ∃ t ∈ p.liveTasks.head?, t.taskId = -1

instance (p : PbsPlan) : Decidable (FreeSlotFirst p) :=
  decidable_of_iff (p.curTask = 0 ∧ ∃ t ∈ p.liveTasks.head?, t.taskId = -1)
    ⟨fun h => ⟨h.1, h.2⟩, fun h => ⟨h.1, h.2⟩⟩

section Fill

variable {p : PbsPlan} {t : PbsTask} {k : Nat}

theorem liveTasks_of_toList {q : PbsPlan} {l rest : List PbsTask} {e : PbsTask}
    (hq : q.tasks.toList = l ++ e :: rest) (he : e.taskId = -2) (hl : ∀ t ∈ l, t.taskId ≠ -2) :
    q.liveTasks = l := by
  have hl : ∀ t ∈ l, decide (t.taskId ≠ -2) = true := fun t ht => by simpa using hl t ht
  rw [PbsPlan.liveTasks, hq, List.takeWhile_append_of_pos hl,
    List.takeWhile_cons_of_neg (by simpa using he), List.append_nil]

theorem FreeSlotFirst.split (hfree : FreeSlotFirst p) (h : Terminated p)
    (hk : substitutionTask p = .ok (some k)) :
    ∃ f mid t more e rest, p.tasks.toList = f :: mid ++ t :: (more ++ e :: rest) ∧
      e.taskId = -2 ∧ p.liveTasks = f :: mid ++ t :: more ∧ k = (f :: mid).length ∧
      t.taskId ≠ -1 := by
  obtain ⟨u, t, _, _, hreal, ht, hid⟩ := h.of_substitutionTask hk
  obtain ⟨e, rest, htasks, he⟩ := h.tail
  obtain ⟨f, hf, hfid⟩ := hfree.free
  obtain ⟨hlt, hget⟩ := List.getElem?_eq_some_iff.1 ht
  obtain ⟨mid, hfront⟩ : ∃ mid, p.liveTasks.take k = f :: mid := by
    cases k with
    | zero =>
        -- the task found is not the free slot
        rw [List.head?_eq_getElem?, ht] at hf
        obtain rfl := Option.some.inj hf
        omega
    | succ k =>
        cases hlive : p.liveTasks with
        | nil =>
            rw [hlive] at hf
            cases hf
        | cons g live =>
            rw [hlive] at hf
            obtain rfl := Option.some.inj hf
            exact ⟨_, rfl⟩
  have hlive : p.liveTasks = f :: mid ++ t :: p.liveTasks.drop (k + 1) := by
    rw [← hfront, ← hget, List.getElem_cons_drop, List.take_append_drop]
  refine ⟨f, mid, t, p.liveTasks.drop (k + 1), e, rest, ?_, he, hlive, ?_, by omega⟩
  · rw [htasks, ← List.cons_append, ← List.append_assoc, ← hlive]
  · rw [← hfront, List.length_take]
    omega

/-- The task moves to the front as it is, and the mark is cleared of the task that stood behind
it, or of the terminator. -/
theorem handleUnallocatedSlot_split {f e : PbsTask} {mid more rest : List PbsTask}
    (hp : p.tasks.toList = f :: mid ++ t :: (more ++ e :: rest)) (he : e.taskId = -2)
    (hmid : ∀ u ∈ mid, u.taskId ≠ -2) (hend : ∀ u ∈ t :: more, u.taskId ≠ -2)
    (hk : substitutionTask p = .ok (some (f :: mid).length)) :
    ∃ q, handleUnallocatedSlot p = .ok q ∧
      q.liveTasks = t :: mid ++ more.modifyHead clearPreemption := by
  have hq := toList_withTasks (p := p) (l := t :: mid ++ (more ++ e :: e :: rest)) (by
    have hlen := congrArg List.length hp
    simp only [Vector.length_toList, List.length_append, List.length_cons] at hlen ⊢
    omega)
  have hfront : ∀ u ∈ t :: mid, u.taskId ≠ -2 := by
    intro u hu
    rcases List.mem_cons.1 hu with rfl | hu
    · exact hend u (by simp)
    · exact hmid u hu
  rw [handleUnallocatedSlot_eq, hk, ok_bind, replaceUnallocatedSlot_eq hp he hend, ok_bind,
    List.length_cons, ← List.length_cons (a := t)]
  dsimp only
  cases more with
  | nil =>
      rw [List.nil_append] at hq
      refine ⟨_, modifyTask_joint hq clearPreemption, ?_⟩
      have hclear := toList_withTasks_joint hq (clearPreemption e)
      rw [liveTasks_of_toList hclear (show (clearPreemption e).taskId = -2 from he) hfront]
      simp
  | cons m more =>
      have hq : (p.withTasks (t :: mid ++ (m :: more ++ e :: e :: rest))).tasks.toList =
          t :: mid ++ m :: (more ++ e :: e :: rest) := hq
      refine ⟨_, modifyTask_joint hq clearPreemption, ?_⟩
      have hclear : (p.withTasks
          (t :: mid ++ clearPreemption m :: (more ++ e :: e :: rest))).tasks.toList =
          (t :: mid ++ clearPreemption m :: more) ++ e :: e :: rest := by
        rw [List.append_assoc]
        exact toList_withTasks_joint hq _
      refine (liveTasks_of_toList hclear he ?_).trans (by simp)
      intro u hu
      rcases List.mem_append.1 hu with hu | hu
      · exact hfront u hu
      · rcases List.mem_cons.1 hu with rfl | hu
        · exact hend m (by simp)
        · exact hend u (by simp [hu])

theorem handleUnallocatedSlot_list (h : Terminated p) (hfree : FreeSlotFirst p)
    (hk : substitutionTask p = .ok (some k)) :
    ∃ q t, p.liveTasks[k]? = some t ∧ t.taskId ≠ -1 ∧ handleUnallocatedSlot p = .ok q ∧
      q.liveTasks = t :: ((p.liveTasks.take k).drop 1 ++
        (p.liveTasks.drop (k + 1)).modifyHead clearPreemption) := by
  obtain ⟨f, mid, t, more, e, rest, hp, he, hlive, rfl, hreal⟩ := hfree.split h hk
  have hend : ∀ u ∈ f :: mid ++ t :: more, u.taskId ≠ -2 := by
    rw [← hlive]
    exact fun u hu => ne_of_mem_liveTasks hu
  obtain ⟨q, hq, hlist⟩ := handleUnallocatedSlot_split hp he (fun u hu => hend u (by simp [hu]))
    (fun u hu => hend u (by simp [hu])) hk
  refine ⟨q, t, ?_, hreal, hq, ?_⟩
  · rw [hlive, List.getElem?_append_right (Nat.le_refl _), Nat.sub_self]
    rfl
  · rw [hlist, hlive, List.take_left, List.drop_one, List.tail_cons, ← List.drop_drop,
      List.drop_left]
    rfl

/-! ## What the caller may expect -/

/-- The chosen task takes the place of the free slot with its preemption mark cleared, and the
other tasks stay as they are. -/
def FillsSlot (p : PbsPlan) : Prop :=
  ∃ q k t, substitutionTask p = .ok (some k) ∧ p.liveTasks[k]? = some t ∧
    handleUnallocatedSlot p = .ok q ∧ q.liveTasks = clearPreemption t ::
      ((p.liveTasks.take k).drop 1 ++ p.liveTasks.drop (k + 1))

def Unmarked (t : PbsTask) : Prop :=
  t.wasPreempted = 0 ∧ t.slotOwner = t.taskId

instance (t : PbsTask) : Decidable (Unmarked t) :=
  inferInstanceAs (Decidable (_ ∧ _))

theorem clearPreemption_eq_self : clearPreemption t = t ↔ Unmarked t := by
  constructor
  · intro h
    exact ⟨(congrArg PbsTask.wasPreempted h).symm, (congrArg PbsTask.slotOwner h).symm⟩
  · rintro ⟨hpre, howner⟩
    cases t
    simp only at hpre howner
    subst hpre howner
    rfl

theorem modifyHead_clearPreemption_eq_self {l : List PbsTask} :
    l.modifyHead clearPreemption = l ↔ ∀ t ∈ l.head?, Unmarked t := by
  cases l with
  | nil => simp
  | cons t l => simp [clearPreemption_eq_self]

theorem fillsSlot_of_choice (h : Terminated p) (hfree : FreeSlotFirst p)
    (hk : substitutionTask p = .ok (some k)) (ht : p.liveTasks[k]? = some t) :
    FillsSlot p ↔ Unmarked t ∧ ∀ u ∈ p.liveTasks[k + 1]?, Unmarked u := by
  obtain ⟨q, t', ht', _, hq, hlist⟩ := handleUnallocatedSlot_list h hfree hk
  obtain rfl : t' = t := Option.some.inj (ht'.symm.trans ht)
  rw [← List.head?_drop, ← modifyHead_clearPreemption_eq_self, ← clearPreemption_eq_self]
  unfold FillsSlot
  constructor
  · rintro ⟨q', k', u, hk', hu, hq', hlist'⟩
    obtain rfl : k = k' := Option.some.inj (Except.ok.inj (hk.symm.trans hk'))
    obtain rfl : t' = u := Option.some.inj (ht.symm.trans hu)
    obtain rfl : q = q' := Except.ok.inj (hq.symm.trans hq')
    obtain ⟨hhead, htail⟩ := List.cons.inj (hlist.symm.trans hlist')
    exact ⟨hhead.symm, List.append_cancel_left htail⟩
  · rintro ⟨hmark, hnext⟩
    refine ⟨q, k, t', hk, ht, hq, ?_⟩
    rw [hlist, hnext, hmark]

theorem Terminated.marked (h : Terminated p) (hdistinct : (realIds p.liveTasks).Nodup)
    (hk : substitutionTask p = .ok (some k)) (ht : p.liveTasks[k]? = some t) : ¬ Unmarked t := by
  obtain ⟨u, t', hu, hpre, hreal, ht', hid⟩ := h.of_substitutionTask hk
  obtain rfl : t' = t := Option.some.inj (ht'.symm.trans ht)
  obtain ⟨front, back, hsplit⟩ := List.append_of_mem hu
  rw [hsplit] at hdistinct
  obtain ⟨hfront, hback⟩ := ne_of_nodup hdistinct hreal
  have hmem := List.mem_of_getElem? ht
  rw [hsplit] at hmem
  intro hmark
  rcases List.mem_append.1 hmem with hmem | hmem
  · exact hfront t' hmem hid
  · rcases List.mem_cons.1 hmem with rfl | hmem
    · exact hpre hmark.1
    · exact hback t' hmem hid

/-- The slot is filled as expected exactly when there was no mark to clear, on the chosen task
and on the one behind it; with distinct ids that does not happen. -/
theorem fillsSlot_iff (h : Terminated p) (hfree : FreeSlotFirst p) :
    (FillsSlot p ↔ ∃ k t, substitutionTask p = .ok (some k) ∧ p.liveTasks[k]? = some t ∧
      Unmarked t ∧ ∀ u ∈ p.liveTasks[k + 1]?, Unmarked u) ∧
    ((realIds p.liveTasks).Nodup → ¬ FillsSlot p) := by
  constructor
  · constructor
    · intro hfills
      have ⟨_, k, t, hk, ht, _⟩ := hfills
      exact ⟨k, t, hk, ht, (fillsSlot_of_choice h hfree hk ht).1 hfills⟩
    · rintro ⟨k, t, hk, ht, hmarks⟩
      exact (fillsSlot_of_choice h hfree hk ht).2 hmarks
  · intro hdistinct hfills
    have ⟨_, k, t, hk, ht, _⟩ := hfills
    exact h.marked hdistinct hk ht ((fillsSlot_of_choice h hfree hk ht).1 hfills).1

end Fill

/-- A free slot, the preempted tasks 0 and 1 of late processes, and task 2. -/
def unallocatedPlan : PbsPlan :=
  planOfTasks [50, 100, 200]
    [freeSlotTask,
      { taskId := 0, processId := 0, instructionsPlanned := 100, wasPreempted := 1 },
      { taskId := 1, processId := 1, instructionsPlanned := 100, wasPreempted := 1, slotOwner := 1 },
      { taskId := 2, processId := 2, instructionsPlanned := 100, slotOwner := 2 }, endTask]

/-- Two tasks share the id 0: the preempted one is chosen, and the one in front of it is found. -/
def sharedIdPlan : PbsPlan :=
  planOfTasks [50, 0, 0]
    [freeSlotTask,
      { taskId := 0, processId := 2, instructionsPlanned := 100 },
      { taskId := 1, processId := 1, instructionsPlanned := 100, slotOwner := 1 },
      { taskId := 0, processId := 0, instructionsPlanned := 100, wasPreempted := 1 }, endTask]

/-- Task 1 is chosen, and the mark of task 2 is cleared in its place.  Of two tasks with one id the
unmarked one fills the slot. -/
theorem fillsSlot_iff_twoLate : substitutionTask unallocatedPlan = .ok (some 2) ∧
    ¬ FillsSlot unallocatedPlan ∧ FillsSlot sharedIdPlan := by
  refine ⟨by decide +kernel, ?_, ?_⟩
  · apply (fillsSlot_iff (by decide +kernel) (by decide +kernel)).2
    decide +kernel
  · apply (fillsSlot_iff (by decide +kernel) (by decide +kernel)).1.2
    have hchoice : substitutionTask sharedIdPlan = .ok (some 1) := by decide +kernel
    have hfound : ∃ t ∈ sharedIdPlan.liveTasks[1]?, Unmarked t := by decide +kernel
    obtain ⟨t, ht, hunmarked⟩ := hfound
    exact ⟨1, t, hchoice, ht, hunmarked, by decide +kernel⟩

/-- Task 1 is at the front with its mark. -/
theorem fillsSlot_marked : ∃ p, Terminated p ∧ FreeSlotFirst p ∧ (∃ i t, IsCandidate p i t) ∧
    ¬ FillsSlot p := by
  have hcandidate : ∃ t ∈ unallocatedPlan.liveTasks[2]?, t.processId ≠ -1 ∧
      (∀ u ∈ unallocatedPlan.liveTasks.take 2, u.processId ≠ t.processId) ∧
      t.wasPreempted ≠ 0 ∧ 0 < unallocatedPlan.latenessOf t := by decide +kernel
  have hmarked : (match handleUnallocatedSlot unallocatedPlan with
      | .ok q => q.liveTasks.head?.map PbsTask.wasPreempted
      | .error _ => none) = some 1 := by decide +kernel
  obtain ⟨t, ht, hlisted, hfirst, hpre, hlate⟩ := hcandidate
  refine ⟨unallocatedPlan, by decide +kernel, by decide +kernel,
    ⟨2, t, ⟨ht, hlisted, hfirst⟩, hpre, hlate⟩, ?_⟩
  rintro ⟨q, k, u, _, _, hq, hlist⟩
  rw [hq] at hmarked
  dsimp only at hmarked
  rw [hlist] at hmarked
  cases hmarked

section Unfilled

variable {p : PbsPlan}

/-- Nothing is left as it was: a missing candidate ends in the `NULL` that is dereferenced, and
otherwise the free slot goes. -/
theorem handleUnallocatedSlot_ne (h : Terminated p) (hfree : FreeSlotFirst p) :
    handleUnallocatedSlot p ≠ .ok p ∧
      (Substitutable p → Discernible p → (¬ ∃ i t, IsCandidate p i t) →
        handleUnallocatedSlot p = .error .nullPointer) := by
  constructor
  · intro heq
    cases hchoice : substitutionTask p with
    | error e =>
        rw [handleUnallocatedSlot_eq, hchoice] at heq
        cases heq
    | ok r =>
        cases r with
        | none =>
            rw [handleUnallocatedSlot_eq, hchoice] at heq
            cases heq
        | some k =>
            obtain ⟨q, t, _, hreal, hq, hlist⟩ := handleUnallocatedSlot_list h hfree hchoice
            obtain rfl : q = p := Except.ok.inj (hq.symm.trans heq)
            obtain ⟨f, hf, hfid⟩ := hfree.free
            rw [hlist] at hf
            obtain rfl : t = f := Option.some.inj hf
            exact hreal hfid
  · intro hs hd hnone
    rw [handleUnallocatedSlot_eq, hs.substitutionTask_none hd hnone]
    rfl

end Unfilled

/-- A free slot in front of task 0 of a process that is on time. -/
def onTimePlan : PbsPlan :=
  planOfTasks [0]
    [freeSlotTask,
      { taskId := 0, processId := 0, instructionsPlanned := 100 }, endTask]

theorem not_isCandidate_onTimePlan : ¬ ∃ i t, IsCandidate onTimePlan i t := by
  rintro ⟨i, t, hcandidate⟩
  have hnone : ∀ t ∈ onTimePlan.liveTasks, t.wasPreempted = 0 := by decide +kernel
  exact hcandidate.preempted (hnone t (List.mem_of_getElem? hcandidate.task))

theorem handleUnallocatedSlot_ne_onTime : handleUnallocatedSlot onTimePlan = .error .nullPointer :=
  (handleUnallocatedSlot_ne (by decide +kernel) (by decide +kernel)).2 (by decide +kernel)
    (discernible_of_liveTasks (by decide +kernel)) not_isCandidate_onTimePlan

/-- No task was preempted, and the call dereferences `NULL`. -/
theorem handleUnallocatedSlot_null : ∃ p, Terminated p ∧ FreeSlotFirst p ∧
    (¬ ∃ i t, IsCandidate p i t) ∧ handleUnallocatedSlot p = .error .nullPointer := by
  refine ⟨onTimePlan, by decide +kernel, by decide +kernel, not_isCandidate_onTimePlan, ?_⟩
  apply eq_error_of_faultOf
  decide +kernel

end PbsLevel2
