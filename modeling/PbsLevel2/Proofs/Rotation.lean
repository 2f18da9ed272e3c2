import PbsLevel2.Proofs.Preemption

/-!
# One preemption, stated on the array

What `preempt_cur_task` leaves in the task array of any terminated plan, in both builds.
-/

namespace PbsLevel2

open Lib

/-! ## `no_id_is_duplicated` -/

def realIds (l : List PbsTask) : List Int :=
  (l.map PbsTask.taskId).filter (· ≠ -1)

theorem realIds_cons (t : PbsTask) (l : List PbsTask) :
    realIds (t :: l) = if t.taskId = -1 then realIds l else t.taskId :: realIds l := by
  by_cases h : t.taskId = -1 <;> simp [realIds, h]

theorem realIds_perm {l m : List PbsTask}
    (h : (l.map PbsTask.taskId).Perm (m.map PbsTask.taskId)) :
    (realIds l).Perm (realIds m) :=
  h.filter _

/-- The ids `no_id_is_duplicated` can count: its table has one counter for each. -/
def CountableId (t : PbsTask) : Prop :=
  t.taskId = -1 ∨ 0 ≤ t.taskId ∧ t.taskId < maxNumberTasksInPlan

/-- The table counts the ids `seen`, which are distinct. -/
structure Counts (found : Vector Nat maxNumberTasksInPlan) (seen : List Int) : Prop where
  nodup : seen.Nodup
  found_ne : ∀ i (h : i < maxNumberTasksInPlan), found[i] ≠ 0 ↔ (i : Int) ∈ seen

theorem Counts.none : Counts (Vector.replicate _ 0) [] where
  nodup := List.nodup_nil
  found_ne := by simp

theorem Counts.count {found : Vector Nat maxNumberTasksInPlan} {seen : List Int}
    (hc : Counts found seen) {id : Int} (hlo : 0 ≤ id) (hlt : id.toNat < maxNumberTasksInPlan)
    (hnew : id ∉ seen) :
    Counts (found.set id.toNat (found[id.toNat] + 1)) (seen ++ [id]) where
  nodup := by
    apply List.nodup_append.2
    refine ⟨hc.nodup, by simp, ?_⟩
    intro a ha b hb hab
    rw [List.mem_singleton] at hb
    exact hnew (hb ▸ hab ▸ ha)
  found_ne := by
    intro i hi
    rw [Vector.getElem_set, List.mem_append, List.mem_singleton]
    by_cases heq : id.toNat = i
    · rw [if_pos heq]
      exact iff_of_true (Nat.succ_ne_zero _) (.inr (by omega))
    · rw [if_neg heq, hc.found_ne i hi]
      have hne : (i : Int) ≠ id := by omega
      simp [hne]

/-- No task has an id without a counter before some id is repeated. -/
def CountableUpToRepetition (seen : List Int) (l : List PbsTask) : Prop :=
  ∀ i (h : i < l.length), maxNumberTasksInPlan ≤ l[i].taskId → ¬ (seen ++ realIds (l.take i)).Nodup

instance (seen : List Int) (l : List PbsTask) : Decidable (CountableUpToRepetition seen l) :=
  inferInstanceAs (Decidable (∀ i (_ : i < _), _))

theorem countableUpToRepetition_cons {seen seen' : List Int} {t : PbsTask} {l : List PbsTask}
    (ht : t.taskId < maxNumberTasksInPlan)
    (hseen : ∀ m, seen ++ realIds (t :: m) = seen' ++ realIds m) :
    CountableUpToRepetition seen (t :: l) ↔ CountableUpToRepetition seen' l := by
  constructor
  · intro h i hi hid
    have hnot := h (i + 1) (by simpa using hi) (by simpa using hid)
    rwa [List.take_succ_cons, hseen] at hnot
  · intro h i hi hid
    cases i with
    | zero =>
        rw [List.getElem_cons_zero] at hid
        omega
    | succ i =>
        rw [List.take_succ_cons, hseen]
        exact h i (by simpa using hi) (by simpa using hid)

/-- The check leaves its table at an id that has no counter and follows distinct ids only; else it
decides whether the ids are distinct. -/
theorem noIdIsDuplicatedFrom_cases {l : List PbsTask} {e : PbsTask} (he : e.taskId = -2)
    (hids : ∀ u ∈ l, -1 ≤ u.taskId) {found : Vector Nat maxNumberTasksInPlan} {seen : List Int}
    (hc : Counts found seen) (post : List PbsTask) :
    ¬ CountableUpToRepetition seen l ∧
      noIdIsDuplicatedFrom (l ++ e :: post) found = .error .outOfBounds ∨
    CountableUpToRepetition seen l ∧
      noIdIsDuplicatedFrom (l ++ e :: post) found = .ok (decide (seen ++ realIds l).Nodup) := by
  induction l generalizing found seen with
  | nil =>
      right
      rw [List.nil_append, noIdIsDuplicatedFrom, if_pos he]
      refine ⟨fun i hi => absurd hi (Nat.not_lt_zero i), ?_⟩
      simp [realIds, hc.nodup]
  | cons t l ih =>
      have hids' : ∀ u ∈ l, -1 ≤ u.taskId := fun u hu => hids u (List.mem_cons_of_mem t hu)
      have hlow := hids t List.mem_cons_self
      rw [List.cons_append, noIdIsDuplicatedFrom, if_neg (by omega)]
      by_cases hfree : t.taskId = -1
      · have hskip : ∀ m, seen ++ realIds (t :: m) = seen ++ realIds m := fun m => by
          rw [realIds_cons, if_pos hfree]
        rw [if_pos hfree, hskip, countableUpToRepetition_cons (by omega) hskip]
        exact ih hids' hc
      · have hreal : ∀ m, realIds (t :: m) = t.taskId :: realIds m := fun m => by
          rw [realIds_cons, if_neg hfree]
        rw [if_neg hfree]
        by_cases hcell : 0 ≤ t.taskId ∧ t.taskId.toNat < maxNumberTasksInPlan
        · obtain ⟨hlo, hlt⟩ := hcell
          rw [dif_pos ⟨hlo, hlt⟩]
          have hmem := hc.found_ne _ hlt
          rw [Int.toNat_of_nonneg hlo] at hmem
          by_cases hold : t.taskId ∈ seen
          · -- the first repetition, whatever follows
            have hrepeated : ∀ m, ¬ (seen ++ realIds (t :: m)).Nodup := fun m hnd => by
              rw [hreal, List.nodup_append] at hnd
              exact hnd.2.2 _ hold _ List.mem_cons_self rfl
            right
            rw [if_pos (hmem.2 hold), decide_eq_false (hrepeated l)]
            refine ⟨fun i hi hid => ?_, rfl⟩
            cases i with
            | zero =>
                rw [List.getElem_cons_zero] at hid
                omega
            | succ i =>
                rw [List.take_succ_cons]
                exact hrepeated (l.take i)
          · have hassoc : ∀ m, seen ++ realIds (t :: m) = seen ++ [t.taskId] ++ realIds m :=
              fun m => by rw [hreal, List.append_cons]
            rw [if_neg fun h => hold (hmem.1 h), hassoc,
              countableUpToRepetition_cons (by omega) hassoc]
            exact ih hids' (hc.count hlo hlt hold)
        · left
          rw [dif_neg hcell]
          refine ⟨fun h => h 0 (Nat.succ_pos _) (by rw [List.getElem_cons_zero]; omega) ?_, rfl⟩
          simpa [realIds] using hc.nodup

theorem noIdIsDuplicated_true {p : PbsPlan} {done todo tail : List PbsTask}
    (hl : Layout p done todo tail) (hids : ∀ u ∈ done ++ todo, CountableId u)
    (hnd : (realIds (done ++ todo)).Nodup) : noIdIsDuplicated p = .ok true := by
  obtain ⟨t, rest, rfl, htid, _⟩ := hl.terminates
  rw [noIdIsDuplicated, hl.tasks, ← List.append_assoc]
  have hlow : ∀ u ∈ done ++ todo, -1 ≤ u.taskId := fun u hu => by
    rcases hids u hu with h | h <;> omega
  rcases noIdIsDuplicatedFrom_cases htid hlow Counts.none rest with ⟨hnot, _⟩ | ⟨_, heq⟩
  · refine absurd (fun i hi hid => ?_) hnot
    rcases hids _ (List.getElem_mem hi) with h | h <;> omega
  · rw [heq, List.nil_append, decide_eq_true hnd]

/-! ## The run and the stack of the current task -/

/-- The maximal run of tasks of the process of `cur` at the front of `l`. -/
def ownRun (cur : PbsTask) (l : List PbsTask) : List PbsTask :=
  l.takeWhile fun t => t.processId = cur.processId

/-- The tasks at the front of that run that share the slot owner of `cur`. -/
def ownStack (cur : PbsTask) (l : List PbsTask) : List PbsTask :=
  (ownRun cur l).takeWhile fun t => t.slotOwner = cur.slotOwner

/-- The identity of an entry and everything else that a move leaves alone. -/
def PbsTask.entry (t : PbsTask) : PbsTask :=
  { t with slotOwner := 0, wasPreempted := 0, state := .waiting }

/-- A plan on which `preempt_cur_task` can be called: entry `e` is the terminator, the
current task lies in front of it, and ids and process ids are those of a plan file. -/
structure Preemptable (p : PbsPlan) (e : Nat) : Prop where
  terminator : ∃ t, p.tasks.toList[e]? = some t ∧ t.taskId = -2 ∧ t.processId = -2
  entries : ∀ t ∈ p.tasks.toList.take e, CountableId t ∧ t.processId ≠ -2 ∧
    (t.taskId ≠ -1 → 0 ≤ t.processId)
  distinct : (realIds (p.tasks.toList.take e)).Nodup
  cur_lt : p.curTask < e
  index : p.indexCurTask = p.curTask

section Cut

variable {cur n f : PbsTask} {todo blk ns post tail : List PbsTask}

theorem Cut.ownRun_eq (hc : Cut cur todo blk n ns f post) (tail : List PbsTask) :
    ∃ keep others, n :: ns = keep ++ others ∧ others ≠ [] ∧
      (∀ u ∈ keep, u.processId = cur.processId) ∧ (∀ u ∈ others, u.processId ≠ cur.processId) ∧
      ownRun cur (cur :: (todo ++ tail)) = cur :: blk ++ keep := by
  obtain ⟨keep, others, hgap, hne, hkeep, hothers⟩ := hc.gap
  obtain ⟨o, os, rfl⟩ := List.exists_cons_of_ne_nil hne
  refine ⟨keep, o :: os, hgap, hne, hkeep, hothers, ?_⟩
  have hsplit : cur :: (todo ++ tail) =
      (cur :: blk ++ keep) ++ o :: (os ++ f :: (post ++ tail)) := by
    rw [hc.todo_eq, hgap]; simp
  rw [ownRun, hsplit, List.takeWhile_append_of_pos, List.takeWhile_cons_of_neg, List.append_nil]
  · simpa using hothers o (by simp)
  · intro u hu
    rcases List.mem_append.1 hu with hu | hu
    · rcases List.mem_cons.1 hu with rfl | hu
      · simp
      · simpa using (hc.stack u hu).2.1.symm
    · simpa using hkeep u hu

theorem Cut.ownStack_eq (hc : Cut cur todo blk n ns f post) (hn : n.taskId ≠ -2)
    (tail : List PbsTask) : ownStack cur (cur :: (todo ++ tail)) = cur :: blk := by
  obtain ⟨keep, others, hgap, _, hkeep, _, hrun⟩ := hc.ownRun_eq tail
  have hstack : ∀ u ∈ cur :: blk, decide (u.slotOwner = cur.slotOwner) = true := by
    intro u hu
    rcases List.mem_cons.1 hu with rfl | hu
    · simp
    · simpa using (hc.stack u hu).2.2.symm
  rw [ownStack, hrun, List.takeWhile_append_of_pos hstack]
  cases keep with
  | nil => simp
  | cons k ks =>
      rw [List.cons_append] at hgap
      obtain ⟨rfl, _⟩ := List.cons.inj hgap
      have howner : n.slotOwner ≠ cur.slotOwner := fun h =>
        hc.stack_end ⟨hn, (hkeep n (by simp)).symm, h.symm⟩
      rw [List.takeWhile_cons_of_neg (by simpa using howner), List.append_nil]

theorem Cut.entries_perm (hc : Cut cur todo blk n ns f post) (slotId : Int) :
    ((changeTaskState n .running :: ns ++
      ((bump cur :: blk).map (hosted slotId) ++ f :: post)).map PbsTask.entry).Perm
        ((cur :: todo).map PbsTask.entry) :=
  hc.view_perm slotId (fun _ => rfl) (fun _ => rfl) (fun _ => rfl)

end Cut

/-! ## The rotation -/

section Rotation

variable {p : PbsPlan} {e f : Nat} {cur g : PbsTask}

theorem Preemptable.layout (hp : Preemptable p e)
    (hcur : p.tasks.toList[p.curTask]? = some cur) :
    ∃ todo, p.tasks.toList.take e = p.tasks.toList.take p.curTask ++ cur :: todo ∧
      Layout p (p.tasks.toList.take p.curTask) (cur :: todo) (p.tasks.toList.drop e) := by
  obtain ⟨hlt, hget⟩ := List.getElem?_eq_some_iff.1 hcur
  obtain ⟨t, ht, htid, htpid⟩ := hp.terminator
  obtain ⟨hlt', hget'⟩ := List.getElem?_eq_some_iff.1 ht
  have hsplit : p.tasks.toList.take e = p.tasks.toList.take p.curTask ++
      cur :: (p.tasks.toList.take e).drop (p.curTask + 1) := by
    have hlte : p.curTask < (p.tasks.toList.take e).length := by
      rw [List.length_take]; have := hp.cur_lt; omega
    have hcons := List.drop_eq_getElem_cons hlte
    rw [List.getElem_take, hget] at hcons
    have hcut := List.take_append_drop p.curTask (p.tasks.toList.take e)
    rw [List.take_take, Nat.min_eq_left (Nat.le_of_lt hp.cur_lt), hcons] at hcut
    exact hcut.symm
  have hlen : (p.tasks.toList.take p.curTask).length = p.curTask := by
    rw [List.length_take]; omega
  refine ⟨_, hsplit, ?_, ?_, ?_, hlen.symm, hp.index.trans hlen.symm⟩
  · rw [← List.append_assoc, ← hsplit, List.take_append_drop]
  · exact ⟨t, _, by rw [List.drop_eq_getElem_cons hlt', hget'], htid, htpid⟩
  · intro u hu
    rw [← hsplit] at hu
    obtain ⟨hid, hpid, _⟩ := hp.entries u hu
    refine ⟨?_, hpid⟩
    rcases hid with h | h <;> omega

private theorem first_unique {P : PbsTask → Prop} {l pre others rest : List PbsTask}
    {x g : PbsTask} {f : Nat} (hl : l = pre ++ (others ++ x :: rest)) (hx : P x)
    (hothers : ∀ t ∈ others, ¬ P t) (hg : l[f]? = some g) (hPg : P g) (hle : pre.length ≤ f)
    (hfirst : ∀ t ∈ (l.take f).drop pre.length, ¬ P t) :
    f = pre.length + others.length ∧ g = x := by
  subst hl
  rw [List.drop_take, List.drop_left] at hfirst
  rw [List.getElem?_append_right hle] at hg
  rcases Nat.lt_trichotomy (f - pre.length) others.length with hlt | heq | hgt
  · rw [List.getElem?_append_left hlt] at hg
    exact absurd hPg (hothers g (List.mem_of_getElem? hg))
  · rw [heq, List.getElem?_append_right (Nat.le_refl _), Nat.sub_self] at hg
    exact ⟨by omega, (Option.some.inj hg).symm⟩
  · have hmem : x ∈ (others ++ x :: rest).take (f - pre.length) := by
      rw [List.take_append, show f - pre.length - others.length =
        (f - pre.length - others.length - 1) + 1 by omega, List.take_succ_cons]
      simp
    exact absurd hx (hfirst x hmem)

theorem Layout.ownRun_noSlot {own others done tail : List PbsTask}
    (hl : Layout p done (cur :: (own ++ others)) tail)
    (hown : ∀ u ∈ own, u.processId = cur.processId)
    (hothers : ∀ u ∈ others, u.processId ≠ cur.processId) :
    ownRun cur (cur :: (own ++ others ++ tail)) = cur :: own := by
  obtain ⟨t, rest, rfl, _, htpid⟩ := hl.terminates
  have hcurpid : cur.processId ≠ -2 := (hl.live cur (by simp)).2
  have hfront : ∀ u ∈ cur :: own, decide (u.processId = cur.processId) = true := by
    intro u hu
    rcases List.mem_cons.1 hu with rfl | hu
    · simp
    · simpa using hown u hu
  rw [ownRun,
    show cur :: (own ++ others ++ t :: rest) = (cur :: own) ++ (others ++ t :: rest) by simp,
    List.takeWhile_append_of_pos hfront]
  cases others with
  | nil =>
      rw [List.nil_append, List.takeWhile_cons_of_neg (by simp; omega), List.append_nil]
  | cons o os =>
      change cur :: own ++ (o :: (os ++ t :: rest)).takeWhile _ = _
      rw [List.takeWhile_cons_of_neg (by simpa using hothers o (by simp)), List.append_nil]

theorem Preemptable.exists_cut (hp : Preemptable p e)
    (hcur : p.tasks.toList[p.curTask]? = some cur) (hg : p.tasks.toList[f]? = some g)
    (hgpid : g.processId = cur.processId)
    (hbehind : p.curTask + (ownRun cur (p.tasks.toList.drop p.curTask)).length ≤ f)
    (hfe : f < e)
    (hfirst : ∀ t ∈ (p.tasks.toList.take f).drop
      (p.curTask + (ownRun cur (p.tasks.toList.drop p.curTask)).length),
      t.processId ≠ cur.processId) :
    ∃ done todo tail blk n ns post, Layout p done (cur :: todo) tail ∧
      p.tasks.toList.take e = done ++ cur :: todo ∧
      Cut cur todo blk n ns g post ∧ f = done.length + (blk.length + 1) + (ns.length + 1) ∧
      ownStack cur (p.tasks.toList.drop p.curTask) = cur :: blk ∧
      (ownRun cur (p.tasks.toList.drop p.curTask)).length ≤ blk.length + 1 + ns.length := by
  obtain ⟨todo, htake, hl⟩ := hp.layout hcur
  set done := p.tasks.toList.take p.curTask with hdone
  set tail := p.tasks.toList.drop e with htail
  have hdrop : p.tasks.toList.drop p.curTask = cur :: (todo ++ tail) := hl.drop_curTask
  have htasks : p.tasks.toList = done ++ cur :: (todo ++ tail) := hl.tasks
  have he : done.length + (todo.length + 1) = e := by
    have hlen := congrArg List.length htake
    rw [List.length_take, List.length_append, List.length_cons] at hlen
    obtain ⟨t, ht, _⟩ := hp.terminator
    have := (List.getElem?_eq_some_iff.1 ht).1
    omega
  have hlive : ∀ u ∈ todo, u.taskId ≠ -2 ∧ u.processId ≠ -2 := fun u hu =>
    hl.live u (by simp [hu])
  rw [hdrop] at hbehind hfirst ⊢
  rw [hl.cur] at hbehind hfirst
  rcases exists_cut_or_noSlot cur todo with
    ⟨blk, n, ns, f', post, hc⟩ | ⟨own, others, rfl, hown, hothers⟩
  · obtain ⟨keep, others, hgap, hne, hkeep, hothers, hrun⟩ := hc.ownRun_eq tail
    have hgaplen := congrArg List.length hgap
    have hnelen := List.length_pos_of_ne_nil hne
    rw [List.length_cons, List.length_append] at hgaplen
    have hpre : done.length + (ownRun cur (cur :: (todo ++ tail))).length =
        (done ++ (cur :: blk ++ keep)).length := by rw [hrun]; simp
    have hsplit : p.tasks.toList =
        (done ++ (cur :: blk ++ keep)) ++ (others ++ f' :: (post ++ tail)) := by
      rw [htasks, hc.todo_eq, hgap]; simp
    rw [hpre] at hbehind hfirst
    obtain ⟨hf, rfl⟩ := first_unique hsplit hc.next hothers hg hgpid hbehind hfirst
    refine ⟨done, todo, tail, blk, n, ns, post, hl, htake, hc, ?_, ?_, ?_⟩
    · rw [hf]
      simp only [List.length_append, List.length_cons]
      omega
    · exact hc.ownStack_eq (hlive n (by rw [hc.todo_eq]; simp)).1 tail
    · rw [hrun]
      simp only [List.length_append, List.length_cons]
      omega
  · exfalso
    rw [hl.ownRun_noSlot hown hothers, List.length_cons] at hbehind
    rw [List.length_append] at he
    have hsplit : p.tasks.toList = (done ++ cur :: own) ++ (others ++ tail) := by
      rw [htasks]; simp
    rw [hsplit, List.getElem?_append_right (by simp; omega),
      List.getElem?_append_left (by simp; omega)] at hg
    exact hothers g (List.mem_of_getElem? hg) hgpid

section Rotated

variable {done todo tail blk ns post : List PbsTask} {n : PbsTask}

theorem Layout.entries_rotated (hl : Layout p done (cur :: todo) tail)
    (hc : Cut cur todo blk n ns g post) :
    ((p.rotated done n ns cur blk g (post ++ tail)).tasks.toList.map PbsTask.entry).Perm
      (p.tasks.toList.map PbsTask.entry) := by
  have hahead := (hc.entries_perm g.taskId).append_left (done.map PbsTask.entry)
  rw [← List.map_append, ← List.map_append] at hahead
  rw [(hl.rotated hc).map_tasks, hl.map_tasks]
  exact hahead.append_right _

theorem Layout.assert_rotated (b : Build) (hl : Layout p done (cur :: todo) tail)
    (hc : Cut cur todo blk n ns g post) (hids : ∀ u ∈ done ++ cur :: todo, CountableId u)
    (hnd : (realIds (done ++ cur :: todo)).Nodup) :
    assertNoIdIsDuplicated b (p.rotated done n ns cur blk g (post ++ tail)) = .ok () := by
  have htaskIds := ((hc.entries_perm g.taskId).append_left (done.map PbsTask.entry)).map
    PbsTask.taskId
  rw [← List.map_append, ← List.map_append, List.map_map, List.map_map] at htaskIds
  have hids' : ∀ u ∈ done ++ (changeTaskState n .running :: ns ++
      ((bump cur :: blk).map (hosted g.taskId) ++ g :: post)), CountableId u := by
    intro u hu
    obtain ⟨v, hv, hvu⟩ := List.mem_map.1 (htaskIds.subset (List.mem_map_of_mem hu))
    change v.taskId = u.taskId at hvu
    have hv' := hids v hv
    rwa [CountableId, hvu] at hv'
  have hnd' := (realIds_perm htaskIds).nodup_iff.2 hnd
  cases b with
  | userland =>
      rw [assertNoIdIsDuplicated, noIdIsDuplicated_true (hl.rotated hc) hids' hnd']
      rfl
  | kernel => rfl

end Rotated

/-- `preempt_cur_task` is a rotation: the stack of the current task moves behind everything
between it and the next task of its process, into the slot of that task. -/
theorem preemptCurTask_rotates (b : Build) (hp : Preemptable p e)
    (hcur : p.tasks.toList[p.curTask]? = some cur) (hreal : cur.taskId ≠ -1)
    (hg : p.tasks.toList[f]? = some g) (hgpid : g.processId = cur.processId)
    (hbehind : p.curTask + (ownRun cur (p.tasks.toList.drop p.curTask)).length ≤ f)
    (hfe : f < e)
    (hfirst : ∀ t ∈ (p.tasks.toList.take f).drop
      (p.curTask + (ownRun cur (p.tasks.toList.drop p.curTask)).length),
      t.processId ≠ cur.processId)
    (hroom : f - 2 + (ownStack cur (p.tasks.toList.drop p.curTask)).length <
      maxNumberTasksInPlan) :
    let ts := p.tasks.toList
    let c := p.curTask
    let s := (ownStack cur (ts.drop c)).length
    ∃ n q, ts[c + s]? = some n ∧ preemptCurTask b p = .ok q ∧
      1 ≤ s ∧ s ≤ (ownRun cur (ts.drop c)).length ∧
      q.tasks.toList = ts.take c ++
        ((((ts.drop (c + s)).take (f - (c + s))).modifyHead (changeTaskState · .running)) ++
        ((((ts.drop c).take s).modifyHead bump).map (hosted g.taskId) ++ ts.drop f)) ∧
      q = { p with
        tasks := q.tasks
        curProcess := if n.taskId = -1 then maxNumberProcesses - 1 else n.processId } ∧
      (q.tasks.toList.map PbsTask.entry).Perm (ts.map PbsTask.entry) := by
  obtain ⟨done, todo, tail, blk, n, ns, post, hl, htake, hc, hf, hstack, hrun⟩ :=
    hp.exists_cut hcur hg hgpid hbehind hfe hfirst
  have hids : ∀ u ∈ done ++ cur :: todo, CountableId u := fun u hu =>
    (hp.entries u (by rw [htake]; exact hu)).1
  have hnd : (realIds (done ++ cur :: todo)).Nodup := htake ▸ hp.distinct
  intro ts c s
  have hs : s = (cur :: blk).length := congrArg List.length hstack
  have hc' : c = done.length := hl.cur
  have hts : ts = done ++ ((cur :: blk) ++ (n :: ns ++ g :: (post ++ tail))) := by
    rw [show ts = _ from hl.tasks, hc.todo_eq]; simp
  have hdropc : ts.drop c = (cur :: blk) ++ (n :: ns ++ g :: (post ++ tail)) := by
    rw [hts, hc', List.drop_left]
  have hdropcs : ts.drop (c + s) = n :: ns ++ g :: (post ++ tail) := by
    rw [← List.drop_drop, hdropc, hs, List.drop_left]
  have hf' : f = (c + s) + (n :: ns).length := by rw [hf, hc', hs]; rfl
  have hdropf : ts.drop f = g :: (post ++ tail) := by
    rw [hf', ← List.drop_drop, hdropcs, List.drop_left]
  have hn : ts[c + s]? = some n := by
    have h : (ts.drop (c + s))[0]? = ts[c + s]? := List.getElem?_drop
    rw [hdropcs] at h
    exact h.symm
  -- the move succeeds, and finds no duplicate when it looks for one
  have hmove := moveTasks_rotated hl hc (by
    rw [hstack, List.length_cons] at hroom; omega)
  have hassert := hl.assert_rotated b hc hids hnd
  have hentries := hl.entries_rotated hc
  set q := p.rotated done n ns cur blk g (post ++ tail) with hq
  have hql : Layout q done (changeTaskState n .running :: ns ++
      ((bump cur :: blk).map (hosted g.taskId) ++ g :: post)) tail := hl.rotated hc
  refine ⟨n, q, hn, ?_, ?_, ?_, ?_, ?_, hentries⟩
  · rw [preemptCurTask_cut b hl (assertThat_true b _ (by simpa using hreal)) hc, hmove, ok_bind,
      hassert]
    rfl
  · rw [hs]; simp
  · exact (List.takeWhile_prefix _).length_le
  · rw [hql.tasks, hdropcs, hdropc, hdropf, hf', Nat.add_sub_cancel_left, List.take_left, hs,
      List.take_left, hts, hc', List.take_left]
    simp
  · rw [hq]
    simp only [PbsPlan.rotated, PbsPlan.withTasks, processOf, ne_eq, ite_not]

/-- Tasks 0 and 1 run in the slot of task 3, which comes behind task 2 of process 1. -/
def stackedPlan : PbsPlan :=
  { tasks := (Vector.replicate maxNumberTasksInPlan {})
      |>.set 0 { taskId := 0, processId := 0, slotOwner := 3 } (by decide)
      |>.set 1 { taskId := 1, processId := 0, slotOwner := 3 } (by decide)
      |>.set 2 { taskId := 2, processId := 1, slotOwner := 2 } (by decide)
      |>.set 3 { taskId := 3, processId := 0, slotOwner := 3 } (by decide)
      |>.set 4 { taskId := -2, processId := -2 } (by decide) }

theorem preemptCurTask_rotates_stackedPlan :
    ∃ q, preemptCurTask .userland stackedPlan = .ok q ∧
      (q.tasks.toList.take 5).map PbsTask.taskId = [2, 0, 1, 3, -2] := by
  have hp : Preemptable stackedPlan 4 :=
    ⟨⟨{ taskId := -2, processId := -2 }, by decide +kernel, rfl, rfl⟩,
      by simp only [CountableId]; decide +kernel, by decide +kernel, by decide +kernel, rfl⟩
  have hcur : stackedPlan.tasks.toList[stackedPlan.curTask]? =
      some { taskId := 0, processId := 0, slotOwner := 3 } := by decide +kernel
  have hnext : stackedPlan.tasks.toList[3]? =
      some { taskId := 3, processId := 0, slotOwner := 3 } := by decide +kernel
  obtain ⟨_, q, _, hq, _, _, hlist, _⟩ := preemptCurTask_rotates .userland hp hcur (by decide)
    hnext rfl (by decide +kernel) (by decide) (by decide +kernel) (by decide +kernel)
  refine ⟨q, hq, ?_⟩
  rw [hlist]
  decide +kernel

end Rotation

end PbsLevel2
