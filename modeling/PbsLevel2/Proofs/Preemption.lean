import PbsLevel2.Proofs.Layout
import PbsLevel2.Source.Handling
import Mathlib.Data.List.TakeWhile

/-!
# Preemption is a block rotation

The two searches of `preempt_cur_task` cut the tasks ahead into a stack, the entries it
moves past, and the rest.  The in-place copy of `move_tasks` then exchanges the first
two, provided its read-ahead stays inside the array.
-/

namespace PbsLevel2

open Lib

/-! ## The two searches -/

section Searches

variable {pid : Int} {todo tail : List PbsTask}

theorem skipOwnRun_append {own rest : List PbsTask} {t : PbsTask}
    (hown : ∀ u ∈ own, u.processId = pid) (ht : t.processId ≠ pid) (slot : Nat) :
    skipOwnRun pid (own ++ t :: rest) slot = .ok (t :: rest, slot + own.length) := by
  induction own generalizing slot with
  | nil => simp [skipOwnRun, ht]
  | cons u own ih =>
      rw [List.cons_append, skipOwnRun, if_pos (hown u (by simp)),
        ih (fun v hv => hown v (by simp [hv])), List.length_cons]
      congr 2
      omega

theorem searchSlot_found {mid post : List PbsTask} {f : PbsTask}
    (hmid : ∀ u ∈ mid, u.processId ≠ pid ∧ u.processId ≠ -2) (hf : f.processId = pid)
    (b : Build) {slot : Nat} (hslot : 1 ≤ slot + mid.length) :
    searchSlot b pid (mid ++ f :: post) slot = .ok (some (slot + mid.length - 1)) := by
  induction mid generalizing slot with
  | nil =>
      have hassert : assertThat b .findSlotToMoveTo (decide (slot ≥ 1)) = .ok () := by
        cases b
        · rw [assertThat, decide_eq_true (by simpa using hslot), if_pos rfl]
        · rfl
      rw [List.nil_append, searchSlot, if_pos hf, hassert]
      rfl
  | cons u mid ih =>
      obtain ⟨hne, hend⟩ := hmid u (by simp)
      rw [List.cons_append, searchSlot, if_neg hne, if_neg hend,
        ih (fun v hv => hmid v (by simp [hv])) (by omega), List.length_cons]
      congr 2
      omega

theorem searchSlot_missing {mid post : List PbsTask} {t : PbsTask}
    (hmid : ∀ u ∈ mid, u.processId ≠ pid ∧ u.processId ≠ -2) (ht : t.processId = -2)
    (hpid : pid ≠ -2) (b : Build) (slot : Nat) :
    searchSlot b pid (mid ++ t :: post) slot = .ok none := by
  induction mid generalizing slot with
  | nil => rw [List.nil_append, searchSlot, if_neg (by omega), if_pos ht]
  | cons u mid ih =>
      obtain ⟨hne, hend⟩ := hmid u (by simp)
      rw [List.cons_append, searchSlot, if_neg hne, if_neg hend,
        ih (fun v hv => hmid v (by simp [hv]))]

/-- `t` moves together with `cur` when it stands behind it in the list. -/
def SameSlot (cur t : PbsTask) : Prop :=
  t.taskId ≠ -2 ∧ cur.processId = t.processId ∧ cur.slotOwner = t.slotOwner

instance (cur t : PbsTask) : Decidable (SameSlot cur t) :=
  inferInstanceAs (Decidable (_ ∧ _))

theorem stackSizeFrom_append {cur t : PbsTask} {blk post : List PbsTask}
    (hblk : ∀ u ∈ blk, SameSlot cur u) (ht : ¬ SameSlot cur t) :
    stackSizeFrom cur (blk ++ t :: post) = .ok blk.length := by
  induction blk with
  | nil => rw [List.nil_append, stackSizeFrom, if_neg (show ¬ (_ ∧ _) from ht)]; rfl
  | cons u blk ih =>
      rw [List.cons_append, stackSizeFrom, if_pos (show _ ∧ _ from hblk u (by simp)),
        ih fun v hv => hblk v (by simp [hv])]
      rfl

end Searches

/-! ## The in-place move -/

section Move

private theorem take_replaced {l : List PbsTask} {i : Nat} (hi : i < l.length) (t : PbsTask) :
    (l.take i ++ t :: l.drop (i + 1)).take (i + 1) = l.take i ++ [t] := by
  have hlen : (l.take i).length = i := by simp; omega
  rw [List.take_append, hlen, List.take_of_length_le (by omega),
    show i + 1 - i = 1 by omega, List.take_succ_cons, List.take_zero]

private theorem drop_replaced {l : List PbsTask} {i : Nat} (hi : i < l.length) (t : PbsTask)
    (k : Nat) : (l.take i ++ t :: l.drop (i + 1)).drop (i + 1 + k) = l.drop (i + 1 + k) := by
  have hlen : (l.take i).length = i := by simp; omega
  rw [List.drop_append, hlen, List.drop_of_length_le (by omega), List.nil_append,
    show i + 1 + k - i = k + 1 by omega, List.drop_succ_cons, List.drop_drop]

variable {p : PbsPlan} {l : List PbsTask}

theorem writeTask_of_lt (hl : p.tasks.toList = l) {i : Nat} (hi : i < l.length)
    (t : PbsTask) : p.writeTask i t = .ok (p.withTasks (l.take i ++ t :: l.drop (i + 1))) ∧
      (p.withTasks (l.take i ++ t :: l.drop (i + 1))).tasks.toList =
        l.take i ++ t :: l.drop (i + 1) := by
  have hcut : p.tasks.toList = l.take i ++ l[i] :: l.drop (i + 1) := by
    rw [hl, List.getElem_cons_drop, List.take_append_drop]
  have hlen : (l.take i).length = i := by simp; omega
  have hwrite := writeTask_joint hcut t
  rw [hlen] at hwrite
  exact ⟨hwrite, toList_withTasks_joint hcut t⟩

theorem readTask_of_lt (hl : p.tasks.toList = l) {i : Nat} (hi : i < l.length) :
    p.readTask i = .ok l[i] :=
  readTask_eq_ok.2 (by rw [hl, List.getElem?_eq_getElem hi])

theorem savePreemptedTasks_eq (hl : p.tasks.toList = l) (n i : Nat)
    (hi : i + n ≤ l.length) : savePreemptedTasks p n i = .ok ((l.drop i).take n) := by
  induction n generalizing i with
  | zero => rfl
  | succ n ih =>
      rw [savePreemptedTasks, readTask_of_lt hl (by omega), ok_bind, ih (i + 1) (by omega),
        List.drop_eq_getElem_cons (show i < l.length by omega), List.take_succ_cons]
      rfl

/-- The shift reads every entry before it overwrites it: the loop replaces `n` entries by
the `n` entries `s` further on. -/
theorem shiftForward_eq (s n i : Nat) (hl : p.tasks.toList = l)
    (hroom : n = 0 ∨ i + n + s ≤ l.length) :
    shiftForward s n i p = .ok (p.withTasks
      (l.take i ++ ((l.drop (i + s)).take n ++ l.drop (i + n)))) := by
  induction n generalizing i p l with
  | zero =>
      subst hl
      rw [shiftForward, List.take_zero, List.nil_append, Nat.add_zero, List.take_append_drop,
        withTasks_toList]
  | succ n ih =>
      have hi : i + (n + 1) + s ≤ l.length := by omega
      obtain ⟨hwrite, hl'⟩ := writeTask_of_lt hl (show i < l.length by omega) l[i + s]
      rw [shiftForward, readTask_of_lt hl (by omega), ok_bind, hwrite, ok_bind,
        ih (i + 1) hl' (by simp; omega)]
      -- the entries still to be read lie behind the one just written
      rw [take_replaced (by omega), drop_replaced (by omega), drop_replaced (by omega),
        List.drop_eq_getElem_cons (show i + s < l.length by omega), List.take_succ_cons]
      simp only [PbsPlan.withTasks, List.append_assoc, List.cons_append, List.nil_append]
      rw [show i + 1 + s = i + s + 1 by omega, show i + 1 + n = i + (n + 1) by omega]

theorem shiftForward_outOfBounds (s n i : Nat) (hs : 1 ≤ s) (hn : 1 ≤ n)
    (hroom : maxNumberTasksInPlan < i + n + s) (hi : i ≤ maxNumberTasksInPlan) :
    shiftForward s n i p = .error .outOfBounds := by
  induction n generalizing i p with
  | zero => omega
  | succ n ih =>
      by_cases hread : i + s < maxNumberTasksInPlan
      · have hlen : p.tasks.toList.length = maxNumberTasksInPlan := p.tasks.length_toList
        have hlt : i + s < p.tasks.toList.length := by omega
        obtain ⟨hwrite, _⟩ := writeTask_of_lt (p := p) rfl (show i < _ by omega)
          p.tasks.toList[i + s]
        rw [shiftForward, readTask_of_lt rfl (by omega), ok_bind, hwrite, ok_bind]
        exact ih (i + 1) (by omega) (by omega) (by omega)
      · rw [shiftForward, PbsPlan.readTask, dif_neg hread]
        rfl

theorem writePreemptedTasks_eq (hl : p.tasks.toList = l) (ts : List PbsTask) (i : Nat)
    (hi : i + ts.length ≤ l.length) :
    writePreemptedTasks ts i p = .ok (p.withTasks
      (l.take i ++ (ts ++ l.drop (i + ts.length)))) := by
  induction ts generalizing i p l with
  | nil =>
      subst hl
      rw [writePreemptedTasks, List.nil_append, List.length_nil, Nat.add_zero,
        List.take_append_drop, withTasks_toList]
  | cons t ts ih =>
      rw [List.length_cons] at hi
      obtain ⟨hwrite, hl'⟩ := writeTask_of_lt hl (show i < l.length by omega) t
      rw [writePreemptedTasks, hwrite, ok_bind, ih hl' (i + 1) (by simp; omega)]
      rw [take_replaced (by omega), drop_replaced (by omega)]
      simp only [PbsPlan.withTasks, List.append_assoc, List.cons_append, List.nil_append,
        List.length_cons]
      rw [show i + 1 + ts.length = i + (ts.length + 1) by omega]

end Move

def hosted (slotId : Int) (t : PbsTask) : PbsTask :=
  { t with slotOwner := slotId }

/-- `was_preempted++`. -/
def bump (t : PbsTask) : PbsTask :=
  { t with wasPreempted := t.wasPreempted + 1 }

section MoveTasks

variable {p : PbsPlan} {done stk ns post : List PbsTask} {n f : PbsTask}

theorem take_shifted {k : Nat} (hk : 1 ≤ k) (done ns post : List PbsTask) (n f : PbsTask) :
    (done ++ ((n :: ns ++ f :: post).take (k + ns.length) ++
      (n :: ns ++ f :: post).drop ns.length)).take (done.length + ns.length + 1) =
        done ++ n :: ns := by
  have hfits : ns.length + 1 ≤ ((n :: ns ++ f :: post).take (k + ns.length)).length := by
    rw [List.length_take, List.length_append, List.length_cons, List.length_cons]
    omega
  rw [Nat.add_assoc, List.take_length_add_append, List.take_append_of_le_length hfits,
    List.take_take, Nat.min_eq_left (by omega)]
  simp

theorem drop_shifted {k : Nat} {ns post : List PbsTask} {n f : PbsTask}
    (hfits : k + ns.length ≤ (n :: ns ++ f :: post).length) (done : List PbsTask) :
    (done ++ ((n :: ns ++ f :: post).take (k + ns.length) ++
      (n :: ns ++ f :: post).drop ns.length)).drop (done.length + ns.length + 1 + k) =
        f :: post := by
  have hlen : ((n :: ns ++ f :: post).take (k + ns.length)).length = k + ns.length := by
    rw [List.length_take]
    omega
  rw [show done.length + ns.length + 1 + k = done.length + ((k + ns.length) + 1) by omega,
    List.drop_length_add_append, List.drop_append, hlen, List.drop_of_length_le (by omega),
    List.nil_append, Nat.add_sub_cancel_left, List.drop_drop]
  simp

theorem readTask_insertion (h : p.tasks.toList = done ++ (stk ++ (n :: ns ++ f :: post))) :
    p.readTask (done.length + stk.length + ns.length + 1) = .ok f := by
  have hcut : p.tasks.toList = (done ++ stk ++ n :: ns) ++ f :: post := by
    rw [h]
    simp
  have hread := readTask_joint hcut
  rwa [show (done ++ stk ++ n :: ns).length = done.length + stk.length + ns.length + 1 by
    simp; omega] at hread

/-- The shift and the write of `move_tasks` exchange the stack `stk` with the entries
`n :: ns` between it and the task `f` it moves in front of. -/
theorem moveTasks_joint (h : p.tasks.toList = done ++ (stk ++ (n :: ns ++ f :: post)))
    (hcur : p.curTask = done.length) (hindex : p.indexCurTask = done.length)
    (hstk : 1 ≤ stk.length)
    (hroom : done.length + ns.length + 2 * stk.length ≤ maxNumberTasksInPlan) :
    moveTasks (done.length + stk.length + ns.length) stk.length p = .ok
      { p.withTasks (done ++ (changeTaskState n .running :: ns ++
          (stk.map (hosted f.taskId) ++ f :: post))) with
        curProcess := processOf n } := by
  have hlen : (done ++ (stk ++ (n :: ns ++ f :: post))).length = maxNumberTasksInPlan := by
    rw [← h]; exact p.tasks.length_toList
  set rest := n :: ns ++ f :: post with hrest
  have hrestlen : rest.length = ns.length + 1 + (post.length + 1) := by simp [hrest]; omega
  have htotal : done.length + (stk.length + rest.length) = maxNumberTasksInPlan := by
    simpa using hlen
  have hsave : savePreemptedTasks p stk.length p.curTask = .ok stk := by
    rw [savePreemptedTasks_eq h _ _ (by rw [hlen, hcur]; omega), hcur]
    simp
  have hdrop : (done ++ (stk ++ rest)).drop (done.length + stk.length) = rest := by
    rw [← List.drop_drop]; simp
  have hshift := shiftForward_eq (p := p) stk.length (stk.length + ns.length) done.length h
    (.inr (by rw [hlen]; omega))
  rw [hdrop, ← Nat.add_assoc, ← List.drop_drop, hdrop, List.take_left] at hshift
  have hshifted : (rest.take (stk.length + ns.length)).length = stk.length + ns.length := by
    rw [List.length_take]; omega
  have hl' : (done ++ (rest.take (stk.length + ns.length) ++ rest.drop ns.length)).length =
      maxNumberTasksInPlan := by
    rw [List.length_append, List.length_append, hshifted, List.length_drop]; omega
  have hwrite := writePreemptedTasks_eq (toList_withTasks (p := p) hl')
    (stk.map (hosted f.taskId)) (done.length + ns.length + 1)
    (by rw [hl', List.length_map]; omega)
  have hfront := take_shifted hstk done ns post n f
  have hfits : stk.length + ns.length ≤ (n :: ns ++ f :: post).length := by
    rw [← hrest]
    omega
  have hback := drop_shifted hfits done
  rw [← hrest] at hfront hback
  rw [List.length_map, hfront, hback] at hwrite
  have hl'' : (done ++ n :: ns ++ (stk.map (hosted f.taskId) ++ f :: post)).length =
      maxNumberTasksInPlan := by
    rw [← hlen, hrest]
    simp only [List.length_append, List.length_map]
    omega
  rw [moveTasks, readTask_insertion h, ok_bind, hsave, ok_bind, hindex,
    show done.length + stk.length + ns.length - done.length = stk.length + ns.length by omega,
    hshift, ok_bind, if_neg (by omega),
    show done.length + stk.length + ns.length + 1 - stk.length = done.length + ns.length + 1
      by omega]
  change (writePreemptedTasks (stk.map (hosted f.taskId)) _ _ >>= _) = _
  rw [hwrite, ok_bind]
  have hl₃ : (p.withTasks (done ++ n :: ns ++ (stk.map (hosted f.taskId) ++ f :: post))).tasks.toList =
      done ++ n :: (ns ++ (stk.map (hosted f.taskId) ++ f :: post)) := by
    rw [toList_withTasks hl'']; simp
  exact updateCurProcess_joint hl₃ hcur

theorem moveTasks_outOfBounds (h : p.tasks.toList = done ++ (stk ++ (n :: ns ++ f :: post)))
    (hcur : p.curTask = done.length) (hindex : p.indexCurTask = done.length)
    (hstk : 1 ≤ stk.length)
    (hroom : maxNumberTasksInPlan < done.length + ns.length + 2 * stk.length) :
    moveTasks (done.length + stk.length + ns.length) stk.length p = .error .outOfBounds := by
  have hlen : (done ++ (stk ++ (n :: ns ++ f :: post))).length = maxNumberTasksInPlan := by
    rw [← h]; exact p.tasks.length_toList
  have htotal := hlen
  simp only [List.length_append, List.length_cons] at htotal
  rw [moveTasks, readTask_insertion h, ok_bind, savePreemptedTasks_eq h _ _ (by rw [hlen, hcur]; omega),
    ok_bind, hindex,
    show done.length + stk.length + ns.length - done.length = stk.length + ns.length by omega,
    shiftForward_outOfBounds _ _ _ hstk (by omega) (by omega) (by omega)]
  rfl

end MoveTasks

/-! ## Where a preemption cuts the tasks ahead -/

/-- How the two searches cut the tasks `todo` behind the current task `cur`: `cur :: blk` is
the stack that moves, `n :: ns` the entries it moves past (what is left of its own run of
tasks, then tasks of other processes and free slots) and `f` the next task of its
process behind them. -/
structure Cut (cur : PbsTask) (todo blk : List PbsTask) (n : PbsTask) (ns : List PbsTask)
    (f : PbsTask) (post : List PbsTask) : Prop where
  todo_eq : todo = blk ++ (n :: ns ++ f :: post)
  stack : ∀ u ∈ blk, SameSlot cur u
  stack_end : ¬ SameSlot cur n
  gap : ∃ keep others, n :: ns = keep ++ others ∧ others ≠ [] ∧
    (∀ u ∈ keep, u.processId = cur.processId) ∧ ∀ u ∈ others, u.processId ≠ cur.processId
  next : f.processId = cur.processId

theorem Cut.view_perm_bumped {α : Type} {v : PbsTask → α} {cur n f : PbsTask}
    {todo blk ns post : List PbsTask} (hc : Cut cur todo blk n ns f post) (slotId : Int)
    (hstart : ∀ t, v (changeTaskState t .running) = v t)
    (hhosted : ∀ t, v (hosted slotId t) = v t) :
    ((changeTaskState n .running :: ns ++
      ((bump cur :: blk).map (hosted slotId) ++ f :: post)).map v).Perm
        ((bump cur :: todo).map v) := by
  have hmoved : ((bump cur :: blk).map (hosted slotId)).map v = (bump cur :: blk).map v := by
    rw [List.map_map]
    exact List.map_congr_left fun t _ => hhosted t
  rw [hc.todo_eq, ← List.cons_append, List.map_append, List.map_append, List.map_append,
    List.map_append, hmoved, List.map_cons, List.map_cons, hstart]
  exact List.perm_append_comm_assoc _ _ _

theorem Cut.view_perm {α : Type} {v : PbsTask → α} {cur n f : PbsTask}
    {todo blk ns post : List PbsTask} (hc : Cut cur todo blk n ns f post) (slotId : Int)
    (hstart : ∀ t, v (changeTaskState t .running) = v t)
    (hbump : ∀ t, v (bump t) = v t) (hhosted : ∀ t, v (hosted slotId t) = v t) :
    ((changeTaskState n .running :: ns ++
      ((bump cur :: blk).map (hosted slotId) ++ f :: post)).map v).Perm
        ((cur :: todo).map v) := by
  have hview : (bump cur :: todo).map v = (cur :: todo).map v :=
    congrArg (· :: todo.map v) (hbump cur)
  rw [← hview]
  exact hc.view_perm_bumped slotId hstart hhosted

/-- No task of the current process follows behind its own run. -/
def NoSlot (cur : PbsTask) (todo : List PbsTask) : Prop :=
  ∃ own others, todo = own ++ others ∧ (∀ u ∈ own, u.processId = cur.processId) ∧
    ∀ u ∈ others, u.processId ≠ cur.processId

theorem exists_cut_or_noSlot (cur : PbsTask) (todo : List PbsTask) :
    (∃ blk n ns f post, Cut cur todo blk n ns f post) ∨ NoSlot cur todo := by
  set own := todo.takeWhile (fun u => u.processId = cur.processId) with howndef
  set others := todo.dropWhile (fun u => u.processId = cur.processId) with hothersdef
  have htodo : todo = own ++ others := (List.takeWhile_append_dropWhile).symm
  have hown : ∀ u ∈ own, u.processId = cur.processId := fun u hu => by
    simpa using List.mem_takeWhile_imp hu
  by_cases hex : ∃ u ∈ others, u.processId = cur.processId
  · left
    -- the first task of the process among `others`
    set gap := others.takeWhile (fun u => u.processId ≠ cur.processId) with hgapdef
    set rest := others.dropWhile (fun u => u.processId ≠ cur.processId) with hrestdef
    have hothers : others = gap ++ rest := (List.takeWhile_append_dropWhile).symm
    have hgap : ∀ u ∈ gap, u.processId ≠ cur.processId := fun u hu => by
      simpa using List.mem_takeWhile_imp hu
    have hrest : rest ≠ [] := by
      intro hnil
      obtain ⟨u, hu, hpid⟩ := hex
      rw [hothers, hnil, List.append_nil] at hu
      exact hgap u hu hpid
    obtain ⟨f, post, hfp⟩ := List.exists_cons_of_ne_nil hrest
    have hf : f.processId = cur.processId := by
      have h := List.head?_dropWhile_not (fun u => decide (u.processId ≠ cur.processId)) others
      rw [← hrestdef, hfp] at h
      simpa using h
    have hgapne : gap ≠ [] := by
      intro hnil
      have h := List.head?_dropWhile_not (fun u => decide (u.processId = cur.processId)) todo
      rw [← hothersdef, hothers, hnil, hfp] at h
      simp [hf] at h
    -- the stack is a prefix of the own run
    set blk := own.takeWhile (fun u => SameSlot cur u) with hblkdef
    set keep := own.dropWhile (fun u => SameSlot cur u) with hkeepdef
    have hownsplit : own = blk ++ keep := (List.takeWhile_append_dropWhile).symm
    obtain ⟨n, ns, hn⟩ := List.exists_cons_of_ne_nil
      (show keep ++ gap ≠ [] by simp [hgapne])
    have hkeep : ∀ u ∈ keep, u.processId = cur.processId := fun u hu =>
      hown u (by rw [hownsplit]; simp [hu])
    refine ⟨blk, n, ns, f, post, ?_, ?_, ?_, ⟨keep, gap, hn.symm, hgapne, hkeep, hgap⟩, hf⟩
    · rw [← hn, htodo, hothers, hfp, hownsplit]; simp
    · intro u hu
      simpa using List.mem_takeWhile_imp hu
    · cases hk : keep with
      | nil =>
          rw [hk, List.nil_append] at hn
          intro hsame
          exact hgap n (by rw [hn]; simp) hsame.2.1.symm
      | cons k ks =>
          have h := List.head?_dropWhile_not (fun u => decide (SameSlot cur u)) own
          rw [← hkeepdef, hk] at h
          rw [hk, List.cons_append] at hn
          obtain ⟨rfl, _⟩ := List.cons.inj hn
          simpa using h
  · right
    refine ⟨own, others, htodo, hown, fun u hu hpid => hex ⟨u, hu, hpid⟩⟩

section Searching

variable {p : PbsPlan} {done todo tail blk ns post : List PbsTask} {cur n f : PbsTask}

theorem Layout.drop_curTask (hl : Layout p done todo tail) :
    p.tasks.toList.drop p.curTask = todo ++ tail := by
  rw [hl.tasks, hl.cur, List.drop_left]

theorem Cut.run (hc : Cut cur todo blk n ns f post) : ∃ keep others,
    n :: ns = keep ++ others ∧ others ≠ [] ∧
      (∀ u ∈ cur :: blk ++ keep, u.processId = cur.processId) ∧
      (∀ u ∈ others, u.processId ≠ cur.processId) ∧
      cur :: todo = (cur :: blk ++ keep) ++ (others ++ f :: post) := by
  obtain ⟨keep, others, hgap, hne, hkeep, hothers⟩ := hc.gap
  refine ⟨keep, others, hgap, hne, ?_, hothers, ?_⟩
  · intro u hu
    rcases List.mem_append.1 hu with hu | hu
    · rcases List.mem_cons.1 hu with rfl | hu
      · rfl
      · exact (hc.stack u hu).2.1.symm
    · exact hkeep u hu
  · rw [hc.todo_eq, hgap]
    simp

theorem findSlotToMoveTo_cut (hl : Layout p done (cur :: todo) tail)
    (hc : Cut cur todo blk n ns f post) (b : Build) :
    findSlotToMoveTo b cur.processId p =
      .ok (some (done.length + (blk.length + 1) + ns.length)) := by
  obtain ⟨keep, others, hgap, hne, hown, hothers, hsplit⟩ := hc.run
  obtain ⟨o, os, rfl⟩ := List.exists_cons_of_ne_nil hne
  have hcut : cur :: todo ++ tail =
      (cur :: blk ++ keep) ++ o :: (os ++ f :: (post ++ tail)) := by
    rw [hsplit]
    simp
  have hlen : keep.length + (os.length + 1) = ns.length + 1 := by
    have := congrArg List.length hgap
    simpa using this.symm
  have hmid : ∀ u ∈ o :: os, u.processId ≠ cur.processId ∧ u.processId ≠ -2 := by
    intro u hu
    refine ⟨hothers u hu, (hl.live u ?_).2⟩
    rw [hc.todo_eq, hgap]
    simp only [List.mem_append, List.mem_cons] at hu ⊢
    tauto
  rw [findSlotToMoveTo, hl.drop_curTask, hcut, skipOwnRun_append hown (hothers o (by simp)),
    ok_bind, hl.index]
  change searchSlot b cur.processId ((o :: os) ++ f :: (post ++ tail)) _ = _
  rw [searchSlot_found hmid hc.next b (by simp; omega)]
  congr 2
  simp only [List.length_append, List.length_cons]
  omega

theorem getStackSizePreemptedTasks_cut (hl : Layout p done (cur :: todo) tail)
    (hc : Cut cur todo blk n ns f post) :
    getStackSizePreemptedTasks p = .ok (blk.length + 1) := by
  have hcut : cur :: todo ++ tail = (cur :: blk) ++ n :: (ns ++ f :: post ++ tail) := by
    rw [hc.todo_eq]; simp
  have hstack : ∀ u ∈ cur :: blk, SameSlot cur u := by
    intro u hu
    rcases List.mem_cons.1 hu with rfl | hu
    · exact ⟨(hl.live u (by simp)).1, rfl, rfl⟩
    · exact hc.stack u hu
  rw [getStackSizePreemptedTasks, hl.readCurTask, ok_bind, hl.drop_curTask, hcut,
    stackSizeFrom_append hstack hc.stack_end]
  rfl

theorem findSlotToMoveTo_noSlot (hl : Layout p done (cur :: todo) tail)
    (hn : NoSlot cur todo) (b : Build) : findSlotToMoveTo b cur.processId p = .ok none := by
  obtain ⟨own, others, rfl, hown, hothers⟩ := hn
  obtain ⟨term, rest, rfl, _, htpid⟩ := hl.terminates
  have hcurpid : cur.processId ≠ -2 := (hl.live cur (by simp)).2
  have hown' : ∀ u ∈ cur :: own, u.processId = cur.processId := by
    intro u hu
    rcases List.mem_cons.1 hu with rfl | hu
    · rfl
    · exact hown u hu
  have hmid : ∀ u ∈ others, u.processId ≠ cur.processId ∧ u.processId ≠ -2 := fun u hu =>
    ⟨hothers u hu, (hl.live u (by simp [hu])).2⟩
  rw [findSlotToMoveTo, hl.drop_curTask]
  cases others with
  | nil =>
      rw [List.append_nil, skipOwnRun_append hown' (by omega), ok_bind]
      exact @searchSlot_missing _ [] rest term (by simp) htpid hcurpid b _
  | cons o os =>
      rw [show cur :: (own ++ o :: os) ++ term :: rest =
          (cur :: own) ++ o :: (os ++ term :: rest) by simp,
        skipOwnRun_append hown' (hothers o (by simp)), ok_bind]
      exact @searchSlot_missing _ (o :: os) rest term hmid htpid hcurpid b _

theorem getStackSizePreemptedTasks_ok (hl : Layout p done (cur :: todo) tail) :
    ∃ n, getStackSizePreemptedTasks p = .ok n := by
  obtain ⟨term, rest, rfl, htid, _⟩ := hl.terminates
  set stk := (cur :: todo).takeWhile (fun u => SameSlot cur u) with hstk
  have hsplit : cur :: todo =
      stk ++ (cur :: todo).dropWhile (fun u => SameSlot cur u) :=
    (List.takeWhile_append_dropWhile).symm
  have hstack : ∀ u ∈ stk, SameSlot cur u := fun u hu => by
    simpa using List.mem_takeWhile_imp hu
  refine ⟨stk.length, ?_⟩
  rw [getStackSizePreemptedTasks, hl.readCurTask, ok_bind, hl.drop_curTask, hsplit,
    List.append_assoc]
  cases hd : (cur :: todo).dropWhile (fun u => SameSlot cur u) with
  | nil => exact stackSizeFrom_append hstack fun h => h.1 htid
  | cons u us =>
      have h := List.head?_dropWhile_not (fun u => decide (SameSlot cur u)) (cur :: todo)
      rw [hd] at h
      exact stackSizeFrom_append hstack (by simpa using h)

end Searching

/-! ## `preempt_cur_task` -/

section Preempt

variable {p : PbsPlan} {done todo tail blk ns post : List PbsTask} {cur n f : PbsTask}

def PbsPlan.bumped (p : PbsPlan) (done : List PbsTask) (cur : PbsTask)
    (rest : List PbsTask) : PbsPlan :=
  p.withTasks (done ++ bump cur :: rest)

/-- The plan after the stack `cur :: blk` moved past `n :: ns` in front of `f`. -/
def PbsPlan.rotated (p : PbsPlan) (done : List PbsTask) (n : PbsTask) (ns : List PbsTask)
    (cur : PbsTask) (blk : List PbsTask) (f : PbsTask) (rest : List PbsTask) : PbsPlan :=
  { p.withTasks (done ++ (changeTaskState n .running :: ns ++
      ((bump cur :: blk).map (hosted f.taskId) ++ f :: rest))) with
    curProcess := processOf n }

theorem Layout.bumped (hl : Layout p done (cur :: todo) tail) :
    Layout (p.bumped done cur (todo ++ tail)) done (bump cur :: todo) tail where
  tasks := toList_withTasks_joint hl.tasks _
  terminates := hl.terminates
  live := by
    intro t ht
    rcases List.mem_append.1 ht with ht | ht
    · exact hl.live t (by simp [ht])
    · rcases List.mem_cons.1 ht with rfl | ht
      · exact hl.live cur (by simp)
      · exact hl.live t (by simp [ht])
  cur := hl.cur
  index := hl.index

theorem modifyTask_bump (hl : Layout p done (cur :: todo) tail) :
    p.modifyTask p.curTask (fun t => { t with wasPreempted := t.wasPreempted + 1 }) =
      .ok (p.bumped done cur (todo ++ tail)) := by
  rw [hl.cur]
  exact modifyTask_joint hl.tasks bump

theorem preemptCurTask_cut (b : Build) (hl : Layout p done (cur :: todo) tail)
    (hentry : assertThat b .preemptCurTaskEntry (cur.taskId ≠ -1) = .ok ())
    (hc : Cut cur todo blk n ns f post) :
    preemptCurTask b p =
      (moveTasks (done.length + (blk.length + 1) + ns.length) (blk.length + 1)
        (p.bumped done cur (todo ++ tail)) >>= fun q =>
          assertNoIdIsDuplicated b q >>= fun _ => .ok q) := by
  have hl₁ := hl.bumped
  have hc₁ : Cut (bump cur) todo blk n ns f post := ⟨hc.1, hc.2, hc.3, hc.4, hc.5⟩
  have hfind : findSlotToMoveTo b cur.processId (p.bumped done cur (todo ++ tail)) = _ :=
    findSlotToMoveTo_cut hl₁ hc₁ b
  rw [preemptCurTask, hl.readCurTask, ok_bind, hentry, ok_bind, modifyTask_bump hl, ok_bind, hfind,
    ok_bind, getStackSizePreemptedTasks_cut hl₁ hc₁,
    ok_bind]
  change (assertThat b _ (decide (_ > _)) >>= _) = _
  rw [assertThat_true b _ (by rw [hl₁.index]; simp; omega), ok_bind]
  rfl

theorem preemptCurTask_noSlot (b : Build) (hl : Layout p done (cur :: todo) tail)
    (hentry : assertThat b .preemptCurTaskEntry (cur.taskId ≠ -1) = .ok ()) (hn : NoSlot cur todo) :
    preemptCurTask b p =
      handleNoPreemptionSlotFound (p.bumped done cur (todo ++ tail)) := by
  have hl₁ := hl.bumped
  have hfind : findSlotToMoveTo b cur.processId (p.bumped done cur (todo ++ tail)) = _ :=
    findSlotToMoveTo_noSlot hl₁ hn b
  obtain ⟨m, hm⟩ := getStackSizePreemptedTasks_ok hl₁
  rw [preemptCurTask, hl.readCurTask, ok_bind, hentry, ok_bind, modifyTask_bump hl, ok_bind, hfind,
    ok_bind, hm, ok_bind]

theorem Layout.bumped_cut (hl : Layout p done (cur :: todo) tail)
    (hc : Cut cur todo blk n ns f post) :
    (p.bumped done cur (todo ++ tail)).tasks.toList =
      done ++ ((bump cur :: blk) ++ (n :: ns ++ f :: (post ++ tail))) := by
  rw [hl.bumped.tasks, hc.todo_eq]
  simp

theorem moveTasks_rotated (hl : Layout p done (cur :: todo) tail)
    (hc : Cut cur todo blk n ns f post)
    (hroom : done.length + ns.length + 2 * (blk.length + 1) ≤ maxNumberTasksInPlan) :
    moveTasks (done.length + (blk.length + 1) + ns.length) (blk.length + 1)
      (p.bumped done cur (todo ++ tail)) =
        .ok (p.rotated done n ns cur blk f (post ++ tail)) :=
  moveTasks_joint (hl.bumped_cut hc) hl.cur hl.index (by simp) hroom

theorem preemptCurTask_kernel_cut (hl : Layout p done (cur :: todo) tail)
    (hc : Cut cur todo blk n ns f post) :
    preemptCurTask .kernel p =
      if done.length + ns.length + 2 * (blk.length + 1) ≤ maxNumberTasksInPlan then
        .ok (p.rotated done n ns cur blk f (post ++ tail))
      else .error .outOfBounds := by
  rw [preemptCurTask_cut .kernel hl rfl hc]
  split <;> rename_i hroom
  · rw [moveTasks_rotated hl hc hroom]
    rfl
  · have hmove := moveTasks_outOfBounds (hl.bumped_cut hc) hl.cur hl.index (by simp)
      (by simpa using hroom)
    rw [List.length_cons] at hmove
    rw [hmove]
    rfl

theorem Layout.rotated (hl : Layout p done (cur :: todo) tail)
    (hc : Cut cur todo blk n ns f post) :
    Layout (p.rotated done n ns cur blk f (post ++ tail)) done
      (changeTaskState n .running :: ns ++
        ((bump cur :: blk).map (hosted f.taskId) ++ f :: post)) tail where
  tasks := by
    have hlen : p.tasks.toList.length = maxNumberTasksInPlan := p.tasks.length_toList
    have heq : done ++ (changeTaskState n .running :: ns ++
        ((bump cur :: blk).map (hosted f.taskId) ++ f :: (post ++ tail))) =
        done ++ ((changeTaskState n .running :: ns ++
        ((bump cur :: blk).map (hosted f.taskId) ++ f :: post)) ++ tail) := by simp
    rw [← heq]
    refine toList_withTasks (p := p) ?_
    rw [← hlen, hl.tasks, hc.todo_eq]
    simp
    omega
  terminates := hl.terminates
  live := by
    have hlive : ∀ t ∈ done ++ cur :: (blk ++ (n :: ns ++ f :: post)),
        t.taskId ≠ -2 ∧ t.processId ≠ -2 := by rw [← hc.todo_eq]; exact hl.live
    intro t ht
    simp only [List.mem_append, List.mem_cons, List.map_cons, List.mem_map] at ht hlive
    rcases ht with ht | (rfl | ht) | (rfl | ⟨u, hu, rfl⟩) | ht
    · exact hlive t (.inl ht)
    · exact hlive n (by simp)
    · exact hlive t (by simp [ht])
    · exact hlive cur (by simp)
    · exact hlive u (by simp [hu])
    · exact hlive t (by simp [ht])
  cur := hl.cur
  index := hl.index

/-- A preemption that succeeds moved a stack with room to spare, or ended the plan. -/
theorem preemptCurTask_eq_ok {q : PbsPlan} {b : Build} (hl : Layout p done (cur :: todo) tail)
    (h : preemptCurTask b p = .ok q) :
    (∃ blk n ns f post, Cut cur todo blk n ns f post ∧
      done.length + ns.length + 2 * (blk.length + 1) ≤ maxNumberTasksInPlan ∧
      q = p.rotated done n ns cur blk f (post ++ tail)) ∨
    NoSlot cur todo ∧ ∃ q₁, updateRetiredInstructions
      (cur.instructionsReal - cur.instructionsRetiredTask) (p.bumped done cur (todo ++ tail)) =
        .ok q₁ ∧ q = { q₁ with state := .planFinished } := by
  have hentry : assertThat b .preemptCurTaskEntry (cur.taskId ≠ -1) = .ok () := by
    rw [preemptCurTask, hl.readCurTask, ok_bind] at h
    exact (bind_eq_ok.1 h).choose_spec.1
  rcases exists_cut_or_noSlot cur todo with ⟨blk, n, ns, f, post, hc⟩ | hn
  · left
    rw [preemptCurTask_cut b hl hentry hc] at h
    obtain ⟨q₁, hmove, h⟩ := bind_eq_ok.1 h
    obtain ⟨_, _, h⟩ := bind_eq_ok.1 h
    cases h
    by_cases hroom : done.length + ns.length + 2 * (blk.length + 1) ≤ maxNumberTasksInPlan
    · rw [moveTasks_rotated hl hc hroom] at hmove
      exact ⟨blk, n, ns, f, post, hc, hroom, (Except.ok.inj hmove).symm⟩
    · have hout := moveTasks_outOfBounds (hl.bumped_cut hc) hl.cur hl.index (by simp)
        (by simpa using hroom)
      rw [List.length_cons] at hout
      rw [hout] at hmove
      cases hmove
  · right
    rw [preemptCurTask_noSlot b hl hentry hn, handleNoPreemptionSlotFound,
      hl.bumped.readCurTask, ok_bind] at h
    obtain ⟨q₁, hq₁, h⟩ := bind_eq_ok.1 h
    exact ⟨hn, q₁, hq₁, (Except.ok.inj h).symm⟩

end Preempt

end PbsLevel2
