import PbsLevel2.Lib.Nearby
import PbsLevel2.Proofs.Limits
import PbsLevel2.Proofs.Pointers

/-!
# The slots preempted tasks move into

A preempted stack gets the slot of the task behind it.  That task may be a guest itself, moved
there when a part of the run of its process was left in front: its own slot is then used up.
-/

namespace PbsLevel2

open Lib

/-! ## Unused slots -/

/-- No task behind the front run of `l` that owns its slot has used it. -/
def Unused (l : List PbsTask) : Prop :=
  ∀ o ∈ behindRun PbsTask.processId l, o.taskId ≠ -1 → o.slotOwner = o.taskId →
    o.instructionsRetiredSlot = 0

/-- The slot owner of a task stands in the run of the task, and behind the run at the front the
slots are unused. -/
structure Unspent (p : PbsPlan) : Prop extends Owned p where
  near : Nearby PbsTask.processId Owns p.todoTasks
  unused : Unused p.todoTasks

def PbsTask.stake (t : PbsTask) : (Int × Int × Int) × Int :=
  (t.link, t.instructionsRetiredSlot)

section Kept

variable {p q : PbsPlan} {done todo rest tail done' todo' tail' l l' : List PbsTask} {cur : PbsTask}

theorem nearby_of_link (hl : l'.map PbsTask.link = l.map PbsTask.link)
    (h : Nearby PbsTask.processId Owns l) : Nearby PbsTask.processId Owns l' := by
  have hmap : Nearby (fun a : Int × Int × Int => a.2.1)
      (fun a o => o.1 = a.2.2 ∧ o.2.1 = a.2.1) (l.map PbsTask.link) :=
    Nearby.map_iff.2 h
  rw [← hl] at hmap
  exact (Nearby.map_iff (g := PbsTask.link)).1 hmap

theorem unused_of_stake (hl : l'.map PbsTask.stake = l.map PbsTask.stake) (h : Unused l) :
    Unused l' := by
  have hbehind : (behindRun PbsTask.processId l').map PbsTask.stake =
      (behindRun PbsTask.processId l).map PbsTask.stake := by
    have hmap := congrArg (behindRun fun a : (Int × Int × Int) × Int => a.1.2.1) hl
    rw [behindRun_map, behindRun_map] at hmap
    exact hmap
  intro o ho hreal hown
  obtain ⟨u, hu, hstake⟩ := mem_of_map_eq hbehind ho
  simp only [PbsTask.stake, PbsTask.link, Prod.mk.injEq] at hstake
  obtain ⟨⟨hid, _, howner⟩, hslot⟩ := hstake
  rw [← hslot]
  exact h u hu (by omega) (by omega)

theorem map_link_of_stake (hl : l'.map PbsTask.stake = l.map PbsTask.stake) :
    l'.map PbsTask.link = l.map PbsTask.link := by
  have hmap := congrArg (List.map Prod.fst) hl
  rwa [List.map_map, List.map_map] at hmap

theorem Unspent.of_stakes (h : Unspent p) (hq : Owned q) (hl : Layout p done todo tail)
    (hl' : Layout q done' todo' tail') (hstakes : todo'.map PbsTask.stake = todo.map PbsTask.stake) :
    Unspent q := by
  have hnear := h.near
  have hunused := h.unused
  rw [hl.todoTasks_eq] at hnear hunused
  refine ⟨hq, ?_, ?_⟩
  · rw [hl'.todoTasks_eq]
    exact nearby_of_link (map_link_of_stake hstakes) hnear
  · rw [hl'.todoTasks_eq]
    exact unused_of_stake hstakes hunused

theorem Unspent.passed (h : Unspent p) (hq : Owned q) (hl : Layout p done (cur :: rest) tail)
    (hl' : Layout q done' (rest.modifyHead start) tail') : Unspent q := by
  have hnear := h.near
  have hunused := h.unused
  rw [hl.todoTasks_eq] at hnear hunused
  have hstakes := map_startHead PbsTask.stake (fun _ => rfl) rest
  refine ⟨hq, ?_, ?_⟩
  · rw [hl'.todoTasks_eq]
    exact nearby_of_link (map_link_of_stake hstakes) hnear.2
  · rw [hl'.todoTasks_eq]
    exact unused_of_stake hstakes fun o ho => hunused o (mem_behindRun_cons ho)

theorem behindRun_credited {a c : List PbsTask} {o : PbsTask} {r : Int}
    (hsplit : pbsUpdateRetiredInstructionsTask r cur :: rest = a ++ o :: c)
    (hrun : ∀ x ∈ a ++ [o], x.processId = cur.processId) :
    behindRun PbsTask.processId (a ++ creditSlot r o :: c) =
      behindRun PbsTask.processId (cur :: rest) := by
  have hrun' : ∀ x ∈ a ++ [creditSlot r o], x.processId = cur.processId := by
    intro x hx
    rcases List.mem_append.1 hx with hx | hx
    · exact hrun x (by simp [hx])
    · obtain rfl := List.mem_singleton.1 hx
      exact hrun o (by simp)
  calc
    behindRun PbsTask.processId (a ++ creditSlot r o :: c) =
        behindRun PbsTask.processId (a ++ [creditSlot r o] ++ c) := by simp
    _ = c.dropWhile (·.processId = cur.processId) := behindRun_append hrun' (by simp)
    _ = behindRun PbsTask.processId (a ++ [o] ++ c) := (behindRun_append hrun (by simp)).symm
    _ = behindRun PbsTask.processId (pbsUpdateRetiredInstructionsTask r cur :: rest) := by
          rw [hsplit]
          simp
    _ = behindRun PbsTask.processId (cur :: rest) := by
          rw [behindRun, behindRun, retire_processId]

theorem Unspent.credit (h : Unspent p) (hv : Placed p done (cur :: rest) tail) {r : Int} (hr : 0 ≤ r)
    (hq : updateRetiredInstructions r p = .ok q) : Unspent q := by
  have howned := upheld_owned.credit hv hr hq h.toOwned
  obtain ⟨a, o, c, hsplit, hpid, hfree, hothers, hv'⟩ := h.toOwned.placed_credit hv hr hq
  have hnear := h.near
  have hunused := h.unused
  rw [hv.toLayout.todoTasks_eq] at hnear hunused
  have hlink : (pbsUpdateRetiredInstructionsTask r cur :: rest).map PbsTask.link =
      (cur :: rest).map PbsTask.link := by
    simp [PbsTask.link]
  have hrun : ∀ x ∈ a ++ [o], x.processId = cur.processId := by
    by_cases hcur : cur.taskId = -1
    · rw [hfree hcur]
      intro x hx
      exact List.mem_singleton.1 hx ▸ hpid
    · have hpartner := (nearby_of_link hlink hnear).run_to_partner hsplit fun x hx howns =>
        hothers hcur x hx (howns.1.trans (retire_slotOwner r cur))
      rwa [retire_processId] at hpartner
  refine ⟨howned, ?_, ?_⟩
  · rw [hv'.toLayout.todoTasks_eq]
    refine nearby_of_link ?_ hnear
    rw [← hlink, hsplit, List.map_append, List.map_append]
    rfl
  · rw [hv'.toLayout.todoTasks_eq, Unused, behindRun_credited hsplit hrun]
    exact hunused

section Rotation

variable {blk ns post : List PbsTask} {n f : PbsTask}

theorem Cut.border (hc : Cut cur rest blk n ns f post) {m : List PbsTask}
    (hm : m.map PbsTask.processId = (n :: ns).map PbsTask.processId) :
    ∀ x ∈ m.getLast?, x.processId ≠ cur.processId := by
  obtain ⟨keep, others, hgap, hne, _, hothers⟩ := hc.gap
  intro x hx
  have hlast : x.processId ∈ (others.map PbsTask.processId).getLast? := by
    have hne' : others.map PbsTask.processId ≠ [] := by simpa using hne
    rw [← List.getLast?_append_of_ne_nil (keep.map PbsTask.processId) hne', ← List.map_append,
      ← hgap, ← hm, List.getLast?_map]
    exact Option.mem_map_of_mem _ hx
  obtain ⟨u, hu, hpid⟩ := List.mem_map.1 (List.mem_of_getLast? hlast)
  rw [← hpid]
  exact hothers u hu

theorem Cut.near (hc : Cut cur rest blk n ns f post)
    (h : Nearby PbsTask.processId Owns (cur :: rest)) :
    Nearby PbsTask.processId Owns (changeTaskState n .running :: ns ++
      ((bump cur :: blk).map (hosted f.taskId) ++ f :: post)) := by
  rw [hc.todo_eq, ← List.cons_append] at h
  have hborder : ∀ x ∈ (n :: ns).getLast?, ∀ y ∈ (f :: post).head?, x.processId ≠ y.processId := by
    intro x hx y hy
    obtain rfl := Option.some.inj hy
    rw [hc.next]
    exact hc.border rfl x hx
  obtain ⟨hgap, hrest⟩ := (Nearby.append_iff hborder).1 h.suffix
  have hstart : Nearby PbsTask.processId Owns (changeTaskState n .running :: ns) :=
    nearby_of_link (l := n :: ns) rfl hgap
  refine (Nearby.append_iff ?_).2 ⟨hstart, Nearby.of_common ?_ hrest⟩
  · intro x hx y hy
    obtain rfl := Option.some.inj hy
    exact hc.border (m := changeTaskState n .running :: ns) rfl x hx
  · intro t ht
    obtain ⟨u, hu, rfl⟩ := List.mem_map.1 ht
    have hpid : u.processId = f.processId := by
      rw [hc.next]
      rcases List.mem_cons.1 hu with rfl | hu
      · rfl
      · exact (hc.stack u hu).2.1.symm
    exact ⟨hpid, rfl, hpid.symm⟩

theorem Cut.behindRun_eq (hc : Cut cur rest blk n ns f post) : ∃ keep others,
    n :: ns = keep ++ others ∧ (∀ u ∈ keep, u.processId = cur.processId) ∧
      behindRun PbsTask.processId (cur :: rest) = others ++ f :: post := by
  obtain ⟨keep, others, hgap, hne, hown, hothers, hsplit⟩ := hc.run
  refine ⟨keep, others, hgap, fun u hu => hown u (List.mem_append_right _ hu), ?_⟩
  obtain ⟨u, others, rfl⟩ := List.exists_cons_of_ne_nil hne
  rw [hsplit, behindRun_append hown (by simp), List.cons_append,
    List.dropWhile_cons_of_neg (by simpa using hothers u (by simp))]

theorem Cut.unused (hc : Cut cur rest blk n ns f post) (h : Unused (cur :: rest))
    (hids : ∀ u ∈ cur :: blk, u.taskId ≠ -1 → u.taskId ≠ f.taskId) :
    Unused (changeTaskState n .running :: ns ++
      ((bump cur :: blk).map (hosted f.taskId) ++ f :: post)) := by
  obtain ⟨keep, others, hgap, hkeep, hbehind⟩ := hc.behindRun_eq
  have hstart : Unused (n :: ns ++ ((bump cur :: blk).map (hosted f.taskId) ++ f :: post)) := by
    intro o ho hreal hown
    have hmem : o ∈ others ++ ((bump cur :: blk).map (hosted f.taskId) ++ f :: post) := by
      rw [hgap, List.append_assoc] at ho
      by_cases hnil : keep = []
      · rw [hnil] at ho
        exact behindRun_subset ho
      · rw [behindRun_append hkeep hnil] at ho
        exact (List.dropWhile_sublist _).subset ho
    rw [Unused, hbehind] at h
    rcases List.mem_append.1 hmem with ho | ho
    · exact h o (by simp [ho]) hreal hown
    · rcases List.mem_append.1 ho with ho | ho
      · -- a task that moves becomes a guest
        obtain ⟨u, hu, rfl⟩ := List.mem_map.1 ho
        rcases List.mem_cons.1 hu with rfl | hu
        · exact absurd hown.symm (hids cur (by simp) hreal)
        · exact absurd hown.symm (hids u (by simp [hu]) hreal)
      · exact h o (by simp [ho]) hreal hown
  exact unused_of_stake rfl hstart

theorem ne_of_nodup_append {l m : List PbsTask} (h : (realIds (l ++ m)).Nodup) {v w : PbsTask}
    (hv : v ∈ l) (hw : w ∈ m) (hreal : w.taskId ≠ -1) : v.taskId ≠ w.taskId := by
  obtain ⟨a, c, rfl⟩ := List.append_of_mem hw
  rw [← List.append_assoc] at h
  exact (ne_of_nodup h hreal).1 v (by simp [hv])

theorem Cut.ids_ne (hc : Cut cur rest blk n ns f post) (hv : Placed p done (cur :: rest) tail)
    (hdistinct : (realIds (cur :: rest)).Nodup) {w : PbsTask} (hw : w ∈ cur :: blk)
    (hreal : w.taskId ≠ -1) : w.taskId ≠ f.taskId := by
  have hsplit : cur :: rest = (cur :: blk) ++ (n :: ns ++ f :: post) := by
    rw [hc.todo_eq]
    simp
  have hfree : ∀ u ∈ cur :: rest, u.taskId = -1 ↔ u.processId = -1 :=
    fun u hu => hv.free u (List.mem_append_right _ hu)
  rw [hsplit] at hdistinct hfree
  have hpid : w.processId = f.processId := by
    rw [hc.next]
    rcases List.mem_cons.1 hw with rfl | hw
    · rfl
    · exact (hc.stack w hw).2.1.symm
  refine ne_of_nodup_append hdistinct hw (by simp) ?_
  rw [ne_eq, hfree f (by simp), ← hpid, ← hfree w (List.mem_append_left _ hw)]
  exact hreal

theorem Owned.distinct_todo {todo : List PbsTask} (h : Owned p) (hl : Layout p done todo tail) :
    (realIds todo).Nodup := by
  have hdistinct := h.distinct
  rw [hl.liveTasks_eq, realIds, List.map_append, List.filter_append] at hdistinct
  exact (List.nodup_append.1 hdistinct).2.1

theorem Unspent.rotated (h : Unspent p) (hv : Placed p done (cur :: rest) tail)
    (hc : Cut cur rest blk n ns f post)
    (howned : Owned (p.rotated done n ns cur blk f (post ++ tail))) :
    Unspent (p.rotated done n ns cur blk f (post ++ tail)) := by
  have hnear := h.near
  have hunused := h.unused
  rw [hv.toLayout.todoTasks_eq] at hnear hunused
  have hdistinct := h.toOwned.distinct_todo hv.toLayout
  refine ⟨howned, ?_, ?_⟩
  · rw [(hv.rotated hc).toLayout.todoTasks_eq]
    exact hc.near hnear
  · rw [(hv.rotated hc).toLayout.todoTasks_eq]
    exact hc.unused hunused fun u hu hreal => hc.ids_ne hv hdistinct hu hreal

end Rotation

theorem upheld_unspent : Upheld Unspent where
  congr := by
    intro p q hsame h
    have htodo : q.todoTasks = p.todoTasks := by
      rw [PbsPlan.todoTasks, PbsPlan.todoTasks, hsame.tasks, hsame.indexCurTask]
    exact ⟨upheld_owned.congr hsame h.toOwned, htodo ▸ h.near, htodo ▸ h.unused⟩
  credit := fun hv hr hq h => h.credit hv hr hq
  signal := by
    intro p done todo tail factor pid hv hi h
    refine h.of_stakes (upheld_owned.signal hv hi h.toOwned) hv.toLayout
      (hv.rescheduled factor pid).toLayout ?_
    rw [List.map_map]
    refine List.map_congr_left fun t _ => ?_
    change (rescale factor pid t).stake = t.stake
    rw [rescale]
    split <;> rfl
  finish := fun hv hi h =>
    h.passed (upheld_owned.finish hv hi h.toOwned) hv.toLayout (hv.booked _).passed.toLayout
  skip := fun hv h => h.passed (upheld_owned.skip hv h.toOwned) hv.toLayout hv.passed.toLayout
  bump := fun hv h =>
    h.of_stakes (upheld_owned.bump hv h.toOwned) hv.toLayout hv.bumped.toLayout rfl
  rotate := fun hv hrun hc h => h.rotated hv hc (upheld_owned.rotate hv hrun hc h.toOwned)

end Kept

/-! ## The slots of the free slots -/

/-- A free slot owns its slot and counts there what it executed itself. -/
structure FreeCounted (p : PbsPlan) : Prop extends Owned p where
  counts : ∀ o ∈ p.todoTasks, o.taskId = -1 →
    o.slotOwner = -1 ∧ o.instructionsRetiredSlot = o.instructionsRetiredTask

def PbsTask.tally (t : PbsTask) : Int × Int × Int × Int :=
  (t.taskId, t.slotOwner, t.instructionsRetiredSlot, t.instructionsRetiredTask)

section FreeCounted

variable {p q : PbsPlan} {done todo rest tail done' todo' tail' : List PbsTask} {cur : PbsTask}

theorem FreeCounted.of_tally (h : FreeCounted p) (hq : Owned q) (hl : Layout p done todo tail)
    (hl' : Layout q done' todo' tail')
    (hsub : ∀ o ∈ todo', ∃ u ∈ todo, u.tally = o.tally) : FreeCounted q := by
  refine ⟨hq, ?_⟩
  have hcounts := h.counts
  rw [hl.todoTasks_eq] at hcounts
  rw [hl'.todoTasks_eq]
  intro o ho hfree
  obtain ⟨u, hu, htally⟩ := hsub o ho
  simp only [PbsTask.tally, Prod.mk.injEq] at htally
  obtain ⟨hid, howner, hslot, htask⟩ := htally
  rw [← howner, ← hslot, ← htask]
  exact hcounts u hu (hid.trans hfree)

theorem FreeCounted.passed (h : FreeCounted p) (hq : Owned q) (hl : Layout p done (cur :: rest) tail)
    (hl' : Layout q done' (rest.modifyHead start) tail') : FreeCounted q := by
  refine h.of_tally hq hl hl' fun o ho => ?_
  obtain ⟨u, hu, htally⟩ := mem_of_map_eq (map_startHead PbsTask.tally (fun _ => rfl) rest) ho
  exact ⟨u, List.mem_cons_of_mem _ hu, htally⟩

theorem FreeCounted.credit (h : FreeCounted p) (hv : Placed p done (cur :: rest) tail) {r : Int}
    (hr : 0 ≤ r) (hq : updateRetiredInstructions r p = .ok q) : FreeCounted q := by
  have howned := upheld_owned.credit hv hr hq h.toOwned
  obtain ⟨a, o, c, hsplit, hpid, hfree, _, hv'⟩ := h.toOwned.placed_credit hv hr hq
  have hcounts := h.counts
  rw [hv.toLayout.todoTasks_eq] at hcounts
  refine ⟨howned, ?_⟩
  rw [hv'.toLayout.todoTasks_eq]
  by_cases hcur : cur.taskId = -1
  · obtain rfl := hfree hcur
    obtain ⟨rfl, rfl⟩ := List.cons.inj hsplit
    intro v hv hvfree
    rcases List.mem_cons.1 hv with rfl | hv
    · obtain ⟨howner, hcount⟩ := hcounts cur (by simp) hcur
      constructor
      · simpa [creditSlot] using howner
      · simp [creditSlot, hcount]
    · exact hcounts v (by simp [hv]) hvfree
  · -- neither the current task nor the owner of its slot is a free slot
    intro v hvmem hvfree
    have hpidne : cur.processId ≠ -1 := fun h => hcur ((hv.free cur (by simp)).2 h)
    have hvpid : v.processId = -1 := (hv'.free v (List.mem_append_right _ hvmem)).1 hvfree
    have hmem : v ∈ pbsUpdateRetiredInstructionsTask r cur :: rest := by
      rw [hsplit]
      rcases List.mem_append.1 hvmem with hvmem | hvmem
      · simp [hvmem]
      · rcases List.mem_cons.1 hvmem with rfl | hvmem
        · exact absurd (hpid.symm.trans hvpid) hpidne
        · simp [hvmem]
    rcases List.mem_cons.1 hmem with rfl | hmem
    · exact absurd ((retire_processId r cur).symm.trans hvpid) hpidne
    · exact hcounts v (by simp [hmem]) hvfree

theorem FreeCounted.rotated {blk ns post : List PbsTask} {n f : PbsTask} (h : FreeCounted p)
    (hv : Placed p done (cur :: rest) tail) (hc : Cut cur rest blk n ns f post)
    (howned : Owned (p.rotated done n ns cur blk f (post ++ tail))) :
    FreeCounted (p.rotated done n ns cur blk f (post ++ tail)) := by
  have hcounts := h.counts
  rw [hv.toLayout.todoTasks_eq, hc.todo_eq] at hcounts
  have hfree : ∀ t ∈ cur :: rest, t.taskId = -1 ↔ t.processId = -1 :=
    fun t ht => hv.free t (List.mem_append_right _ ht)
  rw [hc.todo_eq] at hfree
  refine ⟨howned, ?_⟩
  rw [(hv.rotated hc).toLayout.todoTasks_eq]
  intro o ho hofree
  rcases List.mem_append.1 ho with ho | ho
  · rcases List.mem_cons.1 ho with rfl | ho
    · exact hcounts n (by simp) hofree
    · exact hcounts o (by simp [ho]) hofree
  · rcases List.mem_append.1 ho with ho | ho
    · -- a free slot is hosted by a free slot
      obtain ⟨u, hu, rfl⟩ := List.mem_map.1 ho
      have hmoved : ∃ w ∈ cur :: (blk ++ (n :: ns ++ f :: post)), w.taskId = u.taskId ∧
          w.processId = cur.processId ∧ w.instructionsRetiredSlot = u.instructionsRetiredSlot ∧
          w.instructionsRetiredTask = u.instructionsRetiredTask := by
        rcases List.mem_cons.1 hu with rfl | hu
        · exact ⟨cur, by simp, rfl, rfl, rfl, rfl⟩
        · exact ⟨u, by simp [hu], rfl, (hc.stack u hu).2.1.symm, rfl, rfl⟩
      obtain ⟨w, hw, hid, hpid, hslot, htask⟩ := hmoved
      have hwfree : w.taskId = -1 := hid.trans hofree
      refine ⟨(hfree f (by simp)).2 ?_, ?_⟩
      · rw [hc.next, ← hpid]
        exact (hfree w hw).1 hwfree
      · change u.instructionsRetiredSlot = u.instructionsRetiredTask
        rw [← hslot, ← htask]
        exact (hcounts w hw hwfree).2
    · exact hcounts o (by simp [ho]) hofree

theorem upheld_freeCounted : Upheld FreeCounted where
  congr := by
    intro p q hsame h
    have htodo : q.todoTasks = p.todoTasks := by
      rw [PbsPlan.todoTasks, PbsPlan.todoTasks, hsame.tasks, hsame.indexCurTask]
    exact ⟨upheld_owned.congr hsame h.toOwned, htodo ▸ h.counts⟩
  credit := fun hv hr hq h => h.credit hv hr hq
  signal := by
    intro p done todo tail factor pid hv hi h
    refine h.of_tally (upheld_owned.signal hv hi h.toOwned) hv.toLayout
      (hv.rescheduled factor pid).toLayout fun o ho => ?_
    obtain ⟨u, hu, rfl⟩ := List.mem_map.1 ho
    refine ⟨u, hu, ?_⟩
    rw [rescale]
    split <;> rfl
  finish := fun hv hi h =>
    h.passed (upheld_owned.finish hv hi h.toOwned) hv.toLayout (hv.booked _).passed.toLayout
  skip := fun hv h => h.passed (upheld_owned.skip hv h.toOwned) hv.toLayout hv.passed.toLayout
  bump := by
    intro p done todo tail cur hv h
    refine h.of_tally (upheld_owned.bump hv h.toOwned) hv.toLayout hv.bumped.toLayout fun o ho => ?_
    rcases List.mem_cons.1 ho with rfl | ho
    · exact ⟨cur, by simp, rfl⟩
    · exact ⟨o, by simp [ho], rfl⟩
  rotate := fun hv hrun hc h => h.rotated hv hc (upheld_owned.rotate hv hrun hc h.toOwned)

theorem Parsed.freeCounted (hp : Parsed p) (hf : Formatted p) (hd : DistinctIds p) :
    FreeCounted p := by
  refine ⟨hp.owned hf hd, ?_⟩
  rw [(hp.layout hf).todoTasks_eq]
  intro o ho hfree
  have hfresh := hp.fresh o ho
  exact ⟨hfresh.slotOwner.trans hfree, hfresh.retiredSlot.trans hfresh.retiredTask.symm⟩

end FreeCounted

/-! ## Tasks that were moved -/

def movedIds (b : Build) (p : PbsPlan) : List Int :=
  match p.readCurTask with
  | .error _ => []
  | .ok cur =>
      match findSlotToMoveTo b cur.processId p, getStackSizePreemptedTasks p with
      | .ok (some _), .ok stackSize =>
          ((p.tasks.toList.drop p.curTask).take stackSize).map PbsTask.taskId
      | _, _ => []

/-- No preemption in the first `k` ticks moved the task with this id. -/
def NeverMoved (b : Build) (pmu : Nat → Int) (s : System) (k : Nat) (taskId : Int) : Prop :=
  ∀ j < k, ∀ u p, runTicks b pmu s j = .ok u → preemptionPoint b (pmu j) u = .ok (some p) →
    taskId ∉ movedIds b p

/-- The real tasks of `after` are those of `before`, and own their slots as long as they owned them
before and are not moved by the tick from `s`. -/
def KeepSlots (b : Build) (r : Int) (s : System) (before after : List PbsTask) : Prop :=
  ∀ v ∈ after, v.taskId ≠ -1 → ∃ u ∈ before, u.taskId = v.taskId ∧
    (v.slotOwner = v.taskId ↔ u.slotOwner = u.taskId ∧
      ∀ p, preemptionPoint b r s = .ok (some p) → u.taskId ∉ movedIds b p)

section Moved

variable {p q : PbsPlan} {done todo rest tail before after after' blk ns post : List PbsTask}
  {cur n f : PbsTask} {r : Int} {b : Build} {s s' u : System} {pmu : Nat → Int} {k : Nat}

theorem movedIds_cut (hl : Layout p done (cur :: todo) tail) (hc : Cut cur todo blk n ns f post) :
    movedIds b p = (cur :: blk).map PbsTask.taskId := by
  have hsplit : cur :: todo ++ tail = (cur :: blk) ++ (n :: ns ++ f :: post ++ tail) := by
    rw [hc.todo_eq]
    simp
  rw [movedIds, hl.readCurTask]
  dsimp only
  rw [findSlotToMoveTo_cut hl hc, getStackSizePreemptedTasks_cut hl hc]
  dsimp only
  rw [hl.drop_curTask, hsplit, show blk.length + 1 = (cur :: blk).length from rfl, List.take_left]

theorem movedIds_noSlot (hl : Layout p done (cur :: todo) tail) (hn : NoSlot cur todo) :
    movedIds b p = [] := by
  rw [movedIds, hl.readCurTask]
  dsimp only
  rw [findSlotToMoveTo_noSlot hl hn]

theorem mem_of_map_link {l m : List PbsTask} (h : l.map PbsTask.link = m.map PbsTask.link)
    {v : PbsTask} (hv : v ∈ l) :
    ∃ w ∈ m, w.taskId = v.taskId ∧ w.processId = v.processId ∧ w.slotOwner = v.slotOwner := by
  obtain ⟨w, hw, hlink⟩ := mem_of_map_eq h hv
  simp only [PbsTask.link, Prod.mk.injEq] at hlink
  exact ⟨w, hw, hlink⟩

theorem KeepSlots.of_link (h : KeepSlots b r s before after) {before' : List PbsTask}
    (hbefore : before'.map PbsTask.link = before.map PbsTask.link)
    (hafter : ∀ v ∈ after', ∃ w ∈ after, w.link = v.link) : KeepSlots b r s before' after' := by
  intro v hv hreal
  obtain ⟨w, hw, hlink⟩ := hafter v hv
  simp only [PbsTask.link, Prod.mk.injEq] at hlink
  obtain ⟨hid, _, howner⟩ := hlink
  obtain ⟨u, hu, huid, hiff⟩ := h w hw (by omega)
  obtain ⟨x, hx, hxid, _, hxowner⟩ := mem_of_map_link hbefore.symm hu
  refine ⟨x, hx, by omega, ?_⟩
  rw [← hid, ← howner, hiff, hxid, hxowner]

theorem keepSlots_of_none
    (hnone : ∀ p, preemptionPoint b r s = .ok (some p) → movedIds b p = []) :
    KeepSlots b r s before before := by
  intro v hv _
  refine ⟨v, hv, rfl, (and_iff_left fun p hp => ?_).symm⟩
  rw [hnone p hp]
  exact List.not_mem_nil

theorem Cut.unmoved_iff (hc : Cut cur rest blk n ns f post) (hv : Placed p done (cur :: rest) tail)
    (hpoint : preemptionPoint b r s = .ok (some p)) {id : Int} :
    (∀ q, preemptionPoint b r s = .ok (some q) → id ∉ movedIds b q) ↔
      ∀ u ∈ cur :: blk, u.taskId ≠ id := by
  constructor
  · intro h u hu hid
    apply h p hpoint
    rw [movedIds_cut hv.toLayout hc, ← hid]
    exact List.mem_map_of_mem hu
  · intro h q hq hmem
    obtain rfl := Option.some.inj (Except.ok.inj (hpoint.symm.trans hq))
    rw [movedIds_cut hv.toLayout hc] at hmem
    obtain ⟨u, hu, hid⟩ := List.mem_map.1 hmem
    exact h u hu hid

theorem Cut.keepSlots (hc : Cut cur rest blk n ns f post) (hv : Placed p done (cur :: rest) tail)
    (hdistinct : (realIds (cur :: rest)).Nodup) (hpoint : preemptionPoint b r s = .ok (some p)) :
    KeepSlots b r s (cur :: rest) (changeTaskState n .running :: ns ++
      ((bump cur :: blk).map (hosted f.taskId) ++ f :: post)) := by
  have hsplit : cur :: rest = (cur :: blk) ++ (n :: ns ++ f :: post) := by
    rw [hc.todo_eq]
    simp
  have hids := hdistinct
  rw [hsplit] at hids
  -- an entry that stays has none of the ids that move
  have hstays : ∀ u ∈ n :: ns ++ f :: post, u.taskId ≠ -1 → u ∈ cur :: rest ∧
      (u.slotOwner = u.taskId ↔ u.slotOwner = u.taskId ∧
        ∀ q, preemptionPoint b r s = .ok (some q) → u.taskId ∉ movedIds b q) := by
    intro u hu hreal
    refine ⟨hsplit ▸ List.mem_append_right _ hu, (and_iff_left ?_).symm⟩
    exact (hc.unmoved_iff hv hpoint).2 fun x hx => ne_of_nodup_append hids hx hu hreal
  have hguest : ∀ w ∈ cur :: blk, w.taskId ≠ -1 → w ∈ cur :: rest ∧
      (f.taskId = w.taskId ↔ w.slotOwner = w.taskId ∧
        ∀ q, preemptionPoint b r s = .ok (some q) → w.taskId ∉ movedIds b q) := by
    intro w hw hreal
    refine ⟨hsplit ▸ List.mem_append_left _ hw, iff_of_false ?_ ?_⟩
    · exact (hc.ids_ne hv hdistinct hw hreal).symm
    · rintro ⟨_, hnot⟩
      exact (hc.unmoved_iff hv hpoint).1 hnot w hw rfl
  intro v hv' hreal
  rcases List.mem_append.1 hv' with hv' | hv'
  · rcases List.mem_cons.1 hv' with rfl | hv'
    · obtain ⟨hmem, hiff⟩ := hstays n (by simp) hreal
      exact ⟨n, hmem, rfl, hiff⟩
    · obtain ⟨hmem, hiff⟩ := hstays v (by simp [hv']) hreal
      exact ⟨v, hmem, rfl, hiff⟩
  · rcases List.mem_append.1 hv' with hv' | hv'
    · obtain ⟨w, hw, rfl⟩ := List.mem_map.1 hv'
      rcases List.mem_cons.1 hw with rfl | hw
      · obtain ⟨hmem, hiff⟩ := hguest cur (by simp) hreal
        exact ⟨cur, hmem, rfl, hiff⟩
      · obtain ⟨hmem, hiff⟩ := hguest w (by simp [hw]) hreal
        exact ⟨w, hmem, rfl, hiff⟩
    · obtain ⟨hmem, hiff⟩ := hstays v (List.mem_append_right _ hv') hreal
      exact ⟨v, hmem, rfl, hiff⟩

theorem Placed.keepSlots_slot (hv : Placed s.plan done (cur :: rest) tail)
    (hdistinct : (realIds (cur :: rest)).Nodup) (hr : 0 ≤ r)
    (hslot : freeSlotPoint b r s = .ok (some p)) :
    ∃ done' todo' tail', Placed p done' todo' tail' ∧ KeepSlots b r s (cur :: rest) todo' := by
  obtain ⟨done₂, cur₂, rest₂, tail₂, hcur₂, hdone₂, hrest₂, _, hcourse⟩ := hv.course hr hslot
  have hlink := map_link_of_core hcur₂ hrest₂
  cases hcourse with
  | finished tail' hfinished hpoint hv₃ =>
      have hkeeps : KeepSlots b r s (cur₂ :: rest₂) (cur₂ :: rest₂) :=
        keepSlots_of_none fun p₂ hp₂ => absurd (hpoint.symm.trans hp₂) (by simp)
      refine ⟨_, _, _, hv₃, hkeeps.of_link hlink.symm fun v hv' => ?_⟩
      obtain ⟨w, hw, hwv⟩ := mem_of_map_eq (map_startHead PbsTask.link (fun _ => rfl) rest₂) hv'
      exact ⟨w, List.mem_cons_of_mem _ hw, hwv⟩
  | rotated p₂ blk n ns f post _ hcut hpoint hv₂ hv₃ =>
      have hjobs : (cur₂ :: rest₂).map PbsTask.job = (cur :: rest).map PbsTask.job := by
        rw [List.map_cons, List.map_cons, (job_of_core hcur₂).trans (job_credited r cur),
          map_job_of_core hrest₂]
      have hids : (realIds (cur₂ :: rest₂)).Nodup :=
        (realIds_of_jobs (List.Perm.of_eq hjobs)).nodup_iff.2 hdistinct
      exact ⟨_, _, _, hv₃, (hcut.keepSlots hv₂ hids hpoint).of_link hlink.symm
        fun v hv' => ⟨v, hv', rfl⟩⟩
  | gaveUp p₂ done₃ rest₃ tail₃ _ hnone hpoint hv₂ hv₃ hdone₃ hrest₃ =>
      have hkeeps : KeepSlots b r s (cur₂ :: rest₂) (cur₂ :: rest₂) :=
        keepSlots_of_none fun p₁ hp₁ => by
          obtain rfl := Option.some.inj (Except.ok.inj (hpoint.symm.trans hp₁))
          exact movedIds_noSlot hv₂.toLayout hnone
      have hlink₃ : (credited (cur₂.instructionsReal - cur₂.instructionsRetiredTask)
          (bump cur₂) :: rest₃).map PbsTask.link = (cur₂ :: rest₂).map PbsTask.link := by
        rw [List.map_cons, List.map_cons, link_credited,
          map_link_of_frame (map_frame_of_body hrest₃)]
        rfl
      exact ⟨_, _, _, hv₃, hkeeps.of_link hlink.symm fun v hv' => mem_of_map_eq hlink₃ hv'⟩

/-- What a tick does to the slots of the tasks that are left. -/
theorem Placed.keepSlots_tick (hv : Placed s.plan done (cur :: rest) tail)
    (hdistinct : (realIds (cur :: rest)).Nodup) (hr : 0 ≤ r)
    (htick : pbsRunTimerTick b r s = .ok s') :
    KeepSlots b r s (cur :: rest) s'.plan.todoTasks := by
  rcases hv.tick_cases hr htick with ⟨p, q, hslot, hskip, hs⟩ |
    ⟨_, hpoint, done₂, cur₂, rest₂, tail₂, hv₂, _, hcur₂, _, hrest₂, _⟩
  · obtain ⟨done₃, todo₃, tail₃, hv₃, hkeeps⟩ := hv.keepSlots_slot hdistinct hr hslot
    have htodo : s'.plan.todoTasks = q.todoTasks := by rw [hs]; rfl
    rw [htodo]
    rcases hv₃.skip hskip with ⟨_, rfl⟩ | ⟨c, l, done', todo', tail', rfl, _, hv', _, hframes⟩
    · rw [hv₃.toLayout.todoTasks_eq]
      exact hkeeps
    · rw [hv'.toLayout.todoTasks_eq]
      refine hkeeps.of_link rfl fun v hv' => ?_
      obtain ⟨w, hw, hwv⟩ := mem_of_map_eq (map_link_of_frame hframes) hv'
      exact ⟨w, List.mem_cons_of_mem _ hw, hwv⟩
  · have hkeeps : KeepSlots b r s (cur :: rest) (cur :: rest) :=
      keepSlots_of_none fun p hp => absurd (hpoint.symm.trans hp) (by simp)
    rw [hv₂.toLayout.todoTasks_eq]
    exact hkeeps.of_link rfl fun v hv' => mem_of_map_eq (map_link_of_core hcur₂ hrest₂) hv'

theorem Placed.link_preemptionPoint (hv : Placed s.plan done (cur :: rest) tail) (hr : 0 ≤ r)
    (hpoint : preemptionPoint b r s = .ok (some p)) :
    p.todoTasks.map PbsTask.link = (cur :: rest).map PbsTask.link := by
  obtain ⟨c₀, p₁, c, s₂, _, _, hcredit, _, _, hsignal, rfl⟩ := preemptionPoint_eq_ok hpoint
  obtain ⟨_, done₂, cur₂, rest₂, tail₂, hv₂, hcur₂, _, hrest₂⟩ :=
    hv.front hr hcredit (signalIfT2_eq_ok hsignal)
  rw [hv₂.toLayout.todoTasks_eq]
  exact map_link_of_core hcur₂ hrest₂

/-! ## Runs -/

theorem neverMoved_succ {id : Int} (hu : runTicks b pmu s k = .ok u) :
    NeverMoved b pmu s (k + 1) id ↔ NeverMoved b pmu s k id ∧
      ∀ p, preemptionPoint b (pmu k) u = .ok (some p) → id ∉ movedIds b p := by
  constructor
  · intro h
    exact ⟨fun j hj => h j (by omega), fun p hp => h k (by omega) u p hu hp⟩
  · rintro ⟨hbefore, hnow⟩ j hj v p hv hp
    rcases Nat.lt_succ_iff_lt_or_eq.1 hj with hlt | rfl
    · exact hbefore j hlt v p hv hp
    · obtain rfl := Except.ok.inj (hu.symm.trans hv)
      exact hnow p hp

/-- In every state of a run the tasks that are left own their slots, but for those that were
moved. -/
theorem ownsSlot_iff {text : List Char} {t : System} (hparse : parsePlan text zeroedPlan = .ok s.plan)
    (hformatted : Formatted s.plan) (hdistinct : DistinctIds s.plan) (hfirst : FirstReal s.plan)
    (hpmu : ∀ k, 0 ≤ pmu k) (ht : runTicks b pmu s k = .ok t) {v : PbsTask}
    (hv : v ∈ t.plan.todoTasks) (hreal : v.taskId ≠ -1) :
    v.slotOwner = v.taskId ↔ NeverMoved b pmu s k v.taskId := by
  have hparsed := parsePlan_parsed hparse
  induction k generalizing t v with
  | zero =>
      obtain rfl := Except.ok.inj ht
      refine iff_of_true ?_ fun j hj => absurd hj (Nat.not_lt_zero j)
      rw [(hparsed.layout hformatted).todoTasks_eq] at hv
      exact (hparsed.fresh v hv).slotOwner
  | succ k ih =>
      obtain ⟨u, hu, htick⟩ := run_succ_eq_ok.1 ht
      obtain ⟨done, todo, tail, hplaced, howned⟩ := upheld_owned.reached hparse hformatted hfirst
        hpmu (hparsed.owned hformatted hdistinct) hu
      cases todo with
      | nil =>
          rw [hplaced.tick_ended htick, hplaced.toLayout.todoTasks_eq] at hv
          cases hv
      | cons cur rest =>
          obtain ⟨w, hw, hid, hiff⟩ := hplaced.keepSlots_tick (howned.distinct_todo hplaced.toLayout)
            (hpmu k) htick v hv hreal
          have hmem : w ∈ u.plan.todoTasks := hplaced.toLayout.todoTasks_eq.symm ▸ hw
          have hbefore : w.slotOwner = w.taskId ↔ NeverMoved b pmu s k w.taskId :=
            ih hu hmem (by omega)
          rw [hiff, hbefore, hid]
          exact (neverMoved_succ hu).symm

theorem ownsSlot_preempting {text : List Char} {t : System}
    (hparse : parsePlan text zeroedPlan = .ok s.plan) (hformatted : Formatted s.plan)
    (hdistinct : DistinctIds s.plan) (hfirst : FirstReal s.plan) (hpmu : ∀ k, 0 ≤ pmu k)
    (ht : runTicks b pmu s k = .ok t) (hpoint : preemptionPoint b (pmu k) t = .ok (some p))
    {v : PbsTask} (hv : v ∈ p.todoTasks) (hreal : v.taskId ≠ -1) :
    v.slotOwner = v.taskId ↔ NeverMoved b pmu s k v.taskId := by
  obtain ⟨done, todo, tail, hplaced, _⟩ :=
    upheld_true.reached hparse hformatted hfirst hpmu trivial ht
  obtain ⟨c₀, _, _, _, hc₀, hlive, _⟩ := preemptionPoint_eq_ok hpoint
  obtain ⟨rest, rfl⟩ := hplaced.of_readCurTask hc₀ hlive
  obtain ⟨w, hw, hid, _, howner⟩ :=
    mem_of_map_link (hplaced.link_preemptionPoint (hpmu k) hpoint) hv
  rw [← hid, ← howner]
  refine ownsSlot_iff hparse hformatted hdistinct hfirst hpmu ht ?_ (by omega)
  rw [hplaced.toLayout.todoTasks_eq]
  exact hw

theorem Parsed.unspent (hp : Parsed p) (hf : Formatted p) (hd : DistinctIds p) : Unspent p := by
  have hl := hp.layout hf
  refine ⟨hp.owned hf hd, ?_, ?_⟩
  · rw [hl.todoTasks_eq]
    exact Nearby.of_self fun t ht => ⟨(hp.fresh t ht).slotOwner.symm, rfl⟩
  · rw [hl.todoTasks_eq]
    exact fun t ht _ _ => (hp.fresh t (behindRun_subset ht)).retiredSlot

theorem Cut.target (hc : Cut cur rest blk n ns f post) (hl : Layout p done (cur :: rest) tail) :
    findSlotToMoveTo b cur.processId p = .ok (some (done.length + (blk.length + 1) + ns.length)) ∧
    p.readTask (done.length + (blk.length + 1) + ns.length + 1) = .ok f ∧
    f ∈ behindRun PbsTask.processId (cur :: rest) := by
  refine ⟨findSlotToMoveTo_cut hl hc b, ?_, ?_⟩
  · have htasks : p.tasks.toList = (done ++ cur :: (blk ++ n :: ns)) ++ f :: (post ++ tail) := by
      rw [hl.tasks, hc.todo_eq]
      simp
    have hread := readTask_joint htasks
    rwa [show (done ++ cur :: (blk ++ n :: ns)).length =
      done.length + (blk.length + 1) + ns.length + 1 by simp; omega] at hread
  · obtain ⟨keep, others, _, _, hbehind⟩ := hc.behindRun_eq
    rw [hbehind]
    simp

end Moved

/-- Whenever a preemption finds a slot, the task that becomes the slot owner owns its slot and has
budget left in it if and only if it was in no stack that an earlier preemption moved (and its
planned length is not so far below zero that T1 is not positive).  Free slots share one id: one
that takes in another, which ran like a task, has used up what it executed itself. -/
theorem slotOwner_fresh_iff {text : List Char} {b : Build} {pmu : Nat → Int} {s t : System} {k : Nat}
    (hparse : parsePlan text zeroedPlan = .ok s.plan) (hformatted : Formatted s.plan)
    (hdistinct : DistinctIds s.plan) (hpmu : ∀ k, 0 ≤ pmu k) (ht : runTicks b pmu s k = .ok t)
    {p : PbsPlan} {cur owner : PbsTask} {slot : Nat}
    (hpoint : preemptionPoint b (pmu k) t = .ok (some p)) (hcur : p.readCurTask = .ok cur)
    (hslot : findSlotToMoveTo b cur.processId p = .ok (some slot))
    (howner : p.readTask (slot + 1) = .ok owner) :
    (owner.slotOwner = owner.taskId ∧ owner.instructionsRetiredSlot < calculateT1 owner) ↔
      if owner.taskId = -1 then owner.instructionsRetiredTask < calculateT1 owner
      else NeverMoved b pmu s k owner.taskId ∧ -t1NoPreemption < owner.instructionsPlanned := by
  have hparsed := parsePlan_parsed hparse
  obtain ⟨_, _, _, _, _, _, hcredit, _⟩ := preemptionPoint_eq_ok hpoint
  have hfirst := hparsed.firstReal_of_reached hformatted hpmu ht hcredit
  have hkept := upheld_unspent.and upheld_freeCounted
  have hreached := hkept.reached hparse hformatted hfirst hpmu
    ⟨hparsed.unspent hformatted hdistinct, hparsed.freeCounted hformatted hdistinct⟩ ht
  obtain ⟨done, c, rest, tail, hv, ⟨hunspent, hcounted⟩, _⟩ :=
    hkept.preemptionPointAt hreached (hpmu k) hpoint
  obtain rfl := Except.ok.inj (hcur.symm.trans hv.readCurTask)
  rcases exists_cut_or_noSlot cur rest with ⟨blk, n, ns, f, post, hc⟩ | hno
  swap
  · rw [findSlotToMoveTo_noSlot hv.toLayout hno b] at hslot
    cases hslot
  obtain ⟨hfound, hread, hbehind⟩ := hc.target (b := b) hv.toLayout
  obtain rfl := Option.some.inj (Except.ok.inj (hslot.symm.trans hfound))
  obtain rfl := Except.ok.inj (howner.symm.trans hread)
  have htodo := hv.toLayout.todoTasks_eq
  have hmem : owner ∈ p.todoTasks := htodo ▸ behindRun_subset hbehind
  by_cases hfree : owner.taskId = -1
  · obtain ⟨hown, hcount⟩ := hcounted.counts owner hmem hfree
    rw [if_pos hfree, hcount, hown, hfree]
    exact and_iff_right rfl
  have howns : owner.slotOwner = owner.taskId ↔ NeverMoved b pmu s k owner.taskId :=
    ownsSlot_preempting hparse hformatted hdistinct hfirst hpmu ht hpoint hmem hfree
  have hspent : owner.slotOwner = owner.taskId → owner.instructionsRetiredSlot = 0 :=
    hunspent.unused owner (htodo.symm ▸ hbehind) hfree
  rw [if_neg hfree, ← howns, calculateT1_eq]
  constructor
  · rintro ⟨hown, hbudget⟩
    have hzero := hspent hown
    exact ⟨hown, by omega⟩
  · rintro ⟨hown, hplanned⟩
    have hzero := hspent hown
    exact ⟨hown, by omega⟩

/-- Checks the task that becomes the slot owner, if the tick from `t` moves a stack. -/
def onSlotOwner (b : Build) (r : Int) (t : System) (check : PbsTask → Bool) : Bool :=
  onSome (preemptionPoint b r t) fun p => onCurTask p fun cur =>
    onSome (findSlotToMoveTo b cur.processId p) fun slot => onOk (p.readTask (slot + 1)) check

theorem of_onSlotOwner {b : Build} {r : Int} {t : System} {check : PbsTask → Bool}
    (h : onSlotOwner b r t check = true) : ∃ p cur slot owner,
      preemptionPoint b r t = .ok (some p) ∧ p.readCurTask = .ok cur ∧
      findSlotToMoveTo b cur.processId p = .ok (some slot) ∧ p.readTask (slot + 1) = .ok owner ∧
      check owner = true := by
  obtain ⟨p, hp, h⟩ := of_onSome h
  obtain ⟨cur, hcur, h⟩ := of_onCurTask h
  obtain ⟨slot, hslot, h⟩ := of_onSome h
  obtain ⟨owner, howner, h⟩ := of_onOk h
  exact ⟨p, cur, slot, owner, hp, hcur, hslot, howner, h⟩

set_option maxRecDepth 4000 in
/-- Task 0 is preempted a second time and takes task 2 along: task 4 becomes the slot owner. -/
theorem slotOwner_fresh_iff_second :
    ∃ p t q cur slot owner,
      parsePlan "2;0,0;1,0;;;0,0,10,90000000;1,1,10,10;0,2,10,10;1,3,10,10;0,4,10,10;".toList
        zeroedPlan = .ok p ∧
      runTicks .userland everyTick ⟨p, zeroedSignals⟩ 8 = .ok t ∧
      preemptionPoint .userland (everyTick 8) t = .ok (some q) ∧ q.readCurTask = .ok cur ∧
      findSlotToMoveTo .userland cur.processId q = .ok (some slot) ∧
      q.readTask (slot + 1) = .ok owner ∧ owner.taskId = 4 ∧
      owner.slotOwner = owner.taskId ∧ owner.instructionsRetiredSlot < calculateT1 owner := by
  obtain ⟨p, t, hp, ht, hcheck⟩ :=
    @of_onRun .userland
      "2;0,0;1,0;;;0,0,10,90000000;1,1,10,10;0,2,10,10;1,3,10,10;0,4,10,10;".toList everyTick 8
      (fun p t => decide (Formatted p ∧ DistinctIds p) &&
        (allTicks (atPoint preemptionPoint (fun q => decide (4 ∉ movedIds .userland q)) .userland)
            .userland everyTick ⟨p, zeroedSignals⟩ 8 &&
          onSlotOwner .userland (everyTick 8) t fun o =>
            decide (o.taskId = 4 ∧ -t1NoPreemption < o.instructionsPlanned))) (by decide +kernel)
  simp only [Bool.and_eq_true, decide_eq_true_eq] at hcheck
  obtain ⟨⟨hformatted, hdistinct⟩, hmoved, howner⟩ := hcheck
  obtain ⟨q, cur, slot, owner, hpoint, hcur, hslot, hread, hcheck⟩ := of_onSlotOwner howner
  obtain ⟨hid, hplanned⟩ := of_decide_eq_true hcheck
  have hfresh := slotOwner_fresh_iff (s := ⟨p, zeroedSignals⟩) hp hformatted hdistinct
    everyTick_nonneg ht hpoint hcur hslot hread
  rw [hid, if_neg (by decide)] at hfresh
  refine ⟨p, t, q, cur, slot, owner, hp, ht, hpoint, hcur, hslot, hread, hid, ?_⟩
  rw [hid]
  exact hfresh.2 ⟨fun j hj u q' hu hq' =>
    of_decide_eq_true (of_atPoint (of_allTicks hmoved hj hu) hq'), hplanned⟩

set_option maxRecDepth 4000 in
/-- Task 0 was moved behind task 2 without task 1 and has used the slot of task 3 up.  When task 1
is moved as well, it gets the slot of task 0. -/
theorem slotOwner_guest :
    ∃ p t q cur slot owner,
      parsePlan "2;0,0;1,0;;;0,0,10,900000000;0,1,10,900000000;1,2,10,10;0,3,10,10;".toList
        zeroedPlan = .ok p ∧ Admissible p ∧ DistinctIds p ∧
      runTicks .userland everyTick ⟨p, zeroedSignals⟩ 7 = .ok t ∧
      preemptionPoint .userland (everyTick 7) t = .ok (some q) ∧ q.readCurTask = .ok cur ∧
      findSlotToMoveTo .userland cur.processId q = .ok (some slot) ∧
      q.readTask (slot + 1) = .ok owner ∧ owner.taskId = 0 ∧ owner.slotOwner = 3 ∧
      calculateT1 owner ≤ owner.instructionsRetiredSlot := by
  obtain ⟨p, t, hp, ht, hcheck⟩ :=
    @of_onRun .userland "2;0,0;1,0;;;0,0,10,900000000;0,1,10,900000000;1,2,10,10;0,3,10,10;".toList
      everyTick 7 (fun p t => decide (Admissible p ∧ DistinctIds p) &&
        onSlotOwner .userland (everyTick 7) t fun o => decide (o.taskId = 0 ∧ o.slotOwner = 3 ∧
          calculateT1 o ≤ o.instructionsRetiredSlot)) (by decide +kernel)
  simp only [Bool.and_eq_true, decide_eq_true_eq] at hcheck
  obtain ⟨⟨hadmissible, hdistinct⟩, howner⟩ := hcheck
  obtain ⟨q, cur, slot, owner, hpoint, hcur, hslot, hread, hcheck⟩ := of_onSlotOwner howner
  exact ⟨p, t, q, cur, slot, owner, hp, hadmissible, hdistinct, ht, hpoint, hcur, hslot, hread,
    of_decide_eq_true hcheck⟩

end PbsLevel2
