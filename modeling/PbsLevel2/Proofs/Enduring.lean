import PbsLevel2.Proofs.Caches

/-!
# What endures of a task

A tick credits tasks, moves them and marks them, and a signal rescales them.  A property of single
tasks that survives each of these holds of all tasks ahead, in every state of a run.
-/

namespace PbsLevel2

open Lib

/-- Whatever a tick does to a task but rescaling it, it keeps `Q`. -/
structure Enduring (Q : PbsTask → Prop) : Prop where
  body : ∀ {t u : PbsTask}, u.body = t.body → Q t → Q u
  retire : ∀ {r : Int} {t : PbsTask}, 0 ≤ r → Q t → Q (pbsUpdateRetiredInstructionsTask r t)
  start : ∀ {t : PbsTask}, Q t → Q (start t)
  bump : ∀ {t : PbsTask}, Q t → Q (bump t)
  hosted : ∀ {slotId : Int} {t : PbsTask}, Q t → Q (hosted slotId t)

/-- The signal of the tick from `s`, if it raises one, rescales no task ahead such that `Q` is lost. -/
def RescalesWithin (Q : PbsTask → Prop) (b : Build) (r : Int) (s : System) : Prop :=
  ∀ signal p, signalPoint b r s = .ok (some (signal, p)) → ∀ t ∈ p.todoTasks, Q t →
    Q (rescale (factorOf signal) (targetOf signal p) t)

section Enduring

variable {Q : PbsTask → Prop} {p q : PbsPlan} {done todo rest tail blk ns post l m : List PbsTask}
  {cur t n f : PbsTask} {r : Int} {b : Build} {s s' : System} {k : Nat}

theorem of_body (hQ : ∀ t : PbsTask, Q t.body ↔ Q t) (h : n.body = t.body) (ht : Q t) : Q n := by
  rw [← hQ, h, hQ]
  exact ht

theorem Enduring.credited (hQ : Enduring Q) (hr : 0 ≤ r) (ht : Q t) : Q (credited r t) := by
  unfold PbsLevel2.credited
  by_cases hown : t.slotOwner = t.taskId
  · rw [if_pos hown]
    have hbody : ∀ u, (creditSlot r u).body = u.body := fun _ => rfl
    exact hQ.body (hbody _) (hQ.retire hr ht)
  · rw [if_neg hown]
    exact hQ.retire hr ht

theorem Enduring.of_map_body (hQ : Enduring Q) (hl : ∀ t ∈ l, Q t)
    (hmap : m.map PbsTask.body = l.map PbsTask.body) : ∀ t ∈ m, Q t := by
  intro t ht
  obtain ⟨u, hu, hut⟩ := mem_of_map_eq hmap ht
  exact hQ.body hut.symm (hl u hu)

theorem Enduring.startHead (hQ : Enduring Q) (hl : ∀ t ∈ l, Q t) :
    ∀ t ∈ l.modifyHead PbsLevel2.start, Q t := by
  cases l with
  | nil => exact hl
  | cons u l =>
      rw [List.modifyHead_cons]
      exact List.forall_mem_cons.2 ⟨hQ.start (hl u List.mem_cons_self),
        fun t ht => hl t (List.mem_cons_of_mem u ht)⟩

theorem Enduring.rotated (hQ : Enduring Q) (hc : Cut cur rest blk n ns f post)
    (hall : ∀ t ∈ cur :: rest, Q t) : ∀ t ∈ changeTaskState n .running :: ns ++
      ((PbsLevel2.bump cur :: blk).map (PbsLevel2.hosted f.taskId) ++ f :: post), Q t := by
  rw [hc.todo_eq] at hall
  intro t ht
  simp only [List.map_cons, List.cons_append, List.mem_cons, List.mem_append, List.mem_map] at ht
  rcases ht with rfl | ht | rfl | ⟨u, hu, rfl⟩ | rfl | ht
  · exact hQ.start (hall n (by simp))
  · exact hall t (by simp [ht])
  · exact hQ.hosted (hQ.bump (hall cur (by simp)))
  · exact hQ.hosted (hall u (by simp [hu]))
  · exact hall t (by simp)
  · exact hall t (by simp [ht])

/-! ## The stages of a tick -/

theorem AheadOnceSignalled.leavesSignal (hv : Placed s.plan done (cur :: rest) tail)
    (h : AheadOnceSignalled b r s todo) : ∃ p s₂, updateRetiredInstructions r s.plan = .ok p ∧
      LeavesSignal b r s p s₂ ∧ s₂.plan.todoTasks = todo := by
  have hlive := (hv.live cur (by simp)).1
  cases h with
  | finished p c s₂ hcredit hc hstate hsignal htodo =>
      exact ⟨p, s₂, hcredit,
        leavesSignal_finished hv.readCurTask hlive hcredit hc hstate hsignal, htodo⟩
  | running p c s₂ hcredit hc hstate hsignal htodo =>
      exact ⟨p, s₂, hcredit,
        leavesSignal_running hv.readCurTask hlive hcredit hc hstate hsignal, htodo⟩

theorem Enduring.signalled (hQ : Enduring Q) (hv : Placed s.plan done (cur :: rest) tail)
    (hall : ∀ t ∈ cur :: rest, Q t) (hr : 0 ≤ r) (hrescales : RescalesWithin Q b r s)
    (h : AheadOnceSignalled b r s todo) : ∀ t ∈ todo, Q t := by
  obtain ⟨p, s₂, hcredit, hsignal, rfl⟩ := h.leavesSignal hv
  obtain ⟨done₁, rest₁, tail₁, hv₁, _, hrest, _⟩ := hv.credit hr hcredit
  have hcur := hQ.credited hr (hall cur List.mem_cons_self)
  have hbehind := hQ.of_map_body (fun t ht => hall t (List.mem_cons_of_mem cur ht)) hrest
  have hall₁ := List.forall_mem_cons.2 ⟨hcur, hbehind⟩
  rcases hsignal.rescaled hv₁ with ⟨_, heq⟩ | ⟨signal, hpoint, hv₂, _⟩
  · rw [heq, hv₁.toLayout.todoTasks_eq]
    exact hall₁
  · rw [hv₂.toLayout.todoTasks_eq]
    intro t ht
    obtain ⟨u, hu, rfl⟩ := List.mem_map.1 ht
    refine hrescales signal p hpoint u ?_ (hall₁ u hu)
    rw [hv₁.toLayout.todoTasks_eq]
    exact hu

theorem Enduring.slot (hQ : Enduring Q) (hv : Placed s.plan done (cur :: rest) tail)
    (hall : ∀ t ∈ cur :: rest, Q t) (hr : 0 ≤ r) (hrescales : RescalesWithin Q b r s)
    (hslot : freeSlotPoint b r s = .ok (some p)) :
    ∃ done' todo' tail', Placed p done' todo' tail' ∧ ∀ t ∈ todo', Q t := by
  obtain ⟨done₂, cur₂, rest₂, tail₂, hcur₂, _, _, hahead, hcourse⟩ := hv.course hr hslot
  have hall₂ := hQ.signalled hv hall hr hrescales hahead
  have hbehind : ∀ t ∈ rest₂, Q t := fun t ht => hall₂ t (List.mem_cons_of_mem cur₂ ht)
  cases hcourse with
  | finished tail' _ _ hv₃ => exact ⟨_, _, _, hv₃, hQ.startHead hbehind⟩
  | rotated p₂ blk n ns f post _ hcut _ _ hv₃ => exact ⟨_, _, _, hv₃, hQ.rotated hcut hall₂⟩
  | gaveUp p₂ done₃ rest₃ tail₃ hstate _ _ _ hv₃ _ hrest₃ =>
      have hleft : 0 ≤ cur₂.instructionsReal - cur₂.instructionsRetiredTask := by
        have hcredited := credited_state ((state_of_core hcur₂).symm.trans_ne hstate)
        rw [← real_of_core hcur₂, ← retiredTask_of_core hcur₂] at hcredited
        omega
      refine ⟨_, _, _, hv₃, List.forall_mem_cons.2 ⟨?_, hQ.of_map_body hbehind hrest₃⟩⟩
      exact hQ.credited hleft (hQ.bump (hall₂ cur₂ List.mem_cons_self))

theorem Enduring.skip (hQ : Enduring Q) (hv : Placed p done todo tail) (hall : ∀ t ∈ todo, Q t)
    (hq : skipFreeSlot b p = .ok q) :
    ∃ done' todo' tail', Placed q done' todo' tail' ∧ ∀ t ∈ todo', Q t := by
  rcases skipFreeSlot_eq_ok hv.toLayout hq with
    ⟨_, rfl⟩ | ⟨cur, rest, first, rfl, _, _, hcredit⟩
  · exact ⟨_, _, _, hv, hall⟩
  · have hvp := hv.passed
    have hstarted := hQ.startHead fun t ht => hall t (List.mem_cons_of_mem cur ht)
    by_cases hneg : -first.instructionsPlanned < 0
    · rw [updateRetiredInstructions_neg hneg] at hcredit
      obtain rfl := Except.ok.inj hcredit
      exact ⟨_, _, _, hvp.of_same rfl rfl rfl rfl, hstarted⟩
    · have hr := Int.not_lt.1 hneg
      obtain ⟨c, more, heq⟩ := hvp.retire_todo hr hcredit
      rw [heq] at hvp hstarted
      obtain ⟨done', more', tail', hv', _, hmore, _⟩ := hvp.credit hr hcredit
      refine ⟨_, _, _, hv', List.forall_mem_cons.2 ⟨?_, ?_⟩⟩
      · exact hQ.credited hr (hstarted c List.mem_cons_self)
      · exact hQ.of_map_body (fun t ht => hstarted t (List.mem_cons_of_mem c ht)) hmore

theorem Enduring.tick (hQ : Enduring Q) (hv : Placed s.plan done (cur :: rest) tail)
    (hall : ∀ t ∈ cur :: rest, Q t) (hr : 0 ≤ r) (hrescales : RescalesWithin Q b r s)
    (htick : pbsRunTimerTick b r s = .ok s') :
    ∃ done' todo' tail', Placed s'.plan done' todo' tail' ∧ ∀ t ∈ todo', Q t := by
  rcases hv.tick_cases hr htick with ⟨p, q, hslot, hskip, hs⟩ |
    ⟨_, _, done₂, cur₂, rest₂, tail₂, hv₂, _, _, _, _, hahead⟩
  · obtain ⟨done₃, todo₃, tail₃, hv₃, hall₃⟩ := hQ.slot hv hall hr hrescales hslot
    obtain ⟨done', todo', tail', hv', hall'⟩ := hQ.skip hv₃ hall₃ hskip
    rw [hs]
    exact ⟨done', todo', tail', hv'.of_same rfl rfl rfl rfl, hall'⟩
  · exact ⟨done₂, _, tail₂, hv₂, hQ.signalled hv hall hr hrescales hahead⟩

theorem Enduring.run (hQ : Enduring Q) {pmu : Nat → Int} (hv : Placed s.plan done todo tail)
    (hall : ∀ t ∈ todo, Q t) (hpmu : ∀ k, 0 ≤ pmu k)
    (hrescales : ∀ j < k, ∀ u, runTicks b pmu s j = .ok u → RescalesWithin Q b (pmu j) u)
    (ht : runTicks b pmu s k = .ok s') :
    ∃ done todo tail, Placed s'.plan done todo tail ∧ ∀ t ∈ todo, Q t := by
  refine run_invariant
    (I := fun u => ∃ done todo tail, Placed u.plan done todo tail ∧ ∀ t ∈ todo, Q t)
    ⟨_, _, _, hv, hall⟩ ?_ ht
  rintro j hj u v hu ⟨done, todo, tail, hv, hall⟩ htick
  cases todo with
  | nil =>
      rw [hv.tick_ended htick]
      exact ⟨done, [], tail, hv, hall⟩
  | cons cur rest => exact hQ.tick hv hall (hpmu j) (hrescales j hj u hu) htick

end Enduring

end PbsLevel2
