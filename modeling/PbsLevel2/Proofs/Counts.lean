import PbsLevel2.Lib.Blocks
import PbsLevel2.Proofs.Owners

/-!
# How often a task is preempted

A preempted task is put off behind a block of its process, or ends its plan.  No move makes
a new block of any process behind a task, so the blocks that are left bound the preemptions.
-/

namespace PbsLevel2

open Lib

/-- What a task may still do to its count of preemptions depends on this only. -/
structure Ration where
  taskId : Int
  processId : Int
  wasPreempted : Int
  left : Int

def PbsTask.ration (t : PbsTask) : Ration :=
  ⟨t.taskId, t.processId, t.wasPreempted, t.instructionsReal - t.instructionsRetiredTask⟩

/-- The number of runs of consecutive tasks of `pid` in `pids`, which follow a task of `pid`;
that task's own run does not count. -/
def runsBehind (pid : Int) (pids : List Int) : Nat :=
  blocksFrom pid true pids

/-- A task `id` ahead, followed by `rest`, may be preempted once for each run behind it, and
once more unless that has finished it. -/
def Spared (id : Int) (n : Nat) (v : Ration) (rest : List Ration) : Prop :=
  v.taskId = id → v.wasPreempted + runsBehind v.processId (rest.map Ration.processId) ≤
    n + if v.left ≤ 0 then 1 else 0

/-- The preemptions of task `id` are within `n + 1`, those to come included. -/
structure Rationed (id : Int) (n : Nat) (p : PbsPlan) : Prop where
  past : ∀ v ∈ p.doneTasks, v.taskId = id → v.wasPreempted ≤ n + 1
  ahead : Along (Spared id n) [] (p.todoTasks.map PbsTask.ration)

section Rationed

variable {id : Int} {n : Nat} {p q : PbsPlan} {done todo tail done' todo' tail' : List PbsTask}
  {v v' : Ration} {rest : List Ration} {r : Int}

theorem Spared.past (h : Spared id n v rest) (hv : v.taskId = id) : v.wasPreempted ≤ n + 1 := by
  have hle := h hv
  split at hle <;> omega

theorem ration_credited (cur : PbsTask) : (credited r cur).ration =
    ⟨cur.taskId, cur.processId, cur.wasPreempted,
      cur.instructionsReal - (cur.instructionsRetiredTask + r)⟩ := by
  have hframe := frame_credited r cur
  have hcount : (credited r cur).wasPreempted = cur.wasPreempted :=
    show (credited r cur).frame.wasPreempted = cur.frame.wasPreempted by rw [hframe]
  rw [PbsTask.ration, instructionsReal_credited, retiredTask_credited, frame_taskId hframe,
    frame_processId hframe, hcount]

theorem Spared.executed (h : Spared id n v rest) {left : Int} (hleft : left ≤ v.left) :
    Spared id n { v with left := left } rest := by
  intro hid
  refine Int.le_trans (h hid) ?_
  dsimp only
  split <;> split <;> omega

theorem Spared.givenUp (h : Spared id n v rest) (hleft : 0 < v.left) :
    Spared id n { v with wasPreempted := v.wasPreempted + 1, left := 0 } rest := by
  intro hid
  have hle := h hid
  rw [if_neg (by omega)] at hle
  rw [if_pos (Int.le_refl 0)]
  dsimp only
  omega

theorem Rationed.of_lists (h : Rationed id n p) (hl : Layout p done todo tail)
    (hl' : Layout q done' todo' tail')
    (hpast : ∀ v ∈ done', ∃ u ∈ done ++ todo, u.ration = v.ration)
    (hahead : Along (Spared id n) [] (todo.map PbsTask.ration) →
      Along (Spared id n) [] (todo'.map PbsTask.ration)) : Rationed id n q := by
  have hpast₀ := h.past
  have hahead₀ := h.ahead
  rw [hl.doneTasks_eq] at hpast₀
  rw [hl.todoTasks_eq] at hahead₀
  refine ⟨?_, ?_⟩
  · rw [hl'.doneTasks_eq]
    intro v hv hid
    obtain ⟨u, hu, huv⟩ := hpast v hv
    have hid' : u.taskId = id := (congrArg Ration.taskId huv).trans hid
    rw [show v.wasPreempted = u.wasPreempted from (congrArg Ration.wasPreempted huv).symm]
    rcases List.mem_append.1 hu with hu | hu
    · exact hpast₀ u hu hid'
    · obtain ⟨rest, hspared⟩ := hahead₀.of_mem (List.mem_map_of_mem hu)
      exact hspared.past hid'
  · rw [hl'.todoTasks_eq]
    exact hahead hahead₀

theorem map_ration_of_body {l m : List PbsTask} (h : l.map PbsTask.body = m.map PbsTask.body) :
    l.map PbsTask.ration = m.map PbsTask.ration :=
  map_of_view h fun _ => rfl

theorem ration_rescale (factor pid : Int) (t : PbsTask) :
    (rescale factor pid t).ration = t.ration := by
  rw [rescale]
  split <;> rfl

theorem Cut.left_behind {cur m f : PbsTask} {todo blk ns post : List PbsTask}
    (hc : Cut cur todo blk m ns f post) {own : List Int} (hown : ∀ pid ∈ own, pid = cur.processId) :
    runsBehind cur.processId (own ++ (m :: ns ++ f :: post).map PbsTask.processId) =
      1 + runsBehind cur.processId (own ++ (f :: post).map PbsTask.processId) := by
  obtain ⟨keep, others, hgap, hne, hkeep, hothers⟩ := hc.gap
  have hkeep' : ∀ pid ∈ keep.map PbsTask.processId, pid = cur.processId := by
    intro pid hpid
    obtain ⟨u, hu, rfl⟩ := List.mem_map.1 hpid
    exact hkeep u hu
  have hothers' : ∀ pid ∈ others.map PbsTask.processId, pid ≠ cur.processId := by
    intro pid hpid
    obtain ⟨u, hu, rfl⟩ := List.mem_map.1 hpid
    exact hothers u hu
  rw [runsBehind, runsBehind, blocksFrom_own hown, blocksFrom_own hown, hgap,
    List.map_append, List.map_append, List.append_assoc, blocksFrom_own hkeep', List.map_cons,
    hc.next, blocksFrom_others (by simpa using hne) hothers', blocksFrom, if_pos rfl, if_pos rfl,
    Nat.zero_add]

theorem Cut.spared {cur m f : PbsTask} {blk ns post : List PbsTask}
    (hc : Cut cur todo blk m ns f post)
    (hrun : cur.instructionsRetiredTask < cur.instructionsReal)
    (h : Along (Spared id n) [] ((cur :: todo).map PbsTask.ration)) :
    Along (Spared id n) [] ((changeTaskState m .running :: ns ++
      ((bump cur :: blk).map (hosted f.taskId) ++ f :: post)).map PbsTask.ration) := by
  have hsplit : (cur :: todo).map PbsTask.ration = (cur.ration :: blk.map PbsTask.ration) ++
      ((m :: ns).map PbsTask.ration ++ (f :: post).map PbsTask.ration) := by
    rw [hc.todo_eq]; simp
  have hmoved : (changeTaskState m .running :: ns ++
      ((bump cur :: blk).map (hosted f.taskId) ++ f :: post)).map PbsTask.ration =
      (m :: ns).map PbsTask.ration ++
        (((bump cur).ration :: blk.map PbsTask.ration) ++ (f :: post).map PbsTask.ration) := by
    simp only [List.map_append, List.map_cons, List.map_map]
    rfl
  rw [hsplit, Along.append, Along.append] at h
  obtain ⟨⟨hcur, hblk⟩, hpassed, hrest⟩ := h
  rw [hmoved, Along.append, Along.append]
  have hpids : ∀ l : List PbsTask, (l.map PbsTask.ration).map Ration.processId =
      l.map PbsTask.processId := fun l => by rw [List.map_map]; rfl
  have hown : ∀ pid ∈ blk.map PbsTask.processId, pid = cur.processId := by
    intro pid hpid
    obtain ⟨u, hu, rfl⟩ := List.mem_map.1 hpid
    exact (hc.stack u hu).2.1.symm
  refine ⟨?_, ⟨?_, ?_⟩, hrest⟩
  · -- the stack lands in front of a task of its own process
    refine hpassed.imp fun pre v l _ hv hid => ?_
    have hle := hv hid
    have hstack : ∀ pid ∈ cur.processId :: blk.map PbsTask.processId, pid = f.processId := by
      rw [hc.next]
      simpa using hown
    have hsame := blocksFrom_insert (k := v.processId) hstack true (l.map Ration.processId)
      (post.map PbsTask.processId)
    simp only [List.append_nil, List.map_append, List.map_cons, hpids, runsBehind] at hle ⊢
    change v.wasPreempted + (blocksFrom v.processId true (l.map Ration.processId ++
      f.processId :: post.map PbsTask.processId) : Nat) ≤ _ at hle
    rw [← hsame] at hle
    exact hle
  · intro hid
    have hle := hcur hid
    have hleft := hc.left_behind hown
    rw [if_neg (by simp only [PbsTask.ration]; omega)] at hle
    simp only [List.append_nil, List.map_append, hpids] at hle hleft ⊢
    change cur.wasPreempted + (runsBehind cur.processId _ : Nat) ≤ _ at hle
    change cur.wasPreempted + 1 + (runsBehind cur.processId _ : Nat) ≤ _
    split <;> omega
  · refine hblk.imp fun pre v l hl hv hid => ?_
    have hle := hv hid
    have hmem : ∀ pid ∈ v.processId :: l.map Ration.processId, pid = cur.processId := by
      intro pid hpid
      refine hown pid ?_
      rw [← hpids, hl, List.map_append, List.map_cons]
      exact List.mem_append_right _ hpid
    have hleft := hc.left_behind fun pid hpid => hmem pid (List.mem_cons_of_mem _ hpid)
    rw [← hmem v.processId (by simp)] at hleft
    simp only [List.append_nil, List.map_append, hpids] at hle hleft ⊢
    omega

theorem kept_rationed (id : Int) (n : Nat) : Maintained (fun _ => True) (Rationed id n) where
  congr := by
    intro p q hsame h
    refine ⟨?_, ?_⟩
    · rw [PbsPlan.doneTasks, hsame.tasks, hsame.indexCurTask]
      exact h.past
    · rw [PbsPlan.todoTasks, hsame.tasks, hsame.indexCurTask]
      exact h.ahead
  credit := by
    intro p q done rest tail cur r hv hcur hr hq h
    obtain ⟨done', rest', tail', hv', hd, hrest, _⟩ := hv.credit hr hq
    refine h.of_lists hv.toLayout hv'.toLayout (fun v hmem => ?_) fun hahead => ?_
    · obtain ⟨u, hu, huv⟩ := mem_of_map_eq (map_ration_of_body hd) hmem
      exact ⟨u, by simp [hu], huv⟩
    · rw [List.map_cons, map_ration_of_body hrest]
      rw [ration_credited]
      exact ⟨hahead.1.executed (show _ ≤ cur.instructionsReal - cur.instructionsRetiredTask by omega),
        hahead.2⟩
  signal := by
    intro p done todo tail factor pid hv _ h
    refine h.of_lists hv.toLayout (hv.rescheduled factor pid).toLayout
      (fun v hmem => ⟨v, by simp [hmem], rfl⟩) fun hahead => ?_
    rw [List.map_map, show PbsTask.ration ∘ rescale factor pid = PbsTask.ration from
      funext (ration_rescale factor pid)]
    exact hahead
  finish := by
    intro p done rest tail cur hv _ _ _ h
    refine h.of_lists hv.toLayout (hv.booked _).passed.toLayout
      (fun v hmem => ⟨v, by simp at hmem ⊢; tauto, rfl⟩) fun hahead => ?_
    rw [map_startHead PbsTask.ration fun _ => rfl]
    exact hahead.2
  skip := by
    intro p done rest tail cur hv _ h
    refine h.of_lists hv.toLayout hv.passed.toLayout
      (fun v hmem => ⟨v, by simp at hmem ⊢; tauto, rfl⟩) fun hahead => ?_
    rw [map_startHead PbsTask.ration fun _ => rfl]
    exact hahead.2
  giveUp := by
    intro p q done todo tail cur hv _ hrun hq h
    obtain ⟨done', rest', tail', hv', hd, hrest, _⟩ :=
      hv.bumped.credit (Int.sub_nonneg_of_le (Int.le_of_lt hrun)) hq
    refine h.of_lists hv.toLayout hv'.toLayout (fun v hmem => ?_) fun hahead => ?_
    · obtain ⟨u, hu, huv⟩ := mem_of_map_eq (map_ration_of_body hd) hmem
      exact ⟨u, by simp [hu], huv⟩
    · rw [List.map_cons, map_ration_of_body hrest]
      refine ⟨?_, hahead.2⟩
      have hfinished := hahead.1.givenUp (show 0 < cur.instructionsReal - cur.instructionsRetiredTask
        by omega)
      rw [ration_credited, show (bump cur).instructionsReal - ((bump cur).instructionsRetiredTask +
        (cur.instructionsReal - cur.instructionsRetiredTask)) = 0 by simp only [bump]; omega]
      exact hfinished
  rotate := by
    intro p done todo tail blk ns post cur n f hv hcur hrun hc h
    exact h.of_lists hv.toLayout (hv.rotated hcur hc).toLayout
      (fun v hmem => ⟨v, by simp [hmem], rfl⟩) (hc.spared hrun)

end Rationed

theorem Parsed.rationed {p : PbsPlan} (hp : Parsed p) (ha : Admissible p) (hd : DistinctIds p)
    {front rest : List PbsTask} {t : PbsTask} (hsplit : p.parsedTasks = front ++ t :: rest)
    (ht : t.taskId ≠ -1) :
    Rationed t.taskId (runsBehind t.processId (rest.map PbsTask.processId)) p := by
  have hl := (hp.valid ha).toLayout
  have hnodup : (realIds (front ++ t :: rest)).Nodup := hsplit ▸ hd
  obtain ⟨hfront, hrest⟩ := ne_of_nodup hnodup ht
  have hother : ∀ l : List PbsTask, (∀ u ∈ l, u.taskId ≠ t.taskId) → ∀ ctx,
      Along (Spared t.taskId (runsBehind t.processId (rest.map PbsTask.processId))) ctx
        (l.map PbsTask.ration) := by
    intro l hl ctx
    refine Along.of_forall fun v hv _ hid => ?_
    obtain ⟨u, hu, rfl⟩ := List.mem_map.1 hv
    exact absurd hid (hl u hu)
  refine ⟨?_, ?_⟩
  · rw [hl.doneTasks_eq]
    simp
  · rw [hl.todoTasks_eq, hsplit, List.map_append, List.map_cons, Along.append]
    refine ⟨hother front hfront _, fun _ => ?_, hother rest hrest _⟩
    have hfresh : t.wasPreempted = 0 := (hp.fresh t (by
      change t ∈ p.parsedTasks
      rw [hsplit]
      simp)).wasPreempted
    rw [List.append_nil, List.map_map]
    change t.wasPreempted + (runsBehind t.processId (rest.map PbsTask.processId) : Nat) ≤ _
    split <;> omega

/-- A task is preempted at most once for each run of tasks of its process behind its own run
in the parsed plan, and once more; its counter never overflows. -/
theorem wasPreempted_le_runs {text : List Char} {b : Build} {pmu : Nat → Int} {s u : System}
    {k : Nat} {front rest : List PbsTask} {t v : PbsTask}
    (hparse : parsePlan text zeroedPlan = .ok s.plan) (hadmissible : Admissible s.plan)
    (hdistinct : DistinctIds s.plan) (hpmu : ∀ k, 0 ≤ pmu k)
    (hsplit : s.plan.parsedTasks = front ++ t :: rest) (ht : t.taskId ≠ -1)
    (hu : runTicks b pmu s k = .ok u) (hv : v ∈ u.plan.liveTasks) (hid : v.taskId = t.taskId) :
    v.wasPreempted ≤ 1 + runsBehind t.processId (rest.map PbsTask.processId) ∧
      v.wasPreempted < 2 ^ 15 := by
  have hparsed := parsePlan_parsed hparse
  obtain ⟨_, ⟨done, todo, tail, hvalid, _, hrationed⟩, _⟩ := (kept_rationed _ _).reached hparse
    hadmissible hpmu (hparsed.rationed hadmissible hdistinct hsplit ht) hu
  have hle : v.wasPreempted ≤ 1 + runsBehind t.processId (rest.map PbsTask.processId) := by
    rw [Int.add_comm]
    rw [hvalid.toLayout.liveTasks_eq] at hv
    rcases List.mem_append.1 hv with hv | hv
    · exact hrationed.past v (hvalid.toLayout.doneTasks_eq ▸ hv) hid
    · have hahead := hrationed.ahead
      rw [hvalid.toLayout.todoTasks_eq] at hahead
      obtain ⟨_, hspared⟩ := hahead.of_mem (List.mem_map_of_mem hv)
      exact hspared.past hid
  refine ⟨hle, ?_⟩
  have hruns := blocksFrom_le_length (k := t.processId) true (rest.map PbsTask.processId)
  have hlen : s.plan.parsedTasks.length ≤ maxNumberTasksInPlan := by
    rw [PbsPlan.parsedTasks, List.length_take, Vector.length_toList]
    omega
  rw [hsplit, List.length_append, List.length_cons] at hlen
  rw [List.length_map] at hruns
  change v.wasPreempted ≤ 1 + ((blocksFrom t.processId true _ : Nat) : Int) at hle
  simp only [maxNumberTasksInPlan] at hlen
  omega

set_option maxRecDepth 4000 in
/-- Task 0 is put off behind the one run that follows, and given up there. -/
theorem wasPreempted_le_runs_attained :
    ∃ p u v, parsePlan "2;0,0;1,0;;;0,0,2,90000000;1,1,2,2;0,2,2,2;".toList zeroedPlan = .ok p ∧
      runTicks .userland everyTick ⟨p, zeroedSignals⟩ 9 = .ok u ∧ v ∈ u.plan.liveTasks ∧
      v.taskId = 0 ∧ v.wasPreempted = 2 ∧ v.wasPreempted ≤ 1 + runsBehind 0 [1, 0] := by
  obtain ⟨p, u, hp, hu, hcheck⟩ :=
    @of_onRun .userland "2;0,0;1,0;;;0,0,2,90000000;1,1,2,2;0,2,2,2;".toList everyTick 9
      (fun p u => decide (Admissible p ∧ DistinctIds p ∧
        (∃ v ∈ u.plan.liveTasks, v.taskId = 0 ∧ v.wasPreempted = 2) ∧
        p.parsedTasks = [] ++ p.parsedTasks.headD {} :: p.parsedTasks.tail ∧
        (p.parsedTasks.headD {}).taskId = 0 ∧ (p.parsedTasks.headD {}).processId = 0 ∧
        p.parsedTasks.tail.map PbsTask.processId = [1, 0])) (by decide +kernel)
  simp only [decide_eq_true_eq] at hcheck
  obtain ⟨hadmissible, hdistinct, ⟨v, hv, hid, hcount⟩, hsplit, hhead, hpid, hbehind⟩ := hcheck
  have hle := (wasPreempted_le_runs (s := ⟨p, zeroedSignals⟩) hp hadmissible hdistinct
    everyTick_nonneg hsplit (by rw [hhead]; decide) hu hv (hid.trans hhead.symm)).1
  rw [hpid, hbehind] at hle
  exact ⟨p, u, v, hp, hu, hv, hid, hcount, hle⟩

end PbsLevel2
