import PbsLevel2.Lib.Signs
import PbsLevel2.Proofs.Bounds

/-!
# Lists of ids

What `same_ids` finds out about two lists that `get_all_ids_from_plan` filled.  It matches their
entries by sign, up to the first `LONG_MAX` of the first list.
-/

namespace PbsLevel2

open Lib

/-! ## `get_all_ids_from_plan` -/

/-- The entries in front of the first `LONG_MAX`. -/
def idsInFront (listIds : Vector Int lengthListIds) : List Int :=
  listIds.toList.takeWhile (· ≠ longMax)

section Fill

variable {p : PbsPlan}

theorem writeId_eq (listIds : Vector Int lengthListIds) {counter : Nat}
    (h : counter < lengthListIds) (id : Int) :
    ∃ filled, writeId listIds counter id = .ok filled ∧
      filled.toList = listIds.toList.take counter ++ id :: listIds.toList.drop (counter + 1) := by
  refine ⟨listIds.set counter id h, by rw [writeId, dif_pos h], ?_⟩
  rw [Vector.toList_set, List.set_eq_take_append_cons_drop, if_pos (by simpa using h)]

theorem allIdsFrom_eq {l : List PbsTask} {e : PbsTask} (rest : List PbsTask) (he : e.taskId = -2)
    (hl : ∀ t ∈ l, t.taskId ≠ -2) {counter : Nat} (hfits : counter + l.length < lengthListIds)
    (listIds : Vector Int lengthListIds) :
    ∃ filled, allIdsFrom (l ++ e :: rest) counter listIds = .ok filled ∧
      filled.toList = listIds.toList.take counter ++ (l.map PbsTask.taskId ++
        longMax :: listIds.toList.drop (counter + l.length + 1)) := by
  induction l generalizing counter listIds with
  | nil =>
      obtain ⟨filled, hwrite, hfilled⟩ := writeId_eq listIds hfits longMax
      refine ⟨filled, ?_, hfilled⟩
      rw [List.nil_append, allIdsFrom, if_pos he]
      exact hwrite
  | cons t l ih =>
      rw [List.length_cons] at hfits
      obtain ⟨written, hwrite, hwritten⟩ := writeId_eq listIds
        (show counter < lengthListIds by omega) t.taskId
      obtain ⟨filled, hrest, hfilled⟩ := ih (fun u hu => hl u (List.mem_cons_of_mem t hu))
        (show counter + 1 + l.length < lengthListIds by omega) written
      refine ⟨filled, ?_, ?_⟩
      · rw [List.cons_append, allIdsFrom, if_neg (hl t List.mem_cons_self), hwrite]
        exact hrest
      · have hlen : (listIds.toList.take counter).length = counter := by
          rw [List.length_take, Vector.length_toList]
          omega
        rw [hfilled, hwritten]
        have htake : (listIds.toList.take counter ++
            t.taskId :: listIds.toList.drop (counter + 1)).take (counter + 1) =
            listIds.toList.take counter ++ [t.taskId] := by
          rw [List.take_append, hlen, List.take_of_length_le (by omega),
            show counter + 1 - counter = 1 by omega, List.take_succ_cons, List.take_zero]
        have hdrop : (listIds.toList.take counter ++
            t.taskId :: listIds.toList.drop (counter + 1)).drop (counter + 1 + l.length + 1) =
            listIds.toList.drop (counter + (l.length + 1) + 1) := by
          rw [List.drop_append, hlen, List.drop_of_length_le (by omega), List.nil_append,
            show counter + 1 + l.length + 1 - counter = l.length + 1 + 1 by omega,
            List.drop_succ_cons, List.drop_drop]
          congr 1
          omega
        rw [htake, hdrop, List.map_cons, List.append_assoc]
        rfl

theorem Terminated.length_liveTasks (h : Terminated p) :
    p.liveTasks.length < maxNumberTasksInPlan := by
  obtain ⟨e, rest, htasks, _⟩ := h.tail
  have hlen := congrArg List.length htasks
  rw [Vector.length_toList, List.length_append, List.length_cons] at hlen
  omega

theorem Terminated.getAllIds (h : Terminated p) (listIds : Vector Int lengthListIds) :
    ∃ filled, getAllIdsFromPlan listIds p = .ok filled ∧
      filled.toList = p.liveTasks.map PbsTask.taskId ++
        longMax :: listIds.toList.drop (p.liveTasks.length + 1) := by
  obtain ⟨e, rest, htasks, hid⟩ := h.tail
  have hfits : 0 + p.liveTasks.length < lengthListIds := by
    rw [Nat.zero_add]
    exact h.length_liveTasks
  obtain ⟨filled, hfill, hfilled⟩ :=
    allIdsFrom_eq rest hid (fun t ht => ne_of_mem_liveTasks ht) hfits listIds
  refine ⟨filled, ?_, ?_⟩
  · rw [getAllIdsFromPlan, htasks]
    exact hfill
  · rw [hfilled, Nat.zero_add, List.take_zero, List.nil_append]

end Fill

/-! ## `same_ids` -/

section Match

variable {id : Int} {ids behind first second : List Int}

theorem matchId_eq (id : Int) (second : List Int) :
    matchId id second = if 0 ≤ id ∧ id ∈ second then some (negateFirst id second) else none := by
  induction second with
  | nil => simp [matchId]
  | cons other second ih =>
      rw [matchId, negateFirst]
      by_cases hid : 0 ≤ id
      · by_cases heq : id = other
        · rw [if_pos ⟨heq, hid⟩, if_pos ⟨hid, by simp [heq]⟩, if_pos heq.symm]
          congr 2
          omega
        · rw [if_neg fun h => heq h.1, ih, if_neg (Ne.symm heq)]
          have hmem : 0 ≤ id ∧ id ∈ other :: second ↔ 0 ≤ id ∧ id ∈ second := by
            simp [heq]
          by_cases hfound : 0 ≤ id ∧ id ∈ second
          · rw [if_pos hfound, if_pos (hmem.2 hfound)]
            rfl
          · rw [if_neg hfound, if_neg fun h => hfound (hmem.1 h)]
            rfl
      · rw [if_neg fun h => hid h.2, ih, if_neg fun h => hid h.1, if_neg fun h => hid h.1]
        rfl

/-- The first loop matches the ids in front of `LONG_MAX`. -/
theorem matchIds_eq (hids : ∀ v ∈ ids, v ≠ longMax) (hbehind : ∀ v ∈ behind.head?, v = longMax)
    (second : List Int) : matchIds (ids ++ behind) second =
      ((matchBySign ids second).1 ++ behind, (matchBySign ids second).2) := by
  induction ids generalizing second with
  | nil =>
      rw [List.nil_append, matchBySign]
      cases behind with
      | nil => rfl
      | cons v behind =>
          rw [matchIds, if_pos (hbehind v rfl)]
          rfl
  | cons id ids ih =>
      have hids' : ∀ v ∈ ids, v ≠ longMax := fun v hv => hids v (List.mem_cons_of_mem id hv)
      rw [List.cons_append, matchIds, if_neg (hids id List.mem_cons_self), matchId_eq, matchBySign]
      by_cases hmatch : 0 ≤ id ∧ id ∈ second
      · rw [if_pos hmatch, if_pos hmatch]
        dsimp only
        rw [ih hids', List.cons_append, Int.mul_neg_one]
      · rw [if_neg hmatch, if_neg hmatch]
        dsimp only
        rw [ih hids', List.cons_append]

theorem noIdLeft_iff (hids : ∀ v ∈ ids, v ≠ longMax) (hbehind : ∀ v ∈ behind.head?, v = longMax)
    (hlen : ids.length ≤ second.length) : noIdLeft (ids ++ behind) second = true ↔
      (∀ v ∈ ids, v ≤ 0) ∧ ∀ v ∈ second.take ids.length, v ≤ 0 := by
  induction ids generalizing second with
  | nil =>
      have hend : noIdLeft ([] ++ behind) second = true := by
        cases behind with
        | nil => rw [List.nil_append, noIdLeft]; simp
        | cons v behind =>
            cases second with
            | nil => rw [List.nil_append, noIdLeft]; simp
            | cons other second => rw [List.nil_append, noIdLeft, if_pos (hbehind v rfl)]
      exact iff_of_true hend ⟨by simp, by simp⟩
  | cons id ids ih =>
      cases second with
      | nil => simp at hlen
      | cons other second =>
          rw [List.cons_append, noIdLeft, if_neg (hids id List.mem_cons_self), List.length_cons,
            List.take_succ_cons, List.forall_mem_cons, List.forall_mem_cons]
          by_cases hleft : id > 0 ∨ other > 0
          · rw [if_pos hleft]
            apply iff_of_false Bool.false_ne_true
            omega
          · rw [if_neg hleft, ih (fun v hv => hids v (List.mem_cons_of_mem id hv))
              (by simpa using hlen)]
            have hid : id ≤ 0 := by omega
            have hother : other ≤ 0 := by omega
            simp [hid, hother]

theorem sameIds_iff (first second : Vector Int lengthListIds) : sameIds first second = true ↔
    ¬ Surplus (idsInFront first) second.toList ∧
      ¬ Surplus (second.toList.take (idsInFront first).length) (idsInFront first) := by
  set ids := idsInFront first with hdef
  have hids : ∀ v ∈ ids, v ≠ longMax := fun v hv => by simpa using List.mem_takeWhile_imp hv
  have hlen : ids.length ≤ second.toList.length := by
    have hle := (List.takeWhile_prefix (fun v => decide (v ≠ longMax)) (l := first.toList)).length_le
    rw [Vector.length_toList] at hle
    rw [Vector.length_toList]
    exact hle
  obtain ⟨behind, hsplit, hbehind⟩ : ∃ behind, first.toList = ids ++ behind ∧
      ∀ v ∈ behind.head?, v = longMax := by
    refine ⟨first.toList.dropWhile (· ≠ longMax), List.takeWhile_append_dropWhile.symm, ?_⟩
    intro v hv
    have hstop := List.head?_dropWhile_not (fun v => decide (v ≠ longMax)) first.toList
    rw [Option.mem_def.1 hv] at hstop
    simpa using hstop
  obtain ⟨hitems, hcells⟩ := length_matchBySign ids second.toList
  have hmarked : ∀ v ∈ (matchBySign ids second.toList).1, v ≠ longMax := fun v hv => by
    rcases mem_matchBySign_items hv with hneg | hmem
    · have hpos : 0 < longMax := by decide
      omega
    · exact hids v hmem
  unfold sameIds
  rw [hsplit, matchIds_eq hids hbehind]
  dsimp only
  rw [noIdLeft_iff hmarked hbehind (by rw [hitems, hcells]; exact hlen), hitems,
    matchBySign_items_iff, matchBySign_cells_iff]

end Match

/-! ## Two plans -/

/-- The plans hold the same ids of tasks, each as often. -/
def HoldSameIds (p q : PbsPlan) : Prop :=
  (realIds p.liveTasks).Perm (realIds q.liveTasks)

instance (p q : PbsPlan) : Decidable (HoldSameIds p q) :=
  inferInstanceAs (Decidable (List.Perm _ _))

section Plans

variable {p q : PbsPlan} {before before' first second : Vector Int lengthListIds} {v : Int}

theorem count_realIds (hv : 0 < v) (l : List PbsTask) :
    (realIds l).count v = (l.map PbsTask.taskId).count v :=
  List.count_filter (by simp; omega)

theorem HoldSameIds.count_eq (h : HoldSameIds p q) (hv : 0 < v) :
    (p.liveTasks.map PbsTask.taskId).count v = (q.liveTasks.map PbsTask.taskId).count v := by
  rw [← count_realIds hv, ← count_realIds hv]
  exact List.Perm.count_eq h v

theorem Terminated.idsInFront_eq (h : Terminated p) (hfill : getAllIdsFromPlan before p = .ok first) :
    idsInFront first = (p.liveTasks.map PbsTask.taskId).takeWhile (· ≠ longMax) := by
  obtain ⟨filled, heq, hfilled⟩ := h.getAllIds before
  obtain rfl := Except.ok.inj (hfill.symm.trans heq)
  rw [idsInFront, hfilled, List.takeWhile_append]
  split
  · rw [List.takeWhile_cons_of_neg (by simp), List.append_nil]
    exact (List.IsPrefix.eq_of_length (List.takeWhile_prefix _) (by assumption)).symm
  · rfl

theorem HoldSameIds.not_surplus (hsame : HoldSameIds p q) (hp : Terminated p) (hq : Terminated q)
    (hfirst : getAllIdsFromPlan before p = .ok first)
    (hsecond : getAllIdsFromPlan before' q = .ok second) :
    ¬ Surplus (idsInFront first) second.toList := by
  obtain ⟨filled, heq, hfilled⟩ := hq.getAllIds before'
  obtain rfl := Except.ok.inj (hsecond.symm.trans heq)
  rw [not_surplus_iff, hp.idsInFront_eq hfirst, hfilled]
  intro v hv
  calc ((p.liveTasks.map PbsTask.taskId).takeWhile (· ≠ longMax)).count v
      ≤ (p.liveTasks.map PbsTask.taskId).count v := (List.takeWhile_sublist _).count_le v
    _ = (q.liveTasks.map PbsTask.taskId).count v := hsame.count_eq hv
    _ ≤ _ := (List.sublist_append_left _ _).count_le v

theorem HoldSameIds.surplus_take_iff (hsame : HoldSameIds p q) (hp : Terminated p)
    (hq : Terminated q) (hfirst : getAllIdsFromPlan before p = .ok first)
    (hsecond : getAllIdsFromPlan before' q = .ok second)
    (hmax : ∀ t ∈ p.liveTasks, t.taskId ≠ longMax) :
    ¬ Surplus (second.toList.take (idsInFront first).length) (idsInFront first) ↔
      p.liveTasks.length ≤ q.liveTasks.length := by
  obtain ⟨filled, heq, hfilled⟩ := hq.getAllIds before'
  obtain rfl := Except.ok.inj (hsecond.symm.trans heq)
  have hids : idsInFront first = p.liveTasks.map PbsTask.taskId := by
    rw [hp.idsInFront_eq hfirst, List.takeWhile_eq_self_iff]
    intro v hv
    obtain ⟨t, ht, rfl⟩ := List.mem_map.1 hv
    simpa using hmax t ht
  rw [hids, hfilled, List.length_map]
  have hlen : (q.liveTasks.map PbsTask.taskId).length = q.liveTasks.length := List.length_map _
  constructor
  · intro hno
    by_contra hlonger
    apply hno
    have hpos : 0 < longMax := by decide
    have hcell : longMax ∈ (q.liveTasks.map PbsTask.taskId ++
        longMax :: before'.toList.drop (q.liveTasks.length + 1)).take p.liveTasks.length := by
      rw [List.take_append, hlen, show p.liveTasks.length - q.liveTasks.length =
        p.liveTasks.length - q.liveTasks.length - 1 + 1 by omega, List.take_succ_cons]
      simp
    have hnone : (p.liveTasks.map PbsTask.taskId).count longMax = 0 := by
      apply List.count_eq_zero_of_not_mem
      intro hmem
      obtain ⟨t, ht, hid⟩ := List.mem_map.1 hmem
      exact hmax t ht hid
    refine ⟨longMax, hcell, hpos, ?_⟩
    rw [hnone]
    exact List.count_pos_iff.2 hcell
  · intro hle
    rw [not_surplus_iff]
    intro v hv
    rw [List.take_append_of_le_length (by omega), hsame.count_eq hv]
    exact (List.take_sublist _ _).count_le v

end Plans

/-- When `same_ids` decides whether two plans hold the same ids.  Plans that do must not show a
positive entry of the second array in front of the end of the first list that this list has less
often, which without an id `LONG_MAX` says that the first plan is not the longer one.  Plans that do
not must show such an entry, or a positive id of the first list that the second array has less
often. -/
theorem sameIds_decides_iff {p q : PbsPlan} (hp : Terminated p) (hq : Terminated q)
    (before before' : Vector Int lengthListIds) :
    ∃ first second, getAllIdsFromPlan before p = .ok first ∧
      getAllIdsFromPlan before' q = .ok second ∧
      (sameIds first second = true ↔ ¬ Surplus (idsInFront first) second.toList ∧
        ¬ Surplus (second.toList.take (idsInFront first).length) (idsInFront first)) ∧
      ((sameIds first second = true ↔ HoldSameIds p q) ↔
        if HoldSameIds p q then
          ¬ Surplus (second.toList.take (idsInFront first).length) (idsInFront first)
        else Surplus (second.toList.take (idsInFront first).length) (idsInFront first) ∨
          Surplus (idsInFront first) second.toList) ∧
      (HoldSameIds p q → (∀ t ∈ p.liveTasks, t.taskId ≠ longMax) →
        (sameIds first second = true ↔ p.liveTasks.length ≤ q.liveTasks.length)) := by
  obtain ⟨first, hfirst, _⟩ := hp.getAllIds before
  obtain ⟨second, hsecond, _⟩ := hq.getAllIds before'
  refine ⟨first, second, hfirst, hsecond, sameIds_iff first second, ?_, ?_⟩
  · rw [sameIds_iff]
    by_cases hsame : HoldSameIds p q
    · have hmatched := hsame.not_surplus hp hq hfirst hsecond
      rw [if_pos hsame, iff_true_right hsame, and_iff_right hmatched]
    · rw [if_neg hsame, iff_false_right hsame, not_and_or, not_not, not_not, or_comm]
  · intro hsame hmax
    have hmatched := hsame.not_surplus hp hq hfirst hsecond
    rw [sameIds_iff, and_iff_right hmatched]
    exact hsame.surplus_take_iff hp hq hfirst hsecond hmax

/-- Two tasks and a free slot, in two orders. -/
theorem sameIds_reordered : ∃ p q first second, p.liveTasks.map PbsTask.taskId = [1, 2, -1] ∧
    q.liveTasks.map PbsTask.taskId = [2, -1, 1] ∧
    getAllIdsFromPlan (Vector.replicate _ 0) p = .ok first ∧
    getAllIdsFromPlan (Vector.replicate _ 0) q = .ok second ∧ sameIds first second = true := by
  obtain ⟨p, hp⟩ : ∃ p, p = planOfTasks []
    [{ taskId := 1 }, { taskId := 2 }, freeSlotTask, endTask] := ⟨_, rfl⟩
  obtain ⟨q, hq⟩ : ∃ q, q = planOfTasks []
    [{ taskId := 2 }, freeSlotTask, { taskId := 1 }, endTask] := ⟨_, rfl⟩
  have hpids : Terminated p ∧ p.liveTasks.map PbsTask.taskId = [1, 2, -1] ∧
      ∀ t ∈ p.liveTasks, t.taskId ≠ longMax := by
    rw [hp]
    decide +kernel
  have hqids : Terminated q ∧ q.liveTasks.map PbsTask.taskId = [2, -1, 1] := by
    rw [hq]
    decide +kernel
  have hsame : HoldSameIds p q ∧ p.liveTasks.length ≤ q.liveTasks.length := by
    rw [hp, hq]
    decide +kernel
  obtain ⟨hpterminated, hpids, hmax⟩ := hpids
  obtain ⟨hqterminated, hqids⟩ := hqids
  obtain ⟨first, second, hfirst, hsecond, _, _, hshorter⟩ :=
    sameIds_decides_iff hpterminated hqterminated (Vector.replicate _ 0) (Vector.replicate _ 0)
  exact ⟨p, q, first, second, hpids, hqids, hfirst, hsecond, (hshorter hsame.1 hmax).2 hsame.2⟩

set_option maxRecDepth 4000 in
/-- Task 2 of the second plan is missing in the first. -/
theorem sameIds_missing : ∃ p q first second,
    parsePlan "1;0,0;;;0,1,10,10;".toList zeroedPlan = .ok p ∧
    parsePlan "1;0,0;;;0,1,10,10;0,2,10,10;".toList zeroedPlan = .ok q ∧
    realIds p.liveTasks = [1] ∧ realIds q.liveTasks = [1, 2] ∧
    getAllIdsFromPlan (Vector.replicate _ 0) p = .ok first ∧
    getAllIdsFromPlan (Vector.replicate _ 0) q = .ok second ∧
    sameIds first second = true ∧ ¬ HoldSameIds p q := by
  have hcheck : onOk (parsePlan "1;0,0;;;0,1,10,10;".toList zeroedPlan) (fun p =>
      onOk (parsePlan "1;0,0;;;0,1,10,10;0,2,10,10;".toList zeroedPlan) fun q =>
        onOk (getAllIdsFromPlan (Vector.replicate _ 0) p) fun first =>
          onOk (getAllIdsFromPlan (Vector.replicate _ 0) q) fun second =>
            decide (realIds p.liveTasks = [1] ∧ realIds q.liveTasks = [1, 2] ∧
              sameIds first second = true ∧ ¬ HoldSameIds p q)) = true := by
    decide +kernel
  obtain ⟨p, hp, hcheck⟩ := of_onOk hcheck
  obtain ⟨q, hq, hcheck⟩ := of_onOk hcheck
  obtain ⟨first, hfirst, hcheck⟩ := of_onOk hcheck
  obtain ⟨second, hsecond, hcheck⟩ := of_onOk hcheck
  rw [decide_eq_true_eq] at hcheck
  obtain ⟨hpids, hqids, hresult, hdiffer⟩ := hcheck
  exact ⟨p, q, first, second, hp, hq, hpids, hqids, hfirst, hsecond, hresult, hdiffer⟩

end PbsLevel2
