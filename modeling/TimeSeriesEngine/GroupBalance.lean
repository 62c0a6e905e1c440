import Mathlib.Data.Rat.Floor
import TimeSeriesEngine.Library.GreedyGroups
import TimeSeriesEngine.LockedOperations

/-!
# The groups of an update

`groupSequenceTasks` puts the sequences of an update, or of a large prune, into groups
for the pool.

* `bestGroup_cases` — the inner loop finds a group with room, or there is none;
* `placeItem_placed` — one turn of the grouping loop is a greedy step;
* `groups_balanced` — the groups partition the items, a group of several stays within
  the target, two groups exceed it, and so there are fewer than four for each worker.
-/

namespace GroupBalance

open Transition LockedOperations GreedyGroups

variable {α : Type} {cost : α → Nat} {target : Nat}

/-! ## The inner loop -/

/-- The group at the index has room for an item of this cost. -/
def HasRoom (itemCost target : Nat) (costs : List Nat) (index : Nat) : Prop :=
  costs.getD index 0 + itemCost ≤ target

/-- What the inner loop knows after `seen` groups: a group with room, or that none of
    them has any. -/
def Looked (itemCost target : Nat) (costs : List Nat) (seen : Nat) (best : Option Nat) : Prop :=
  (best = none ∧ ∀ i < seen, ¬ HasRoom itemCost target costs i) ∨
    ∃ i < seen, best = some i ∧ HasRoom itemCost target costs i

/-- One more group has been looked at. -/
theorem betterGroup_looked {itemCost : Nat} {costs : List Nat} {seen : Nat} {best : Option Nat}
    (h : Looked itemCost target costs seen best) :
    Looked itemCost target costs (seen + 1) (betterGroup itemCost target costs best seen) := by
  by_cases hfull : target < costs.getD seen 0 + itemCost
  · simp only [betterGroup, if_pos hfull]
    rcases h with ⟨hnone, hall⟩ | ⟨i, hi, hbest, hroom⟩
    · refine Or.inl ⟨hnone, fun i hi => ?_⟩
      rcases Nat.lt_succ_iff_lt_or_eq.mp hi with hlt | rfl
      · exact hall i hlt
      · exact Nat.not_le.mpr hfull
    · exact Or.inr ⟨i, Nat.lt_succ_of_lt hi, hbest, hroom⟩
  · have hseen : HasRoom itemCost target costs seen := Nat.not_lt.mp hfull
    simp only [betterGroup, if_neg hfull]
    rcases h with ⟨rfl, -⟩ | ⟨i, hi, rfl, hroom⟩
    · exact Or.inr ⟨seen, Nat.lt_succ_self seen, rfl, hseen⟩
    · by_cases hcheaper : costs.getD seen 0 < costs.getD i 0
      · simp only [if_pos hcheaper]
        exact Or.inr ⟨seen, Nat.lt_succ_self seen, rfl, hseen⟩
      · simp only [if_neg hcheaper]
        exact Or.inr ⟨i, Nat.lt_succ_of_lt hi, rfl, hroom⟩

/-- The group chosen, after all have been looked at. -/
theorem bestGroup_cases (itemCost target : Nat) (costs : List Nat) :
    Looked itemCost target costs costs.length (bestGroup itemCost target costs) := by
  have hloop : ∀ seen, Looked itemCost target costs seen
      ((List.range seen).foldl (betterGroup itemCost target costs) none) := by
    intro seen
    induction seen with
    | zero => exact Or.inl ⟨rfl, fun i hi => absurd hi (Nat.not_lt_zero i)⟩
    | succ seen ih =>
        rw [List.range_succ, List.foldl_append]
        exact betterGroup_looked ih
  exact hloop costs.length

/-! ## The grouping loop -/

/-- The recorded costs are those of the groups. -/
def Recorded (cost : α → Nat) (groups : List (Nat × List α)) : Prop :=
  ∀ group ∈ groups, group.1 = load cost group.2

/-- An item is placed as the rule says, and its cost recorded. -/
theorem placeItem_placed {groups : List (Nat × List α)} (hrecorded : Recorded cost groups)
    (item : α) :
    Placed cost target item (groups.map Prod.snd)
        ((placeItem cost target groups item).map Prod.snd) ∧
      Recorded cost (placeItem cost target groups item) := by
  rw [placeItem]
  rcases bestGroup_cases (cost item) target (groups.map Prod.fst) with
    ⟨hnone, hfull⟩ | ⟨index, hindex, hsome, hroom⟩
  · simp only [hnone, List.map_append, List.map_singleton]
    refine ⟨.opened fun group hgroup => ?_, fun group hgroup => ?_⟩
    · obtain ⟨entry, hentry, rfl⟩ := List.mem_map.mp hgroup
      obtain ⟨i, hi, rfl⟩ := List.getElem_of_mem hentry
      have hno := hfull i (by rwa [List.length_map])
      rw [HasRoom, List.getD_eq_getElem?_getD, List.getElem?_map, List.getElem?_eq_getElem hi,
        Option.map_some, Option.getD_some, hrecorded _ (List.getElem_mem hi)] at hno
      exact Nat.not_le.mp hno
    · rcases List.mem_append.mp hgroup with hold | hnew
      · exact hrecorded group hold
      · rw [List.mem_singleton.mp hnew]
        exact (load_singleton cost item).symm
  · simp only [hsome]
    rw [List.length_map] at hindex
    obtain ⟨before, group, after, rfl, rfl, hmodified⟩ :=
      List.exists_of_modify (fun group : Nat × List α => (group.1 + cost item, group.2 ++ [item]))
        hindex
    have hgroup : group.1 = load cost group.2 := hrecorded group (by simp)
    rw [hmodified, List.map_append, List.map_append, List.map_cons, List.map_cons]
    refine ⟨.joined _ _ _ ?_, fun other hother => ?_⟩
    · rw [← hgroup]
      simpa [HasRoom] using hroom
    · rcases List.mem_append.mp hother with hold | hother
      · exact hrecorded other (List.mem_append_left _ hold)
      rcases List.mem_cons.mp hother with rfl | hold
      · show group.1 + cost item = load cost (group.2 ++ [item])
        rw [load_append, load_singleton, hgroup]
      · exact hrecorded other (List.mem_append_right _ (List.mem_cons_of_mem group hold))

/-- **Run.**  The greedy steps of the loop keep the groups balanced. -/
theorem placeItems_balanced (items : List α) :
    Balanced cost target ((items.foldl (placeItem cost target) []).map Prod.snd) := by
  have hrun := @run_invariant _ _ (placeItem cost target)
    (fun groups => Recorded cost groups ∧ Balanced cost target (groups.map Prod.snd))
    (fun _ => True)
    (fun groups item _ h => by
      obtain ⟨hplaced, hrecorded⟩ := @placeItem_placed _ cost target groups h.1 item
      exact ⟨hrecorded, hplaced.balanced h.2⟩)
    [] ⟨fun group hgroup => absurd hgroup List.not_mem_nil, balanced_nil cost target⟩ items
    fun _ _ => trivial
  exact hrun.2

/-! ## The target -/

/-- `target_cost`, for what the items cost together. -/
def targetCost (total workerCount : Nat) : Nat :=
  max kMinimumSequenceGroupCost ⌈(total : ℚ) / (2 * workerCount : ℕ)⌉₊

/-- The target, as the source computes it. -/
theorem targetCost_eq (total : Nat) {workerCount : Nat} (h : 0 < workerCount) :
    max kMinimumSequenceGroupCost
        (max 1 ((total + workerCount * kSequenceTaskOversubscription - 1) /
          (workerCount * kSequenceTaskOversubscription))) =
      targetCost total workerCount := by
  have hpos : 0 < 2 * workerCount := Nat.mul_pos (Nat.succ_pos 1) h
  have hceil : ⌈(total : ℚ) / (2 * workerCount : ℕ)⌉₊ =
      (total + 2 * workerCount - 1) / (2 * workerCount) := by
    refine eq_of_forall_ge_iff fun count => ?_
    rw [Nat.ceil_le, div_le_iff₀ (Nat.cast_pos.mpr hpos), ← Nat.cast_mul, Nat.cast_le,
      ← Nat.lt_succ_iff (n := count), Nat.div_lt_iff_lt_mul hpos, Nat.succ_mul count]
    omega
  rw [targetCost, hceil, Nat.mul_comm workerCount]
  unfold kMinimumSequenceGroupCost kSequenceTaskOversubscription
  omega

/-- The target is at least an even share of what the items cost. -/
theorem le_targetCost (total : Nat) {workerCount : Nat} (h : 0 < workerCount) :
    total ≤ targetCost total workerCount * (2 * workerCount) := by
  have hpos : 0 < 2 * workerCount := Nat.mul_pos (Nat.succ_pos 1) h
  have hceil : ⌈(total : ℚ) / (2 * workerCount : ℕ)⌉₊ ≤ targetCost total workerCount :=
    Nat.le_max_right _ _
  rw [Nat.ceil_le, div_le_iff₀ (Nat.cast_pos.mpr hpos), ← Nat.cast_mul, Nat.cast_le] at hceil
  exact hceil

/-! ## The groups -/

/-- The groups are balanced. -/
theorem groupSequenceTasks_balanced (items : List α) {workerCount : Nat} (h : 0 < workerCount) :
    Balanced cost (targetCost (load cost items) workerCount)
      (groupSequenceTasks items workerCount cost) := by
  rw [groupSequenceTasks]
  by_cases hempty : items.isEmpty = true
  · rw [if_pos hempty]
    exact balanced_nil _ _
  · rw [if_neg hempty, if_neg (Nat.pos_iff_ne_zero.mp h)]
    simp only [targetCost_eq _ h]
    exact placeItems_balanced _

/-- **THE GROUPS ARE BALANCED**: every item is in one group and once, no group is empty,
    a group of several items costs the target at most, two groups cost more than it
    together, and there are fewer than four groups for each worker. -/
theorem groups_balanced (items : List α) {workerCount : Nat} (hworkers : 0 < workerCount)
    (cost : α → Nat) :
    (groupSequenceTasks items workerCount cost).flatten.Perm items ∧
      (∀ group ∈ groupSequenceTasks items workerCount cost, group ≠ []) ∧
      (∀ group ∈ groupSequenceTasks items workerCount cost, 1 < group.length →
        (group.map cost).sum ≤ targetCost (items.map cost).sum workerCount) ∧
      ((groupSequenceTasks items workerCount cost).Pairwise fun group other =>
        targetCost (items.map cost).sum workerCount < (group.map cost).sum + (other.map cost).sum) ∧
      (groupSequenceTasks items workerCount cost).length ≤ 4 * workerCount - 1 := by
  have hperm := groupSequenceTasks_perm items workerCount cost
  have hbalanced := @groupSequenceTasks_balanced _ cost items _ hworkers
  refine ⟨hperm, hbalanced.filled, hbalanced.light, hbalanced.crowded, ?_⟩
  rcases hbalanced.count with hfew | hmany
  · omega
  · have htotal : load cost (groupSequenceTasks items workerCount cost).flatten =
        load cost items := (hperm.map cost).sum_eq
    have hshare := le_targetCost (load cost items) hworkers
    rw [htotal] at hmany
    have hlt : (groupSequenceTasks items workerCount cost).length < 4 * workerCount := by
      refine Nat.lt_of_mul_lt_mul_right (a := targetCost (load cost items) workerCount) ?_
      calc (groupSequenceTasks items workerCount cost).length *
            targetCost (load cost items) workerCount
          < 2 * load cost items := hmany
        _ ≤ 2 * (targetCost (load cost items) workerCount * (2 * workerCount)) :=
            Nat.mul_le_mul_left 2 hshare
        _ = 4 * workerCount * targetCost (load cost items) workerCount := by ring
    omega

/-- Costs 9, 5, 4, 3 for one worker: a target of 11, and three groups. -/
theorem groups_balanced_one_worker :
    0 < 1 ∧ (groupSequenceTasks [3, 9, 5, 4] 1 id).length ≤ 4 * 1 - 1 ∧
      groupSequenceTasks [3, 9, 5, 4] 1 id = [[9], [5, 4], [3]] :=
  ⟨by decide, (groups_balanced [3, 9, 5, 4] (by decide) id).2.2.2.2, by decide +kernel⟩

end GroupBalance
