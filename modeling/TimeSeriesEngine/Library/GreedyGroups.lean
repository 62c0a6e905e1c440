import Mathlib.Algebra.BigOperators.Group.List.Basic
import Mathlib.Tactic.Linarith

/-!
# Greedy grouping

Items with a cost are put into groups one at a time.  An item joins a group it fits
in; a group is opened for an item that fits in none.  Which of the fitting groups it
joins does not matter here.

* `Placed` — what one item does to the groups;
* `Balanced` — no group is empty, only a single item may exceed the target, and any
  two groups together do;
* `Placed.balanced`, `Balanced.count` — the step keeps that, and it bounds the number
  of groups.
-/

namespace GreedyGroups

variable {α : Type} {cost : α → Nat} {target : Nat} {groups groups' : List (List α)}

/-- What a group costs. -/
def load (cost : α → Nat) (group : List α) : Nat := (group.map cost).sum

theorem load_append (cost : α → Nat) (group group' : List α) :
    load cost (group ++ group') = load cost group + load cost group' := by
  rw [load, List.map_append, List.sum_append]
  rfl

theorem load_singleton (cost : α → Nat) (item : α) : load cost [item] = cost item := by
  rw [load, List.map_singleton, List.sum_singleton]

theorem load_flatten (cost : α → Nat) (groups : List (List α)) :
    load cost groups.flatten = (groups.map (load cost)).sum := by
  induction groups with
  | nil => rfl
  | cons group groups ih =>
      rw [List.flatten_cons, load_append, ih, List.map_cons, List.sum_cons]

/-- One item has been put into a group. -/
inductive Placed (cost : α → Nat) (target : Nat) (item : α) :
    List (List α) → List (List α) → Prop where
  | opened {groups : List (List α)} :
      (∀ group ∈ groups, target < load cost group + cost item) →
      Placed cost target item groups (groups ++ [[item]])
  | joined (before : List (List α)) (group : List α) (after : List (List α)) :
      load cost group + cost item ≤ target →
      Placed cost target item (before ++ group :: after) (before ++ (group ++ [item]) :: after)

/-- No group is empty, none but a single item goes over the target, and no two are both light. -/
structure Balanced (cost : α → Nat) (target : Nat) (groups : List (List α)) : Prop where
  filled : ∀ group ∈ groups, group ≠ []
  light : ∀ group ∈ groups, 1 < group.length → load cost group ≤ target
  crowded : groups.Pairwise fun a b => target < load cost a + load cost b

theorem balanced_nil (cost : α → Nat) (target : Nat) : Balanced cost target [] where
  filled := fun _ h => absurd h List.not_mem_nil
  light := fun _ h => absurd h List.not_mem_nil
  crowded := List.Pairwise.nil

/-- **Step.**  Two groups that exceed the target together still do when one of them
    grows, and a group is opened only next to groups without room. -/
theorem Placed.balanced {item : α} (h : Placed cost target item groups groups')
    (hbalanced : Balanced cost target groups) : Balanced cost target groups' := by
  cases h with
  | opened hfull =>
      refine ⟨fun group hgroup => ?_, fun group hgroup hlength => ?_, ?_⟩
      · rcases List.mem_append.mp hgroup with hold | hnew
        · exact hbalanced.filled group hold
        · rw [List.mem_singleton.mp hnew]
          exact List.cons_ne_nil item []
      · rcases List.mem_append.mp hgroup with hold | hnew
        · exact hbalanced.light group hold hlength
        · rw [List.mem_singleton.mp hnew] at hlength
          exact absurd hlength (Nat.lt_irrefl 1)
      · refine List.pairwise_append.mpr ⟨hbalanced.crowded, List.pairwise_singleton _ _, ?_⟩
        intro group hgroup other hother
        rw [List.mem_singleton.mp hother, load_singleton]
        exact hfull group hgroup
  | joined before group after hroom =>
      have hgrown : load cost (group ++ [item]) = load cost group + cost item := by
        rw [load_append, load_singleton]
      obtain ⟨hbefore, hrest, hcross⟩ := List.pairwise_append.mp hbalanced.crowded
      obtain ⟨hgroup, hafter⟩ := List.pairwise_cons.mp hrest
      refine ⟨fun other hother => ?_, fun other hother hlength => ?_, ?_⟩
      · rcases List.mem_append.mp hother with hold | hother
        · exact hbalanced.filled other (List.mem_append_left _ hold)
        rcases List.mem_cons.mp hother with rfl | hold
        · exact List.append_ne_nil_of_right_ne_nil group (List.cons_ne_nil item [])
        · exact hbalanced.filled other
            (List.mem_append_right _ (List.mem_cons_of_mem group hold))
      · rcases List.mem_append.mp hother with hold | hother
        · exact hbalanced.light other (List.mem_append_left _ hold) hlength
        rcases List.mem_cons.mp hother with rfl | hold
        · rw [hgrown]
          exact hroom
        · exact hbalanced.light other
            (List.mem_append_right _ (List.mem_cons_of_mem group hold)) hlength
      · refine List.pairwise_append.mpr
          ⟨hbefore, List.pairwise_cons.mpr ⟨fun other hother => ?_, hafter⟩, ?_⟩
        · have hpair := hgroup other hother
          omega
        · intro other hother third hthird
          rcases List.mem_cons.mp hthird with rfl | hthird
          · have hpair := hcross other hother group (List.mem_cons_self ..)
            omega
          · exact hcross other hother third (List.mem_cons_of_mem group hthird)

/-! ## How many groups there are -/

/-- All pairs counted: each number stands in one pair less than there are numbers. -/
theorem pairs_le {numbers : List Nat} {t : Nat}
    (h : numbers.Pairwise fun a b => t < a + b) :
    numbers.length * numbers.length * (t + 1) + 2 * numbers.sum ≤
      2 * (numbers.length * numbers.sum) + numbers.length * (t + 1) := by
  induction numbers with
  | nil => simp
  | cons number numbers ih =>
      obtain ⟨hnumber, hrest⟩ := List.pairwise_cons.mp h
      -- the pairs of the first number
      have hrow : numbers.length * (t + 1) ≤ numbers.length * number + numbers.sum := by
        clear ih h hrest
        induction numbers with
        | nil => simp
        | cons other numbers ih =>
            have hother := hnumber other (List.mem_cons_self ..)
            have hothers := ih fun b hb => hnumber b (List.mem_cons_of_mem other hb)
            rw [List.length_cons, List.sum_cons, Nat.add_mul, Nat.add_mul]
            omega
      have hpairs := ih hrest
      rw [List.length_cons, List.sum_cons]
      nlinarith

/-- Two or more groups: their number is bounded by what they cost together. -/
theorem Balanced.count (h : Balanced cost target groups) :
    groups.length ≤ 1 ∨ groups.length * target < 2 * load cost groups.flatten := by
  rcases Nat.lt_or_ge 1 groups.length with hmany | hfew
  · refine Or.inr ?_
    obtain ⟨k, hk⟩ : ∃ k, groups.length = k + 2 := ⟨groups.length - 2, by omega⟩
    have hpairs := pairs_le (List.pairwise_map.mpr h.crowded)
    rw [← load_flatten, List.length_map, hk] at hpairs
    have hcancel : (k + 1) * ((k + 2) * (target + 1)) ≤
        (k + 1) * (2 * load cost groups.flatten) := by
      nlinarith
    have hle := Nat.le_of_mul_le_mul_left hcancel (Nat.succ_pos k)
    rw [hk]
    exact lt_of_lt_of_le (Nat.mul_lt_mul_of_pos_left (Nat.lt_succ_self target)
      (Nat.succ_pos (k + 1))) hle
  · exact Or.inl hfew

end GreedyGroups
