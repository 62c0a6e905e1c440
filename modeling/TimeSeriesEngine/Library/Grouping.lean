import Mathlib.Algebra.BigOperators.Group.List.Lemmas
import Mathlib.Algebra.GroupWithZero.Nat
import Mathlib.Data.List.Dedup
import Mathlib.Order.MinMax

/-!
# Groups of a list of pairs

Pairs of a key and a value, grouped by their keys.

* `keysOf`, `valuesOf` — the groups;
* `sum_length_valuesOf` — every pair is counted in one group;
* `min_of_groups`, `max_of_groups` — the least of the least values is the least of all.
-/

namespace Grouping

variable {κ τ : Type} [DecidableEq κ] {pairs pairs' : List (κ × τ)} {k : κ} {v : τ}

/-- The keys that occur, each once. -/
def keysOf (pairs : List (κ × τ)) : List κ := (pairs.map Prod.fst).dedup

/-- The values of a key, in their order. -/
def valuesOf (pairs : List (κ × τ)) (k : κ) : List τ :=
  (pairs.filter fun pair => decide (pair.1 = k)).map Prod.snd

/-- The values of a key are those paired with it. -/
theorem mem_valuesOf : v ∈ valuesOf pairs k ↔ (k, v) ∈ pairs := by
  rw [valuesOf, List.mem_map]
  constructor
  · rintro ⟨⟨key, value⟩, hpair, rfl⟩
    obtain ⟨hmem, hkey⟩ := List.mem_filter.mp hpair
    obtain rfl : key = k := of_decide_eq_true hkey
    exact hmem
  · intro hmem
    exact ⟨(k, v), List.mem_filter.mpr ⟨hmem, decide_eq_true rfl⟩, rfl⟩

theorem nodup_keysOf (pairs : List (κ × τ)) : (keysOf pairs).Nodup := List.nodup_dedup _

/-- A key is one of a group that holds something. -/
theorem mem_keysOf : k ∈ keysOf pairs ↔ valuesOf pairs k ≠ [] := by
  rw [keysOf, List.mem_dedup, List.mem_map]
  constructor
  · rintro ⟨⟨key, value⟩, hpair, rfl⟩
    exact List.ne_nil_of_mem (mem_valuesOf.mpr hpair)
  · intro hsome
    obtain ⟨value, hvalue⟩ := List.exists_mem_of_ne_nil _ hsome
    exact ⟨(k, value), mem_valuesOf.mp hvalue, rfl⟩

theorem valuesOf_perm (h : pairs.Perm pairs') (k : κ) : (valuesOf pairs k).Perm (valuesOf pairs' k) :=
  (h.filter _).map _

theorem length_valuesOf (pairs : List (κ × τ)) (k : κ) :
    (valuesOf pairs k).length = (pairs.map Prod.fst).count k := by
  rw [valuesOf, List.length_map, ← List.countP_eq_length_filter, List.count, List.countP_map]
  exact List.countP_congr fun pair _ => by simp

/-- Every pair is counted in one group. -/
theorem sum_length_valuesOf (pairs : List (κ × τ)) :
    ((keysOf pairs).map fun k => (valuesOf pairs k).length).sum = pairs.length := by
  simp only [length_valuesOf]
  rw [keysOf, List.sum_map_count_dedup_eq_length, List.length_map]

theorem value_of_group {bound : List τ → Option τ} (hbound : ∀ {xs x}, bound xs = some x → x ∈ xs)
    {x : τ} (hx : x ∈ (keysOf pairs).filterMap fun k => bound (valuesOf pairs k)) :
    x ∈ pairs.map Prod.snd := by
  obtain ⟨k, -, hk⟩ := List.mem_filterMap.mp hx
  exact List.mem_map_of_mem (mem_valuesOf.mp (hbound hk))

/-- The group a pair is in. -/
theorem group_of_value {x : τ} (hx : x ∈ pairs.map Prod.snd) :
    ∃ k ∈ keysOf pairs, x ∈ valuesOf pairs k := by
  obtain ⟨⟨k, y⟩, hpair, rfl⟩ := List.mem_map.mp hx
  have hvalue := mem_valuesOf.mpr hpair
  exact ⟨k, mem_keysOf.mpr (List.ne_nil_of_mem hvalue), hvalue⟩

variable [LinearOrder τ]

/-- The least element does not depend on what else is there. -/
theorem min?_eq {xs ys : List τ} (hsub : ∀ y ∈ ys, y ∈ xs) (hbelow : ∀ x ∈ xs, ∃ y ∈ ys, y ≤ x) :
    ys.min? = xs.min? := by
  cases hmin : ys.min? with
  | none =>
      have hnil := List.min?_eq_none_iff.mp hmin
      refine (List.min?_eq_none_iff.mpr (List.eq_nil_iff_forall_not_mem.mpr fun x hx => ?_)).symm
      obtain ⟨y, hy, -⟩ := hbelow x hx
      rw [hnil] at hy
      cases hy
  | some least =>
      obtain ⟨hmem, hleast⟩ := List.min?_eq_some_iff.mp hmin
      refine (List.min?_eq_some_iff.mpr ⟨hsub least hmem, fun x hx => ?_⟩).symm
      obtain ⟨y, hy, hle⟩ := hbelow x hx
      exact (hleast y hy).trans hle

/-- A part that reaches above every element has the same maximum. -/
theorem max?_eq {xs ys : List τ} (hsub : ∀ y ∈ ys, y ∈ xs) (habove : ∀ x ∈ xs, ∃ y ∈ ys, x ≤ y) :
    ys.max? = xs.max? := by
  cases hmax : ys.max? with
  | none =>
      have hnil := List.max?_eq_none_iff.mp hmax
      refine (List.max?_eq_none_iff.mpr (List.eq_nil_iff_forall_not_mem.mpr fun x hx => ?_)).symm
      obtain ⟨y, hy, -⟩ := habove x hx
      rw [hnil] at hy
      cases hy
  | some greatest =>
      obtain ⟨hmem, hgreatest⟩ := List.max?_eq_some_iff.mp hmax
      refine (List.max?_eq_some_iff.mpr ⟨hsub greatest hmem, fun x hx => ?_⟩).symm
      obtain ⟨y, hy, hle⟩ := habove x hx
      exact hle.trans (hgreatest y hy)

theorem min?_perm {xs ys : List τ} (h : xs.Perm ys) : xs.min? = ys.min? :=
  min?_eq (fun _ hx => h.mem_iff.mp hx) fun y hy => ⟨y, h.mem_iff.mpr hy, le_refl y⟩

theorem max?_perm {xs ys : List τ} (h : xs.Perm ys) : xs.max? = ys.max? :=
  max?_eq (fun _ hx => h.mem_iff.mp hx) fun y hy => ⟨y, h.mem_iff.mpr hy, le_refl y⟩

/-- The least of the least values is the least of all. -/
theorem min_of_groups (pairs : List (κ × τ)) :
    ((keysOf pairs).filterMap fun k => (valuesOf pairs k).min?).min? =
      (pairs.map Prod.snd).min? := by
  refine min?_eq (fun y hy => value_of_group (fun h => (List.min?_eq_some_iff.mp h).1) hy)
    fun x hx => ?_
  obtain ⟨k, hk, hvalue⟩ := group_of_value hx
  obtain ⟨least, hleast⟩ := Option.isSome_iff_exists.mp (List.isSome_min?_of_mem hvalue)
  exact ⟨least, List.mem_filterMap.mpr ⟨k, hk, hleast⟩,
    (List.min?_eq_some_iff.mp hleast).2 x hvalue⟩

/-- The greatest of the greatest values is the greatest of all. -/
theorem max_of_groups (pairs : List (κ × τ)) :
    ((keysOf pairs).filterMap fun k => (valuesOf pairs k).max?).max? =
      (pairs.map Prod.snd).max? := by
  refine max?_eq (fun y hy => value_of_group (fun h => (List.max?_eq_some_iff.mp h).1) hy)
    fun x hx => ?_
  obtain ⟨k, hk, hvalue⟩ := group_of_value hx
  obtain ⟨greatest, hgreatest⟩ := Option.isSome_iff_exists.mp (List.isSome_max?_of_mem hvalue)
  exact ⟨greatest, List.mem_filterMap.mpr ⟨k, hk, hgreatest⟩,
    (List.max?_eq_some_iff.mp hgreatest).2 x hvalue⟩

end Grouping
