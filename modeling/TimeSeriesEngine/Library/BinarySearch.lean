import Mathlib.Data.List.TakeWhile
import TimeSeriesEngine.Library.OrderedSeries

/-!
# Binary search by halving

The search of the C++ standard library: a first candidate, a number of
candidates that is halved in every turn, and a predicate that holds in front of
the answer and fails from there on.

* `partitionPoint_eq` — the only index the predicate can change at is the one the
  search returns;
* `lt_lowerBound_iff`, `lt_upperBound_iff` — over a sorted range the result
  separates the keys;
* `lowerBound_eq` — a scan from the front stops at the same index, so a
  `lower_bound` may be read as `below`.
-/

namespace BinarySearch

open OrderedSeries

variable {α κ : Type}

/-- The loop of `std::partition_point`: `count` candidates from `first` on. -/
def partitionPoint (p : α → Bool) (xs : List α) (first count : Nat) : Nat :=
  if count = 0 then first
  else if (xs[first + count / 2]?).any p then
    partitionPoint p xs (first + count / 2 + 1) (count - count / 2 - 1)
  else partitionPoint p xs first (count / 2)
termination_by count
decreasing_by all_goals omega

/-- The loop keeps the index at which the predicate changes among its
    candidates, and ends when there is one candidate left. -/
theorem partitionPoint_eq {p : α → Bool} {xs : List α} {first count n : Nat}
    (hfirst : first ≤ n) (hlast : n ≤ first + count)
    (hbefore : ∀ i, first ≤ i → i < n → (xs[i]?).any p = true)
    (hafter : ∀ i, n ≤ i → i < first + count → (xs[i]?).any p = false) :
    partitionPoint p xs first count = n := by
  induction first, count using partitionPoint.induct p xs with
  | case1 first =>
      rw [partitionPoint, if_pos rfl]
      omega
  | case2 first count hcount hp ih =>
      rw [partitionPoint, if_neg hcount, if_pos hp]
      have hn : first + count / 2 < n := by
        by_contra hge
        rw [hafter _ (not_lt.mp hge) (by omega)] at hp
        exact absurd hp (by simp)
      exact ih hn (by omega) (fun i hi => hbefore i (by omega))
        fun i hi hlt => hafter i hi (by omega)
  | case3 first count hcount hp ih =>
      rw [partitionPoint, if_neg hcount, if_neg hp]
      have hn : n ≤ first + count / 2 := by
        by_contra hlt
        exact hp (hbefore _ (by omega) (not_le.mp hlt))
      exact ih hfirst hn hbefore fun i hi hlt => hafter i hi (by omega)

/-- The predicate never holds behind an element it fails on. -/
def Partitioned (p : α → Bool) (xs : List α) : Prop :=
  xs.Pairwise fun x y => p y = true → p x = true

/-- Behind the first failure the test fails. -/
theorem Partitioned.not_mem_dropWhile {p : α → Bool} {xs : List α} (h : Partitioned p xs)
    {x : α} (hx : x ∈ xs.dropWhile p) : p x = false := by
  induction xs with
  | nil => exact absurd hx (by simp)
  | cons y ys ih =>
      obtain ⟨hy, hys⟩ := List.pairwise_cons.mp h
      by_cases hpy : p y = true
      · rw [List.dropWhile_cons_of_pos hpy] at hx
        exact ih hys hx
      · rw [List.dropWhile_cons_of_neg hpy] at hx
        rcases List.mem_cons.mp hx with rfl | hx'
        · exact Bool.eq_false_iff.mpr hpy
        · exact Bool.eq_false_iff.mpr fun hpx => hpy (hy x hx' hpx)

/-- The front part of a partitioned list is where the predicate holds. -/
theorem Partitioned.lt_length_takeWhile_iff {p : α → Bool} {xs : List α} (h : Partitioned p xs)
    {i : Nat} {x : α} (hx : xs[i]? = some x) : i < (xs.takeWhile p).length ↔ p x = true := by
  have hsplit : xs.takeWhile p ++ xs.dropWhile p = xs := List.takeWhile_append_dropWhile
  rw [← hsplit] at hx
  rcases Nat.lt_or_ge i (xs.takeWhile p).length with hlt | hge
  · rw [List.getElem?_append_left hlt] at hx
    exact iff_of_true hlt (List.mem_takeWhile_imp (List.mem_of_getElem? hx))
  · rw [List.getElem?_append_right hge] at hx
    have hfalse := h.not_mem_dropWhile (List.mem_of_getElem? hx)
    exact iff_of_false (by omega) (by simp [hfalse])

/-- Over a partitioned range the search finds the end of the front part. -/
theorem partitionPoint_takeWhile {p : α → Bool} {xs : List α} {first : Nat}
    (hp : Partitioned p (xs.drop first)) (hfirst : first ≤ xs.length) :
    partitionPoint p xs first (xs.length - first) =
      first + ((xs.drop first).takeWhile p).length := by
  have hlength : ((xs.drop first).takeWhile p).length ≤ xs.length - first := by
    rw [← List.length_drop]
    exact (List.takeWhile_sublist p).length_le
  have hget : ∀ i, first ≤ i → i < xs.length → ∃ x, xs[i]? = some x ∧
      (i < first + ((xs.drop first).takeWhile p).length ↔ p x = true) := fun i hi hlt => by
    have hx : (xs.drop first)[i - first]? = some xs[i] := by
      rw [List.getElem?_drop, Nat.add_sub_cancel' hi, List.getElem?_eq_getElem hlt]
    refine ⟨xs[i], List.getElem?_eq_getElem hlt, ?_⟩
    rw [← hp.lt_length_takeWhile_iff hx]
    omega
  refine partitionPoint_eq (by omega) (by omega) (fun i hi hlt => ?_) fun i hi hlt => ?_
  · obtain ⟨x, hx, hiff⟩ := hget i hi (by omega)
    rw [hx]
    exact hiff.mp hlt
  · obtain ⟨x, hx, hiff⟩ := hget i (by omega) (by omega)
    rw [hx]
    exact Bool.eq_false_iff.mpr fun hpx => absurd (hiff.mpr hpx) (by omega)

/-- A valid search: its result separates the range. -/
theorem lt_partitionPoint_iff {p : α → Bool} {xs : List α} {first : Nat}
    (hp : Partitioned p (xs.drop first)) (hfirst : first ≤ xs.length) {i : Nat} {x : α}
    (hi : first ≤ i) (hx : xs[i]? = some x) :
    i < partitionPoint p xs first (xs.length - first) ↔ p x = true := by
  have hx' : (xs.drop first)[i - first]? = some x := by
    rw [List.getElem?_drop, Nat.add_sub_cancel' hi, hx]
  rw [partitionPoint_takeWhile hp hfirst, ← hp.lt_length_takeWhile_iff hx']
  omega

/-! ## Searching for a key -/

variable [LinearOrder κ] (key : α → κ)

/-- `std::lower_bound` from `first` to the end. -/
def lowerBound (t : κ) (xs : List α) (first : Nat) : Nat :=
  partitionPoint (fun x => decide (key x < t)) xs first (xs.length - first)

/-- `std::upper_bound` from `first` to the end. -/
def upperBound (t : κ) (xs : List α) (first : Nat) : Nat :=
  partitionPoint (fun x => !decide (t < key x)) xs first (xs.length - first)

theorem partitioned_lt {xs : List α} (h : Ordered key xs) (t : κ) :
    Partitioned (fun x => decide (key x < t)) xs :=
  h.imp fun hxy hy => decide_eq_true (lt_of_le_of_lt hxy (of_decide_eq_true hy))

theorem partitioned_le {xs : List α} (h : Ordered key xs) (t : κ) :
    Partitioned (fun x => !decide (t < key x)) xs := by
  refine h.imp fun hxy hy => ?_
  simp only [Bool.not_eq_true', decide_eq_false_iff_not, not_lt] at hy ⊢
  exact le_trans hxy hy

theorem lowerBound_eq {xs : List α} {first : Nat} (h : Ordered key (xs.drop first))
    (hfirst : first ≤ xs.length) (t : κ) :
    lowerBound key t xs first = first + (below key t (xs.drop first)).length :=
  partitionPoint_takeWhile (partitioned_lt key h t) hfirst

theorem lt_lowerBound_iff {xs : List α} {first : Nat} (h : Ordered key (xs.drop first))
    (hfirst : first ≤ xs.length) (t : κ) {i : Nat} {x : α} (hi : first ≤ i)
    (hx : xs[i]? = some x) : i < lowerBound key t xs first ↔ key x < t := by
  rw [lowerBound, lt_partitionPoint_iff (partitioned_lt key h t) hfirst hi hx,
    decide_eq_true_eq]

theorem lt_upperBound_iff {xs : List α} {first : Nat} (h : Ordered key (xs.drop first))
    (hfirst : first ≤ xs.length) (t : κ) {i : Nat} {x : α} (hi : first ≤ i)
    (hx : xs[i]? = some x) : i < upperBound key t xs first ↔ key x ≤ t := by
  rw [upperBound, lt_partitionPoint_iff (partitioned_le key h t) hfirst hi hx]
  simp

end BinarySearch
