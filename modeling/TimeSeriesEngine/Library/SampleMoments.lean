import Mathlib.Algebra.Order.Field.Basic
import Mathlib.Algebra.Order.BigOperators.Group.List
import Mathlib.Algebra.BigOperators.Ring.List
import Mathlib.Algebra.BigOperators.Group.List.Basic
import Mathlib.Tactic.LinearCombination
import Mathlib.Tactic.FieldSimp
import Mathlib.Tactic.Ring
import Mathlib.Tactic.Positivity

/-!
# Moments of a sample

Mean, squared deviations and the products of the deviations of paired values, over any
ordered field.

* `mean_between` — the mean lies between bounds of the values;
* `squares_eq` — the squared deviations from the sum of the squares;
* `squares_eq_zero` — they vanish exactly when the values do not vary;
* `products_mul_le`, `products_mul_eq` — Cauchy–Schwarz, and when it is sharp: the pairs
  lie on a line;
* `mean_affine`, `products_affine` — values on another scale.
-/

namespace SampleMoments

variable {K α β : Type} [Field K]

/-! ## Sums over a list -/

/-- The sum of the products of two readings. -/
def cross (f g : α → K) (xs : List α) : K := (xs.map fun x => f x * g x).sum

@[simp] theorem cross_nil (f g : α → K) : cross f g [] = 0 := rfl

@[simp] theorem cross_cons (f g : α → K) (x : α) (xs : List α) :
    cross f g (x :: xs) = f x * g x + cross f g xs := rfl

theorem cross_map (f g : α → K) (h : β → α) (ys : List β) :
    cross f g (ys.map h) = cross (fun y => f (h y)) (fun y => g (h y)) ys :=
  congrArg List.sum (List.map_map ..)

theorem cross_comm (f g : α → K) (xs : List α) : cross f g xs = cross g f xs :=
  congrArg List.sum (List.map_congr_left fun x _ => mul_comm (f x) (g x))

/-- Cross products with a multiple. -/
theorem cross_of_multiple {f g : α → K} {xs : List α} {t : K} (ht : ∀ x ∈ xs, f x = t * g x)
    (h : α → K) : cross f h xs = t * cross g h xs := by
  induction xs with
  | nil => simp
  | cons x xs ih =>
      obtain ⟨hx, hxs⟩ := List.forall_mem_cons.mp ht
      rw [cross_cons, cross_cons, hx, ih hxs]
      ring

/-- What is left of `f` when a multiple of `g` is taken from it. -/
theorem cross_residual (f g : α → K) (t : K) (xs : List α) :
    cross (fun x => f x - t * g x) (fun x => f x - t * g x) xs =
      cross f f xs - 2 * t * cross f g xs + t * t * cross g g xs := by
  induction xs with
  | nil => simp
  | cons x xs ih =>
      rw [cross_cons, cross_cons, cross_cons, cross_cons, ih]
      ring

/-- The multiple that leaves least. -/
theorem cross_residual_best (f g : α → K) {xs : List α} (h : cross g g xs ≠ 0) :
    cross (fun x => f x - cross f g xs / cross g g xs * g x)
        (fun x => f x - cross f g xs / cross g g xs * g x) xs * cross g g xs =
      cross f f xs * cross g g xs - cross f g xs * cross f g xs := by
  rw [cross_residual]
  generalize cross f g xs = c
  generalize cross g g xs = d at h ⊢
  field_simp
  ring

theorem sum_map_const (c : K) (xs : List α) : (xs.map fun _ => c).sum = xs.length * c := by
  rw [List.map_const', List.sum_replicate, nsmul_eq_mul]

/-- The sum of differences. -/
theorem sum_map_sub (f g : α → K) (xs : List α) :
    (xs.map fun x => f x - g x).sum = (xs.map f).sum - (xs.map g).sum := by
  induction xs with
  | nil => simp
  | cons x xs ih =>
      rw [List.map_cons, List.map_cons, List.map_cons, List.sum_cons, List.sum_cons,
        List.sum_cons, ih]
      ring

/-! ## Moments -/

/-- The mean of a list. -/
def mean (xs : List K) : K := xs.sum / xs.length

/-- The sum of the squared deviations. -/
def squares (xs : List K) : K := cross (fun x => x - mean xs) (fun x => x - mean xs) xs

/-- The sum of the products of the deviations of paired values. -/
def products (ps : List (K × K)) : K :=
  cross (fun p => p.1 - mean (ps.map Prod.fst)) (fun p => p.2 - mean (ps.map Prod.snd)) ps

theorem squares_map (f : α → K) (xs : List α) :
    squares (xs.map f) =
      cross (fun x => f x - mean (xs.map f)) (fun x => f x - mean (xs.map f)) xs :=
  cross_map _ _ f xs

/-- The products do not depend on the order of a pair. -/
theorem products_swap (ps : List (K × K)) : products (ps.map Prod.swap) = products ps := by
  have hfst : (ps.map Prod.swap).map Prod.fst = ps.map Prod.snd := by
    rw [List.map_map]
    rfl
  have hsnd : (ps.map Prod.swap).map Prod.snd = ps.map Prod.fst := by
    rw [List.map_map]
    rfl
  rw [products, hfst, hsnd, cross_map]
  exact cross_comm _ _ ps

section CharZero

variable [CharZero K]

theorem length_ne_zero {xs : List α} (h : xs ≠ []) : (xs.length : K) ≠ 0 :=
  Nat.cast_ne_zero.mpr fun hzero => h (List.length_eq_zero_iff.mp hzero)

theorem mean_mul_length {xs : List K} (h : xs ≠ []) : mean xs * xs.length = xs.sum :=
  div_mul_cancel₀ _ (length_ne_zero h)

theorem mean_affine {xs : List α} (h : xs ≠ []) (f : α → K) (a b : K) :
    mean (xs.map fun x => a * f x + b) = a * mean (xs.map f) + b := by
  have hlength := length_ne_zero (K := K) h
  rw [mean, mean, List.length_map, List.length_map, List.sum_map_add, List.sum_map_mul_left,
    sum_map_const]
  field_simp

/-- The squares of an affine image. -/
theorem squares_affine (f : α → K) (xs : List α) (a b : K) :
    squares (xs.map fun x => a * f x + b) = a * a * squares (xs.map f) := by
  rcases eq_or_ne xs [] with rfl | h
  · simp [squares]
  · have hscaled : ∀ x ∈ xs, a * f x + b - mean (xs.map fun x => a * f x + b) =
        a * (f x - mean (xs.map f)) := by
      intro x _
      rw [mean_affine h]
      ring
    rw [squares_map, squares_map, cross_of_multiple hscaled, cross_comm, cross_of_multiple hscaled,
      mul_assoc]

/-- The products with an affine image. -/
theorem products_affine (ps : List (K × K)) (a b : K) :
    products (ps.map fun p => (p.1, a * p.2 + b)) = a * products ps := by
  rcases eq_or_ne ps [] with rfl | h
  · simp [products]
  · have hfst : (ps.map fun p => (p.1, a * p.2 + b)).map Prod.fst = ps.map Prod.fst := by
      rw [List.map_map]
      rfl
    have hsnd : (ps.map fun p => (p.1, a * p.2 + b)).map Prod.snd =
        ps.map fun p => a * p.2 + b := by
      rw [List.map_map]
      rfl
    have hscaled : ∀ p ∈ ps, a * p.2 + b - mean (ps.map fun p => a * p.2 + b) =
        a * (p.2 - mean (ps.map Prod.snd)) := by
      intro p _
      rw [mean_affine h Prod.snd]
      ring
    rw [products, hfst, hsnd, cross_map, cross_comm, cross_of_multiple hscaled, cross_comm]
    rfl

/-- The squared deviations from the sum of the squares. -/
theorem squares_eq (xs : List K) :
    squares xs = (xs.map fun x => x * x).sum - xs.length * (mean xs * mean xs) := by
  rcases eq_or_ne xs [] with rfl | h
  · simp [squares]
  · have hexpand : squares xs =
        (xs.map fun x => x * x - (2 * mean xs * x - mean xs * mean xs)).sum := by
      refine congrArg List.sum (List.map_congr_left fun x _ => ?_)
      ring
    rw [hexpand, sum_map_sub, sum_map_sub, List.sum_map_mul_left, sum_map_const, List.map_id',
      ← mean_mul_length h]
    ring

end CharZero

/-! ## Bounds -/

section Order

variable [LinearOrder K] [IsStrictOrderedRing K]

theorem length_pos {xs : List α} (h : xs ≠ []) : (0 : K) < xs.length :=
  Nat.cast_pos.mpr (List.length_pos_iff.mpr h)

/-- The mean lies between the bounds. -/
theorem mean_between {xs : List K} {low high : K} (h : xs ≠ [])
    (hbounds : ∀ x ∈ xs, low ≤ x ∧ x ≤ high) : low ≤ mean xs ∧ mean xs ≤ high := by
  have hlength := length_pos (K := K) h
  refine ⟨(le_div_iff₀ hlength).mpr ?_, (div_le_iff₀ hlength).mpr ?_⟩
  · have hlow := List.card_nsmul_le_sum xs low fun x hx => (hbounds x hx).1
    rwa [nsmul_eq_mul, mul_comm] at hlow
  · have hhigh := List.sum_le_card_nsmul xs high fun x hx => (hbounds x hx).2
    rwa [nsmul_eq_mul, mul_comm] at hhigh

theorem cross_self_nonneg (f : α → K) (xs : List α) : 0 ≤ cross f f xs := by
  refine List.sum_nonneg fun y hy => ?_
  obtain ⟨x, -, rfl⟩ := List.mem_map.mp hy
  exact mul_self_nonneg (f x)

/-- A sum of squares vanishes with all of its terms. -/
theorem cross_self_eq_zero {f : α → K} {xs : List α} :
    cross f f xs = 0 ↔ ∀ x ∈ xs, f x = 0 := by
  induction xs with
  | nil => simp
  | cons x xs ih =>
      rw [cross_cons, List.forall_mem_cons, ← ih,
        add_eq_zero_iff_of_nonneg (mul_self_nonneg _) (cross_self_nonneg f xs), mul_self_eq_zero]

theorem squares_nonneg (xs : List K) : 0 ≤ squares xs := cross_self_nonneg _ xs

/-- The squared deviations vanish exactly when the values do not vary. -/
theorem squares_eq_zero {xs : List K} :
    squares xs = 0 ↔ ∀ x ∈ xs, ∀ y ∈ xs, x = y := by
  have hzero : squares xs = 0 ↔ ∀ x ∈ xs, x - mean xs = 0 := cross_self_eq_zero
  rw [hzero]
  constructor
  · intro h x hx y hy
    exact (sub_eq_zero.mp (h x hx)).trans (sub_eq_zero.mp (h y hy)).symm
  · intro h x hx
    have hmean : x ≤ mean xs ∧ mean xs ≤ x := by
      refine mean_between (List.ne_nil_of_mem hx) fun y hy => ?_
      exact ⟨(h x hx y hy).le, (h y hy x hx).le⟩
    exact sub_eq_zero.mpr (le_antisymm hmean.1 hmean.2)

/-- Values between two bounds: their squared deviations are at most those of values at the
    bounds. -/
theorem squares_le {xs : List K} {low high : K} (hbounds : ∀ x ∈ xs, low ≤ x ∧ x ≤ high) :
    squares xs ≤ xs.length * ((high - mean xs) * (mean xs - low)) := by
  rcases eq_or_ne xs [] with rfl | h
  · simp [squares]
  · have hnonneg : 0 ≤ (xs.map fun x => (high + low) * x - (x * x + high * low)).sum := by
      refine List.sum_nonneg fun y hy => ?_
      obtain ⟨x, hx, rfl⟩ := List.mem_map.mp hy
      have hinside := mul_nonneg (sub_nonneg.mpr (hbounds x hx).2) (sub_nonneg.mpr (hbounds x hx).1)
      linear_combination hinside
    rw [sum_map_sub, List.sum_map_mul_left, List.sum_map_add, sum_map_const, List.map_id',
      ← mean_mul_length h] at hnonneg
    rw [squares_eq]
    linear_combination hnonneg

/-! ## Paired values -/

theorem cross_mul_le (f g : α → K) {xs : List α} (h : 0 < cross g g xs) :
    cross f g xs * cross f g xs ≤ cross f f xs * cross g g xs := by
  have hpos := mul_nonneg
    (cross_self_nonneg (fun x => f x - cross f g xs / cross g g xs * g x) xs) h.le
  rw [cross_residual_best f g h.ne'] at hpos
  exact sub_nonneg.mp hpos

/-- Equality: one reading is a multiple of the other. -/
theorem cross_mul_eq (f g : α → K) {xs : List α} (h : 0 < cross g g xs) :
    cross f g xs * cross f g xs = cross f f xs * cross g g xs ↔
      ∃ t, ∀ x ∈ xs, f x = t * g x := by
  constructor
  · intro heq
    have hbest := cross_residual_best f g h.ne'
    rw [heq, sub_self, mul_eq_zero] at hbest
    have hzero := cross_self_eq_zero.mp (hbest.resolve_right h.ne')
    exact ⟨cross f g xs / cross g g xs, fun x hx => sub_eq_zero.mp (hzero x hx)⟩
  · rintro ⟨t, ht⟩
    rw [cross_of_multiple ht g, cross_of_multiple ht f, cross_comm g f, cross_of_multiple ht g]
    ring

/-- **Cauchy–Schwarz** for the deviations. -/
theorem products_mul_le {ps : List (K × K)} (h : 0 < squares (ps.map Prod.snd)) :
    products ps * products ps ≤ squares (ps.map Prod.fst) * squares (ps.map Prod.snd) := by
  rw [squares_map] at h
  rw [squares_map, squares_map]
  exact cross_mul_le _ _ h

/-- A line through the means. -/
theorem deviation_of_line {ps : List (K × K)} {a b : K} (hline : ∀ p ∈ ps, p.1 = a * p.2 + b) :
    ∀ p ∈ ps, p.1 - mean (ps.map Prod.fst) = a * (p.2 - mean (ps.map Prod.snd)) := by
  intro p hp
  have hmap : ps.map Prod.fst = ps.map fun p => a * p.2 + b := List.map_congr_left hline
  rw [hmap, mean_affine (List.ne_nil_of_mem hp) Prod.snd, hline p hp]
  ring

/-- **It is sharp** exactly when the pairs lie on a line. -/
theorem products_mul_eq {ps : List (K × K)} (h : 0 < squares (ps.map Prod.snd)) :
    products ps * products ps = squares (ps.map Prod.fst) * squares (ps.map Prod.snd) ↔
      ∃ a b, ∀ p ∈ ps, p.1 = a * p.2 + b := by
  rw [squares_map] at h
  rw [squares_map, squares_map, products, cross_mul_eq _ _ h]
  constructor
  · rintro ⟨t, ht⟩
    refine ⟨t, mean (ps.map Prod.fst) - t * mean (ps.map Prod.snd), fun p hp => ?_⟩
    linear_combination ht p hp
  · rintro ⟨a, b, hline⟩
    exact ⟨a, deviation_of_line hline⟩

/-- On a line the products have the sign of its slope. -/
theorem products_of_line {ps : List (K × K)} {a b : K} (hline : ∀ p ∈ ps, p.1 = a * p.2 + b) :
    products ps = a * squares (ps.map Prod.snd) := by
  rw [squares_map]
  exact cross_of_multiple (deviation_of_line hline) _

end Order

end SampleMoments
