import TimeSeriesEngine.Library.OrderedSeries
import Mathlib.Data.Prod.Lex

/-!
# Stable sorting

Sorting by a key that need not tell the elements apart.

* `StableSortOf` — in the order of the key, elements of one key in the order they had;
* `StableSortOf.unique` — there is one such list;
* `stableSortOf_insertionSort`, `StableSortOf.append`, `StableSortOf.lex` — it is what an
  insertion sort gives, what sorted pieces one after the other give, and by a pair of keys
  what sorting by the second key gives where the first is the same.
-/

namespace StableSort

open OrderedSeries

variable {α κ : Type} [LinearOrder κ]

/-- `ys` is `xs` sorted by `key`, elements of one key in the order they had. -/
structure StableSortOf (key : α → κ) (xs ys : List α) : Prop where
  ordered : Ordered key ys
  stable : ∀ k, ys.filter (fun x => decide (key x = k)) = xs.filter fun x => decide (key x = k)

namespace StableSortOf

variable {key : α → κ} {xs ys : List α}

theorem mem_filter_key {zs : List α} {x : α} :
    x ∈ zs.filter (fun z => decide (key z = key x)) ↔ x ∈ zs := by
  rw [List.mem_filter]
  exact and_iff_left (decide_eq_true rfl)

theorem mem_iff (h : StableSortOf key xs ys) {x : α} : x ∈ ys ↔ x ∈ xs := by
  rw [← @mem_filter_key _ _ _ key, h.stable, mem_filter_key]

theorem nil : StableSortOf key [] [] := ⟨List.Pairwise.nil, fun _ => rfl⟩

theorem mem_of_filters {ys zs : List α}
    (h : ∀ k, ys.filter (fun x => decide (key x = k)) = zs.filter fun x => decide (key x = k))
    {x : α} (hx : x ∈ ys) : x ∈ zs := by
  rw [← @mem_filter_key _ _ _ key, h, mem_filter_key] at hx
  exact hx

/-- Two lists in the order of a key, with the same elements of each key in the same order. -/
theorem eq_of_filters {ys zs : List α} (hys : Ordered key ys) (hzs : Ordered key zs)
    (h : ∀ k, ys.filter (fun x => decide (key x = k)) = zs.filter fun x => decide (key x = k)) :
    ys = zs := by
  induction ys generalizing zs with
  | nil =>
      cases zs with
      | nil => rfl
      | cons z zs =>
          exact absurd (mem_of_filters (fun k => (h k).symm) (List.mem_cons_self ..))
            List.not_mem_nil
  | cons y ys ih =>
      cases zs with
      | nil => exact absurd (mem_of_filters h (List.mem_cons_self ..)) List.not_mem_nil
      | cons z zs =>
          obtain ⟨hy, hys⟩ := List.pairwise_cons.mp hys
          obtain ⟨hz, hzs⟩ := List.pairwise_cons.mp hzs
          -- the heads have the least key of both lists
          have hzy : key z ≤ key y := by
            rcases List.mem_cons.mp (mem_of_filters h (List.mem_cons_self ..)) with e | hmem
            · exact le_of_eq (congrArg key e.symm)
            · exact hz y hmem
          have hyz : key y ≤ key z := by
            rcases List.mem_cons.mp (mem_of_filters (fun k => (h k).symm)
              (List.mem_cons_self ..)) with e | hmem
            · exact le_of_eq (congrArg key e.symm)
            · exact hy z hmem
          have hkey : key z = key y := le_antisymm hzy hyz
          have hheads := h (key y)
          rw [List.filter_cons_of_pos (by simp), List.filter_cons_of_pos (by simpa using hkey)]
            at hheads
          obtain ⟨hhead, htail⟩ := List.cons_eq_cons.mp hheads
          refine List.cons_eq_cons.mpr ⟨hhead, ih hys hzs fun k => ?_⟩
          have hk := h k
          by_cases he : key y = k
          · rw [← he]
            exact htail
          · rwa [List.filter_cons_of_neg (by simpa using he),
              List.filter_cons_of_neg (by simpa [hkey] using he)] at hk

/-- There is one stable sort. -/
theorem unique {ys' : List α} (h : StableSortOf key xs ys) (h' : StableSortOf key xs ys') :
    ys = ys' :=
  eq_of_filters h.ordered h'.ordered fun k => (h.stable k).trans (h'.stable k).symm

/-- Only the keys of the elements matter. -/
theorem congr_key {key' : α → κ} (h : StableSortOf key xs ys) (hkey : ∀ x ∈ xs, key x = key' x) :
    StableSortOf key' xs ys := by
  have hkey' : ∀ y ∈ ys, key y = key' y := fun y hy => hkey y (h.mem_iff.mp hy)
  refine ⟨h.ordered.imp_of_mem fun {x y} hx hy hle => ?_, fun k => ?_⟩
  · rwa [hkey' x hx, hkey' y hy] at hle
  · have hsame : ∀ zs : List α, (∀ z ∈ zs, key z = key' z) →
        zs.filter (fun x => decide (key' x = k)) = zs.filter fun x => decide (key x = k) := by
      intro zs hzs
      exact List.filter_congr fun z hz => by rw [hzs z hz]
    rw [hsame ys hkey', hsame xs hkey, h.stable]

/-- Sorted pieces one after the other. -/
theorem append {xs' ys' : List α} (h : StableSortOf key xs ys) (h' : StableSortOf key xs' ys')
    (hlt : ∀ x ∈ xs, ∀ x' ∈ xs', key x ≤ key x') : StableSortOf key (xs ++ xs') (ys ++ ys') := by
  refine ⟨List.pairwise_append.mpr ⟨h.ordered, h'.ordered, fun y hy y' hy' => ?_⟩, fun k => ?_⟩
  · exact hlt y (h.mem_iff.mp hy) y' (h'.mem_iff.mp hy')
  · rw [List.filter_append, List.filter_append, h.stable, h'.stable]

/-- By a pair of keys, where the first is the same everywhere. -/
theorem lex {ι : Type} [LinearOrder ι] {first : α → ι} {i : ι}
    (hfirst : ∀ x ∈ xs, first x = i) (h : StableSortOf key xs ys) :
    StableSortOf (fun x => toLex (first x, key x)) xs ys := by
  have hfirst' : ∀ y ∈ ys, first y = i := fun y hy => hfirst y (h.mem_iff.mp hy)
  refine ⟨h.ordered.imp_of_mem fun {x y} hx hy hle => ?_, fun k => ?_⟩
  · refine Prod.Lex.le_iff.mpr (Or.inr ⟨(hfirst' x hx).trans (hfirst' y hy).symm, hle⟩)
  · by_cases hi : i = (ofLex k).1
    · have hsame : ∀ zs : List α, (∀ z ∈ zs, first z = i) →
          zs.filter (fun x => decide (toLex (first x, key x) = k)) =
            zs.filter fun x => decide (key x = (ofLex k).2) := by
        intro zs hzs
        refine List.filter_congr fun z hz => decide_eq_decide.mpr ⟨fun e => ?_, fun e => ?_⟩
        · rw [← e]
          rfl
        · rw [e, hzs z hz, hi]
          rfl
      rw [hsame ys hfirst', hsame xs hfirst, h.stable]
    · have hnone : ∀ zs : List α, (∀ z ∈ zs, first z = i) →
          zs.filter (fun x => decide (toLex (first x, key x) = k)) = [] := by
        intro zs hzs
        refine List.filter_eq_nil_iff.mpr fun z hz e => hi ?_
        rw [← of_decide_eq_true e, ← hzs z hz]
        rfl
      rw [hnone ys hfirst', hnone xs hfirst]

end StableSortOf

/-- An insertion sort is the stable one. -/
theorem stableSortOf_insertionSort {key : α → κ} {r : α → α → Prop} [inst : DecidableRel r]
    {xs : List α} (h : ∀ x y, r x y ↔ key x ≤ key y) :
    StableSortOf key xs (xs.insertionSort r) := by
  obtain rfl : r = fun x y => key x ≤ key y := by
    funext x y
    exact propext (h x y)
  obtain rfl : inst = fun x y => LinearOrder.toDecidableLE (key x) (key y) :=
    Subsingleton.elim _ _
  exact ⟨sorted_insertionSort_key key xs, fun k => filter_key_insertionSort key k xs⟩

end StableSort
