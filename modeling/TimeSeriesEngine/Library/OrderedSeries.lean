import Mathlib.Data.List.Sort
import Mathlib.Order.Basic
import Mathlib.Order.OrderDual

/-!
# Ordered series — finite maps kept as lists with strictly increasing keys

A series is a list whose keys increase strictly.  It is the shape of an ordered
map (`m[k] = v` is `assign`), of a sorted append buffer, and of the result of
merging the two.  Everything about such lists is decided by membership:

* `ascending_ext` — two series with the same elements are the same list;
* `mem_assignAll` — a batch of assignments keeps the last element per key;
* `sortUnique_eq` — a stable sort followed by "keep the last of equal keys" is
  that batch of assignments on the empty series;
* `overlayTake_eq` — the bounded two-pointer merge, in which the second list
  wins on equal keys, is a prefix of it.
-/

namespace OrderedSeries

variable {α κ : Type} [LinearOrder κ] (key : α → κ)

/-- Strictly increasing keys. -/
def Ascending (xs : List α) : Prop := xs.Pairwise (fun x y => key x < key y)

theorem ascending_nil : Ascending key ([] : List α) := List.Pairwise.nil

theorem ascending_cons {x : α} {xs : List α} :
    Ascending key (x :: xs) ↔ (∀ y ∈ xs, key x < key y) ∧ Ascending key xs :=
  List.pairwise_cons

theorem ascending_append {xs ys : List α} :
    Ascending key (xs ++ ys) ↔
      Ascending key xs ∧ Ascending key ys ∧ ∀ x ∈ xs, ∀ y ∈ ys, key x < key y :=
  List.pairwise_append

theorem Ascending.sublist {xs ys : List α} (h : Ascending key ys) (hs : xs.Sublist ys) :
    Ascending key xs :=
  List.Pairwise.sublist hs h

theorem Ascending.filter {xs : List α} (h : Ascending key xs) (p : α → Bool) :
    Ascending key (xs.filter p) :=
  h.sublist key List.filter_sublist

/-- A series holds at most one element per key. -/
theorem Ascending.eq_of_key {xs : List α} (h : Ascending key xs) {x y : α}
    (hx : x ∈ xs) (hy : y ∈ xs) (hk : key x = key y) : x = y := by
  induction xs with
  | nil => exact nomatch hx
  | cons z zs ih =>
      obtain ⟨hz, hzs⟩ := (ascending_cons key).mp h
      rcases List.mem_cons.mp hx with rfl | hx' <;> rcases List.mem_cons.mp hy with rfl | hy'
      · rfl
      · exact absurd (hz y hy') (by rw [hk]; exact lt_irrefl _)
      · exact absurd (hz x hx') (by rw [hk]; exact lt_irrefl _)
      · exact ih hzs hx' hy'

/-- Two series with the same elements are the same list. -/
theorem ascending_ext {xs ys : List α} (hx : Ascending key xs) (hy : Ascending key ys)
    (h : ∀ x, x ∈ xs ↔ x ∈ ys) : xs = ys := by
  induction xs generalizing ys with
  | nil =>
      cases ys with
      | nil => rfl
      | cons y ys => exact absurd ((h y).mpr (by simp)) (by simp)
  | cons x xs ih =>
      cases ys with
      | nil => exact absurd ((h x).mp (by simp)) (by simp)
      | cons y ys =>
          obtain ⟨hx1, hx2⟩ := (ascending_cons key).mp hx
          obtain ⟨hy1, hy2⟩ := (ascending_cons key).mp hy
          have hxy : x = y := by
            rcases List.mem_cons.mp ((h x).mp (by simp)) with he | hin
            · exact he
            · rcases List.mem_cons.mp ((h y).mpr (by simp)) with he' | hin'
              · exact he'.symm
              · exact absurd (lt_trans (hy1 x hin) (hx1 y hin')) (lt_irrefl _)
          subst hxy
          refine congrArg _ (ih hx2 hy2 fun z => ?_)
          constructor
          · intro hz
            rcases List.mem_cons.mp ((h z).mp (List.mem_cons_of_mem _ hz)) with rfl | hz'
            · exact absurd (hx1 z hz) (lt_irrefl _)
            · exact hz'
          · intro hz
            rcases List.mem_cons.mp ((h z).mpr (List.mem_cons_of_mem _ hz)) with rfl | hz'
            · exact absurd (hy1 z hz) (lt_irrefl _)
            · exact hz'

/-! ## Splitting at a key -/

/-- The elements before the first one whose key is not below `t`: the range in
    front of a `lower_bound`. -/
def below (t : κ) (xs : List α) : List α := xs.takeWhile (fun x => decide (key x < t))

/-- The elements from the first one whose key is not below `t`. -/
def atOrAbove (t : κ) (xs : List α) : List α := xs.dropWhile (fun x => decide (key x < t))

theorem below_append_atOrAbove (t : κ) (xs : List α) :
    below key t xs ++ atOrAbove key t xs = xs :=
  List.takeWhile_append_dropWhile

theorem drop_length_below (t : κ) (xs : List α) :
    xs.drop (below key t xs).length = atOrAbove key t xs := by
  have h : (below key t xs ++ atOrAbove key t xs).drop (below key t xs).length =
      atOrAbove key t xs := List.drop_left
  rwa [below_append_atOrAbove] at h

/-- The first element that is not below the key, by its index. -/
theorem getElem?_length_below (t : κ) (xs : List α) :
    xs[(below key t xs).length]? = (atOrAbove key t xs).head? := by
  rw [← drop_length_below, List.head?_drop]

/-- The last element below the key, by its index. -/
theorem getElem?_before_below (t : κ) (xs : List α) :
    (if (below key t xs).length = 0 then none else xs[(below key t xs).length - 1]?) =
      (below key t xs).getLast? := by
  split
  · rename_i hzero
    rw [List.length_eq_zero_iff.mp hzero]
    rfl
  · have hlt : (below key t xs).length - 1 < (below key t xs).length := by omega
    have hget : (below key t xs ++ atOrAbove key t xs)[(below key t xs).length - 1]? = _ :=
      List.getElem?_append_left hlt
    rw [below_append_atOrAbove] at hget
    rw [List.getLast?_eq_getElem?, hget]

/-- Keys that never fall; neighbours may have the same key. -/
def Ordered (xs : List α) : Prop := xs.Pairwise (fun x y => key x ≤ key y)

theorem Ascending.ordered {xs : List α} (h : Ascending key xs) : Ordered key xs :=
  h.imp fun hxy => le_of_lt hxy

/-- In an ordered list, cutting is filtering. -/
theorem Ordered.below_eq {xs : List α} (h : Ordered key xs) (t : κ) :
    below key t xs = xs.filter (fun x => decide (key x < t)) := by
  induction xs with
  | nil => rfl
  | cons x xs ih =>
      obtain ⟨hx, hxs⟩ := List.pairwise_cons.mp h
      by_cases hxt : key x < t
      · rw [below, List.takeWhile_cons_of_pos (by simpa using hxt),
          List.filter_cons_of_pos (by simpa using hxt)]
        exact congrArg _ (ih hxs)
      · rw [below, List.takeWhile_cons_of_neg (by simpa using hxt),
          List.filter_cons_of_neg (by simpa using hxt)]
        refine (List.filter_eq_nil_iff.mpr fun y hy => ?_).symm
        have := hx y hy
        simp only [decide_eq_true_eq, not_lt]
        exact le_trans (not_lt.mp hxt) this

theorem Ordered.atOrAbove_eq {xs : List α} (h : Ordered key xs) (t : κ) :
    atOrAbove key t xs = xs.filter (fun x => decide (t ≤ key x)) := by
  induction xs with
  | nil => rfl
  | cons x xs ih =>
      obtain ⟨hx, hxs⟩ := List.pairwise_cons.mp h
      by_cases hxt : key x < t
      · rw [atOrAbove, List.dropWhile_cons_of_pos (by simpa using hxt),
          List.filter_cons_of_neg (by simpa using hxt)]
        exact ih hxs
      · rw [atOrAbove, List.dropWhile_cons_of_neg (by simpa using hxt)]
        refine (List.filter_eq_self.mpr fun y hy => ?_).symm
        rcases List.mem_cons.mp hy with rfl | hy'
        · simpa using hxt
        · simpa using le_trans (not_lt.mp hxt) (hx y hy')

theorem Ordered.filter {xs : List α} (h : Ordered key xs) (p : α → Bool) :
    Ordered key (xs.filter p) :=
  h.sublist List.filter_sublist

theorem Ascending.below_eq {xs : List α} (h : Ascending key xs) (t : κ) :
    below key t xs = xs.filter (fun x => decide (key x < t)) :=
  (h.ordered key).below_eq key t

theorem Ascending.atOrAbove_eq {xs : List α} (h : Ascending key xs) (t : κ) :
    atOrAbove key t xs = xs.filter (fun x => decide (t ≤ key x)) :=
  (h.ordered key).atOrAbove_eq key t

theorem Ascending.mem_below {xs : List α} (h : Ascending key xs) {t : κ} {x : α} :
    x ∈ below key t xs ↔ x ∈ xs ∧ key x < t := by
  simp [h.below_eq key]

theorem Ascending.mem_atOrAbove {xs : List α} (h : Ascending key xs) {t : κ} {x : α} :
    x ∈ atOrAbove key t xs ↔ x ∈ xs ∧ t ≤ key x := by
  simp [h.atOrAbove_eq key]

theorem Ascending.below {xs : List α} (h : Ascending key xs) (t : κ) :
    Ascending key (below key t xs) :=
  h.sublist key (List.takeWhile_sublist _)

theorem Ascending.atOrAbove {xs : List α} (h : Ascending key xs) (t : κ) :
    Ascending key (atOrAbove key t xs) :=
  h.sublist key (List.dropWhile_sublist _)

/-- Looking on from an element that is still below the key finds the same place. -/
theorem length_below_drop {t : κ} {xs : List α} {i : Nat} (h : i ≤ (below key t xs).length) :
    i + (below key t (xs.drop i)).length = (below key t xs).length := by
  induction xs generalizing i with
  | nil =>
      rw [below, List.takeWhile_nil, List.length_nil] at h
      obtain rfl := Nat.le_zero.mp h
      exact Nat.zero_add _
  | cons x xs ih =>
      cases i with
      | zero => rw [List.drop_zero, Nat.zero_add]
      | succ i =>
          by_cases hx : key x < t
          · have hcons : below key t (x :: xs) = x :: below key t xs :=
              List.takeWhile_cons_of_pos (decide_eq_true hx)
            rw [hcons, List.length_cons] at h ⊢
            have hrest := ih (Nat.le_of_succ_le_succ h)
            show i + 1 + (below key t (xs.drop i)).length = _
            omega
          · have hnil : below key t (x :: xs) = [] :=
              List.takeWhile_cons_of_neg (by simpa using hx)
            rw [hnil] at h
            exact absurd h (Nat.not_succ_le_zero i)

theorem length_below_mono {xs : List α} (h : Ascending key xs) {a b : κ} (hab : a ≤ b) :
    (below key a xs).length ≤ (below key b xs).length := by
  rw [h.below_eq, h.below_eq]
  refine (List.monotone_filter_right xs ?_).length_le
  intro x hx
  exact decide_eq_true (lt_of_lt_of_le (of_decide_eq_true hx) hab)

/-! ## Assignment -/

/-- `m[key x] = x` on an ordered map. -/
def assign (x : α) : List α → List α
  | [] => [x]
  | y :: ys =>
      if key y < key x then y :: assign x ys
      else if key x < key y then x :: y :: ys
      else x :: ys

/-- A batch of assignments, in order. -/
def assignAll (xs base : List α) : List α := xs.foldl (fun acc x => assign key x acc) base

/-- The last element of a batch with key `t`. -/
def lastAt (t : κ) (xs : List α) : Option α := (xs.filter (fun x => decide (key x = t))).getLast?

/-- What a list holds after one element has been assigned. -/
theorem mem_assign {x y : α} {xs : List α} (h : Ascending key xs) :
    y ∈ assign key x xs ↔ y = x ∨ (y ∈ xs ∧ key y ≠ key x) := by
  induction xs with
  | nil => simp [assign]
  | cons z zs ih =>
      obtain ⟨hz, hzs⟩ := (ascending_cons key).mp h
      have habove : ∀ w ∈ zs, key w ≠ key z := fun w hw => ne_of_gt (hz w hw)
      by_cases h1 : key z < key x
      · rw [assign, if_pos h1, List.mem_cons, ih hzs, List.mem_cons]
        constructor
        · rintro (rfl | rfl | ⟨hy, hne⟩)
          · exact Or.inr ⟨Or.inl rfl, ne_of_lt h1⟩
          · exact Or.inl rfl
          · exact Or.inr ⟨Or.inr hy, hne⟩
        · rintro (rfl | ⟨rfl | hy, hne⟩)
          · exact Or.inr (Or.inl rfl)
          · exact Or.inl rfl
          · exact Or.inr (Or.inr ⟨hy, hne⟩)
      · by_cases h2 : key x < key z
        · rw [assign, if_neg h1, if_pos h2, List.mem_cons]
          refine or_congr_right ?_
          constructor
          · intro hy
            refine ⟨hy, ?_⟩
            rcases List.mem_cons.mp hy with rfl | hy'
            · exact ne_of_gt h2
            · exact ne_of_gt (lt_trans h2 (hz y hy'))
          · exact fun hy => hy.1
        · have hxz : key z = key x := le_antisymm (not_lt.mp h2) (not_lt.mp h1)
          rw [assign, if_neg h1, if_neg h2, List.mem_cons, List.mem_cons]
          refine or_congr_right ?_
          constructor
          · intro hy
            exact ⟨Or.inr hy, by rw [← hxz]; exact habove y hy⟩
          · rintro ⟨rfl | hy, hne⟩
            · exact absurd hxz hne
            · exact hy

/-- Assigning an element keeps the order. -/
theorem Ascending.assign {xs : List α} (h : Ascending key xs) (x : α) :
    Ascending key (assign key x xs) := by
  induction xs with
  | nil => simp [OrderedSeries.assign, Ascending]
  | cons z zs ih =>
      obtain ⟨hz, hzs⟩ := (ascending_cons key).mp h
      by_cases h1 : key z < key x
      · rw [OrderedSeries.assign, if_pos h1]
        refine (ascending_cons key).mpr ⟨fun y hy => ?_, ih hzs⟩
        rcases (mem_assign key hzs).mp hy with rfl | ⟨hy', _⟩
        · exact h1
        · exact hz y hy'
      · by_cases h2 : key x < key z
        · rw [OrderedSeries.assign, if_neg h1, if_pos h2]
          refine (ascending_cons key).mpr ⟨fun y hy => ?_, h⟩
          rcases List.mem_cons.mp hy with rfl | hy'
          · exact h2
          · exact lt_trans h2 (hz y hy')
        · have hxz : key z = key x := le_antisymm (not_lt.mp h2) (not_lt.mp h1)
          rw [OrderedSeries.assign, if_neg h1, if_neg h2]
          exact (ascending_cons key).mpr ⟨fun y hy => hxz ▸ hz y hy, hzs⟩

theorem Ascending.assignAll {base : List α} (h : Ascending key base) (xs : List α) :
    Ascending key (assignAll key xs base) := by
  induction xs generalizing base with
  | nil => exact h
  | cons x xs ih => exact ih (h.assign key x)

/-- A projection that keeps the keys commutes with assignments. -/
theorem map_assignAll {β : Type} {key : α → κ} {key' : β → κ} {f : α → β}
    (hkey : ∀ x, key' (f x) = key x) (xs base : List α) :
    (assignAll key xs base).map f = assignAll key' (xs.map f) (base.map f) := by
  have hone : ∀ (x : α) (base : List α),
      (assign key x base).map f = assign key' (f x) (base.map f) := by
    intro x base
    induction base with
    | nil => rfl
    | cons y ys ih =>
        rw [assign, List.map_cons, assign, hkey, hkey]
        split
        · rw [List.map_cons, ih]
        split
        · rfl
        · rfl
  induction xs generalizing base with
  | nil => rfl
  | cons x xs ih =>
      show (assignAll key xs (assign key x base)).map f = _
      rw [ih, hone]
      rfl

/-- An assignment brings in nothing but its own elements. -/
theorem mem_of_mem_assign {x y : α} {xs : List α} (h : y ∈ assign key x xs) : y = x ∨ y ∈ xs := by
  induction xs with
  | nil => exact Or.inl (List.mem_singleton.mp h)
  | cons z zs ih =>
      rw [assign] at h
      split at h
      · rcases List.mem_cons.mp h with rfl | hrest
        · exact Or.inr (List.mem_cons_self ..)
        · exact (ih hrest).imp_right (List.mem_cons_of_mem _)
      split at h
      · exact List.mem_cons.mp h
      · exact (List.mem_cons.mp h).imp_right (List.mem_cons_of_mem _)

/-- An element afterwards was in one of the two lists. -/
theorem mem_of_mem_assignAll {y : α} {xs base : List α} (h : y ∈ assignAll key xs base) :
    y ∈ xs ∨ y ∈ base := by
  induction xs generalizing base with
  | nil => exact Or.inr h
  | cons x xs ih =>
      rcases ih h with hx | hbase
      · exact Or.inl (List.mem_cons_of_mem _ hx)
      · rcases mem_of_mem_assign key hbase with rfl | hold
        · exact Or.inl (List.mem_cons_self ..)
        · exact Or.inr hold

@[simp] theorem assignAll_nil (base : List α) : assignAll key [] base = base := rfl

theorem assignAll_cons (x : α) (xs base : List α) :
    assignAll key (x :: xs) base = assignAll key xs (assign key x base) := rfl

@[simp] theorem lastAt_nil (t : κ) : lastAt key t ([] : List α) = none := rfl

/-- The last element at a key, one element earlier. -/
theorem lastAt_cons (t : κ) (x : α) (xs : List α) :
    lastAt key t (x :: xs) =
      (lastAt key t xs).or (if key x = t then some x else none) := by
  by_cases h : key x = t
  · rw [lastAt, List.filter_cons_of_pos (by simpa using h), if_pos h, List.getLast?_cons]
    cases hl : lastAt key t xs with
    | none =>
        rw [lastAt] at hl
        simp [hl]
    | some y =>
        rw [lastAt] at hl
        simp [hl]
  · rw [lastAt, List.filter_cons_of_neg (by simpa using h), if_neg h, Option.or_none]
    rfl

theorem lastAt_some {t : κ} {x : α} {xs : List α} (h : lastAt key t xs = some x) :
    x ∈ xs ∧ key x = t := by
  have := List.mem_of_getLast? h
  simpa using this

theorem lastAt_eq_none {t : κ} {xs : List α} :
    lastAt key t xs = none ↔ ∀ x ∈ xs, key x ≠ t := by
  simp [lastAt]

/-- On a series, the last element with a key is the element with that key. -/
theorem Ascending.lastAt_iff {xs : List α} (h : Ascending key xs) {t : κ} {x : α} :
    lastAt key t xs = some x ↔ x ∈ xs ∧ key x = t := by
  refine ⟨lastAt_some key, fun ⟨hx, hk⟩ => ?_⟩
  cases hl : lastAt key t xs with
  | none => exact absurd hk ((lastAt_eq_none key).mp hl x hx)
  | some y =>
      obtain ⟨hy, hky⟩ := lastAt_some key hl
      exact congrArg some (h.eq_of_key key hy hx (hky.trans hk.symm))

/-- A batch of assignments keeps the last element per key; keys the batch does
    not mention keep what they had. -/
theorem mem_assignAll {base : List α} (h : Ascending key base) (xs : List α) (y : α) :
    y ∈ assignAll key xs base ↔
      lastAt key (key y) xs = some y ∨ (lastAt key (key y) xs = none ∧ y ∈ base) := by
  induction xs generalizing base with
  | nil => simp
  | cons x xs ih =>
      rw [assignAll_cons, ih (h.assign key x), lastAt_cons, mem_assign key h]
      cases hl : lastAt key (key y) xs with
      | some z => simp
      | none =>
          by_cases hk : key x = key y
          · simp only [hk, if_true, Option.none_or, reduceCtorEq, false_or, true_and,
              Option.some.injEq, false_and, or_false]
            constructor
            · rintro (rfl | ⟨_, hne⟩)
              · rfl
              · exact absurd rfl hne
            · intro he
              exact Or.inl he.symm
          · have hne : key y ≠ key x := fun e => hk e.symm
            have hyx : y ≠ x := fun e => hne (congrArg key e)
            simp [hk, hne, hyx]

/-- Assigning a series onto a series. -/
theorem mem_assignAll_ascending {base xs : List α} (h : Ascending key base)
    (hx : Ascending key xs) (y : α) :
    y ∈ assignAll key xs base ↔ y ∈ xs ∨ (y ∈ base ∧ ∀ x ∈ xs, key x ≠ key y) := by
  rw [mem_assignAll key h, hx.lastAt_iff key, lastAt_eq_none]
  constructor
  · rintro (⟨hy, _⟩ | ⟨hn, hy⟩)
    · exact Or.inl hy
    · exact Or.inr ⟨hy, hn⟩
  · rintro (hy | ⟨hy, hn⟩)
    · exact Or.inl ⟨hy, rfl⟩
    · exact Or.inr ⟨hn, hy⟩

/-- A series assigned onto the empty series is itself. -/
theorem Ascending.assignAll_empty {xs : List α} (hx : Ascending key xs) :
    OrderedSeries.assignAll key xs [] = xs :=
  ascending_ext key ((ascending_nil key).assignAll key xs) hx fun y => by
    rw [mem_assignAll_ascending key (ascending_nil key) hx]
    simp

/-- Assigning a later series onto an earlier one appends it. -/
theorem assignAll_of_lt {base xs : List α} (h : Ascending key (base ++ xs)) :
    assignAll key xs base = base ++ xs := by
  obtain ⟨hb, hx, hlt⟩ := (ascending_append key).mp h
  refine ascending_ext key (hb.assignAll key xs) h fun y => ?_
  rw [mem_assignAll_ascending key hb hx, List.mem_append]
  constructor
  · rintro (hy | ⟨hy, _⟩)
    · exact Or.inr hy
    · exact Or.inl hy
  · rintro (hy | hy)
    · exact Or.inr ⟨hy, fun x hxm => ne_of_gt (hlt y hy x hxm)⟩
    · exact Or.inl hy

/-- Assigning a series that was itself overlaid, or one layer after the other. -/
theorem assignAll_assoc {base mid top : List α} (hb : Ascending key base)
    (hm : Ascending key mid) (ht : Ascending key top) :
    assignAll key (assignAll key top mid) base = assignAll key top (assignAll key mid base) := by
  refine ascending_ext key (hb.assignAll key _) ((hb.assignAll key _).assignAll key _) fun y => ?_
  rw [mem_assignAll_ascending key hb (hm.assignAll key top), mem_assignAll_ascending key hm ht,
    mem_assignAll_ascending key (hb.assignAll key mid) ht, mem_assignAll_ascending key hb hm]
  constructor
  · rintro ((hy | ⟨hy, hn⟩) | ⟨hy, hn⟩)
    · exact Or.inl hy
    · exact Or.inr ⟨Or.inl hy, hn⟩
    · have hnt : ∀ x ∈ top, key x ≠ key y := fun x hx =>
        hn x ((mem_assignAll_ascending key hm ht x).mpr (Or.inl hx))
      refine Or.inr ⟨Or.inr ⟨hy, fun x hx hk => ?_⟩, hnt⟩
      refine hn x ((mem_assignAll_ascending key hm ht x).mpr (Or.inr ⟨hx, fun z hz => ?_⟩)) hk
      rw [hk]
      exact hnt z hz
  · rintro (hy | ⟨hy | ⟨hy, hnm⟩, hnt⟩)
    · exact Or.inl (Or.inl hy)
    · exact Or.inl (Or.inr ⟨hy, hnt⟩)
    · refine Or.inr ⟨hy, fun x hx => ?_⟩
      rcases (mem_assignAll_ascending key hm ht x).mp hx with hx' | ⟨hx', _⟩
      · exact hnt x hx'
      · exact hnm x hx'

/-- The smallest assigned element splits the base series. -/
theorem assignAll_cons_split {p : α} {ps base : List α} (hb : Ascending key base)
    (hp : Ascending key (p :: ps)) :
    assignAll key (p :: ps) base =
      base.filter (fun x => decide (key x < key p)) ++
        p :: assignAll key ps (base.filter (fun x => decide (key p < key x))) := by
  obtain ⟨hp1, hp2⟩ := (ascending_cons key).mp hp
  have hmem := fun y => mem_assignAll_ascending key
    (hb.filter key (fun x => decide (key p < key x))) hp2 y
  have habove : ∀ y ∈ assignAll key ps (base.filter (fun x => decide (key p < key x))),
      key p < key y := by
    intro y hy
    rcases (hmem y).mp hy with h | ⟨h, _⟩
    · exact hp1 y h
    · simpa using (List.mem_filter.mp h).2
  refine ascending_ext key (hb.assignAll key _) ?_ fun y => ?_
  · refine (ascending_append key).mpr ⟨hb.filter key _,
      (ascending_cons key).mpr ⟨habove, (hb.filter key _).assignAll key _⟩, fun x hx y hy => ?_⟩
    have hxp : key x < key p := by simpa using (List.mem_filter.mp hx).2
    rcases List.mem_cons.mp hy with rfl | hy'
    · exact hxp
    · exact lt_trans hxp (habove y hy')
  · have hcons : y ∈ p :: assignAll key ps (base.filter (fun x => decide (key p < key x))) ↔
        y = p ∨ y ∈ assignAll key ps (base.filter (fun x => decide (key p < key x))) :=
      List.mem_cons
    rw [mem_assignAll_ascending key hb hp, List.mem_append, hcons, hmem,
      (List.mem_cons : y ∈ p :: ps ↔ _)]
    simp only [List.mem_filter, decide_eq_true_eq]
    constructor
    · rintro ((rfl | hy) | ⟨hy, hn⟩)
      · exact Or.inr (Or.inl rfl)
      · exact Or.inr (Or.inr (Or.inl hy))
      · rcases lt_trichotomy (key y) (key p) with h | h | h
        · exact Or.inl ⟨hy, h⟩
        · exact absurd h.symm (hn p (by simp))
        · exact Or.inr (Or.inr (Or.inr ⟨⟨hy, h⟩, fun x hx => hn x (List.mem_cons_of_mem _ hx)⟩))
    · rintro (⟨hy, hlt⟩ | rfl | hy | ⟨⟨hy, hlt⟩, hn⟩)
      · refine Or.inr ⟨hy, fun x hx => ?_⟩
        rcases List.mem_cons.mp hx with rfl | hx'
        · exact ne_of_gt hlt
        · exact ne_of_gt (lt_trans hlt (hp1 x hx'))
      · exact Or.inl (Or.inl rfl)
      · exact Or.inl (Or.inr hy)
      · refine Or.inr ⟨hy, fun x hx => ?_⟩
        rcases List.mem_cons.mp hx with rfl | hx'
        · exact ne_of_lt hlt
        · exact hn x hx'

/-- Keeping the keys that satisfy `p` commutes with assignment. -/
theorem filter_assignAll {base xs : List α} (hb : Ascending key base)
    (p : κ → Bool) :
    (assignAll key xs base).filter (fun x => p (key x)) =
      assignAll key (xs.filter (fun x => p (key x))) (base.filter (fun x => p (key x))) := by
  refine ascending_ext key ((hb.assignAll key xs).filter key _)
    ((hb.filter key _).assignAll key _) fun y => ?_
  rw [List.mem_filter, mem_assignAll key hb, mem_assignAll key (hb.filter key _), List.mem_filter]
  by_cases hp : p (key y) = true
  · have hl : lastAt key (key y) (xs.filter (fun x => p (key x))) = lastAt key (key y) xs := by
      unfold lastAt
      rw [List.filter_filter]
      refine congrArg _ (List.filter_congr fun x _ => ?_)
      by_cases hk : key x = key y <;> simp [hk, hp]
    rw [hl]
    simp [hp]
  · have hl : lastAt key (key y) (xs.filter (fun x => p (key x))) = none := by
      rw [lastAt_eq_none]
      intro x hx hk
      rw [List.mem_filter, hk] at hx
      exact hp hx.2
    rw [hl]
    simp [hp]

theorem below_assignAll {base top : List α} (hb : Ascending key base) (ht : Ascending key top)
    (t : κ) :
    below key t (assignAll key top base) = assignAll key (below key t top) (below key t base) := by
  rw [(hb.assignAll key top).below_eq, ht.below_eq, hb.below_eq]
  exact filter_assignAll key hb (fun k => decide (k < t))

theorem atOrAbove_assignAll {base top : List α} (hb : Ascending key base)
    (ht : Ascending key top) (t : κ) :
    atOrAbove key t (assignAll key top base) =
      assignAll key (atOrAbove key t top) (atOrAbove key t base) := by
  rw [(hb.assignAll key top).atOrAbove_eq, ht.atOrAbove_eq, hb.atOrAbove_eq]
  exact filter_assignAll key hb (fun k => decide (t ≤ k))

/-! ## Normalising a batch: stable sort, then the last of equal keys -/

/-- Drop every element that is followed by one with the same key. -/
def keepLast : List α → List α
  | [] => []
  | x :: xs =>
      match xs with
      | [] => [x]
      | y :: _ => if key x = key y then keepLast xs else x :: keepLast xs

/-- Stable sort by key, then one element per key: the last. -/
def sortUnique (xs : List α) : List α :=
  keepLast key (xs.insertionSort (fun x y => key x ≤ key y))

/-- An insertion puts the new element in front of those with its key. -/
theorem filter_key_orderedInsert (t : κ) (x : α) (xs : List α) :
    (xs.orderedInsert (fun x y => key x ≤ key y) x).filter (fun z => decide (key z = t)) =
      (x :: xs).filter (fun z => decide (key z = t)) := by
  induction xs with
  | nil => rfl
  | cons y ys ih =>
      by_cases hxy : key x ≤ key y
      · rw [List.orderedInsert_cons_of_le (fun x y => key x ≤ key y) _ hxy]
      · rw [List.orderedInsert_of_not_le (fun x y => key x ≤ key y) _ hxy]
        rw [List.filter_cons, ih]
        by_cases hy : key y = t <;> by_cases hx : key x = t
        · exact absurd (le_of_eq (hx.trans hy.symm)) hxy
        · simp [hx, hy]
        · simp [hx, hy]
        · simp [hx, hy]

/-- The stable sort keeps the elements of one key in their order. -/
theorem filter_key_insertionSort (t : κ) (xs : List α) :
    (xs.insertionSort (fun x y => key x ≤ key y)).filter (fun z => decide (key z = t)) =
      xs.filter (fun z => decide (key z = t)) := by
  induction xs with
  | nil => rfl
  | cons x xs ih =>
      rw [List.insertionSort_cons, filter_key_orderedInsert, List.filter_cons, List.filter_cons, ih]

theorem sorted_insertionSort_key (xs : List α) :
    (xs.insertionSort (fun x y => key x ≤ key y)).Pairwise (fun x y => key x ≤ key y) := by
  have : Std.Total (fun x y : α => key x ≤ key y) := ⟨fun x y => le_total (key x) (key y)⟩
  have : IsTrans α (fun x y : α => key x ≤ key y) := ⟨fun _ _ _ => le_trans⟩
  exact List.pairwise_insertionSort _ xs

/-- On a list sorted by key, `keepLast` is a series holding the last element of
    every key. -/
theorem keepLast_spec {xs : List α} (h : xs.Pairwise (fun x y => key x ≤ key y)) :
    Ascending key (keepLast key xs) ∧
      ∀ y, y ∈ keepLast key xs ↔ lastAt key (key y) xs = some y := by
  induction xs with
  | nil => exact ⟨ascending_nil key, fun y => by simp [keepLast]⟩
  | cons x xs ih =>
      obtain ⟨hx, hxs⟩ := List.pairwise_cons.mp h
      obtain ⟨ihA, ihM⟩ := ih hxs
      cases xs with
      | nil =>
          refine ⟨by simp [keepLast, Ascending], fun y => ?_⟩
          rw [lastAt_cons, lastAt_nil, Option.none_or]
          by_cases hk : key x = key y
          · simp [keepLast, hk, eq_comm]
          · have : y ≠ x := fun e => hk (congrArg key e).symm
            simp [keepLast, hk, this]
      | cons z zs =>
          have hxz := hx z (by simp)
          by_cases hk : key x = key z
          · -- an equal key follows, so `x` is not the last of its key
            rw [keepLast, if_pos hk]
            refine ⟨ihA, fun y => ?_⟩
            rw [ihM, lastAt_cons key _ x]
            by_cases hy : key x = key y
            · cases hl : lastAt key (key y) (z :: zs) with
              | none =>
                  exact absurd (hk.symm.trans hy) ((lastAt_eq_none key).mp hl z (by simp))
              | some w => simp
            · simp [hy]
          · -- `x` is strictly below everything that follows
            have hlt : ∀ w ∈ z :: zs, key x < key w := by
              intro w hw
              have hzw : key z ≤ key w := by
                rcases List.mem_cons.mp hw with rfl | hw'
                · exact le_refl _
                · exact (List.pairwise_cons.mp hxs).1 w hw'
              exact lt_of_lt_of_le (lt_of_le_of_ne hxz hk) hzw
            have hnone : lastAt key (key x) (z :: zs) = none :=
              (lastAt_eq_none key).mpr fun w hw => ne_of_gt (hlt w hw)
            rw [keepLast, if_neg hk]
            refine ⟨(ascending_cons key).mpr ⟨fun w hw => ?_, ihA⟩, fun y => ?_⟩
            · exact hlt w (lastAt_some key ((ihM w).mp hw)).1
            · rw [List.mem_cons, ihM, lastAt_cons key _ x]
              by_cases hy : key x = key y
              · rw [← hy, hnone]
                simp [eq_comm]
              · have : y ≠ x := fun e => hy (congrArg key e).symm
                simp [hy, this]

theorem lastAt_insertionSort (t : κ) (xs : List α) :
    lastAt key t (xs.insertionSort (fun x y => key x ≤ key y)) = lastAt key t xs := by
  rw [lastAt, filter_key_insertionSort, lastAt]

theorem ascending_sortUnique (xs : List α) : Ascending key (sortUnique key xs) :=
  (keepLast_spec key (sorted_insertionSort_key key xs)).1

theorem mem_sortUnique (xs : List α) (y : α) :
    y ∈ sortUnique key xs ↔ lastAt key (key y) xs = some y := by
  rw [sortUnique, (keepLast_spec key (sorted_insertionSort_key key xs)).2, lastAt_insertionSort]

theorem mem_of_mem_sortUnique {xs : List α} {y : α} (h : y ∈ sortUnique key xs) : y ∈ xs :=
  (lastAt_some key ((mem_sortUnique key xs y).mp h)).1

/-- Keys sorted by themselves: only repetitions go. -/
theorem mem_sortUnique_self {keys : List κ} {t : κ} :
    t ∈ sortUnique (fun k => k) keys ↔ t ∈ keys := by
  refine ⟨mem_of_mem_sortUnique _, fun h => (mem_sortUnique _ _ _).mpr ?_⟩
  cases hlast : lastAt (fun k => k) t keys with
  | none => exact absurd rfl ((lastAt_eq_none _).mp hlast t h)
  | some u => rw [(lastAt_some _ hlast).2]

/-- Normalising a batch does not change what assigning it does. -/
theorem assignAll_sortUnique {base : List α} (h : Ascending key base) (xs : List α) :
    assignAll key (sortUnique key xs) base = assignAll key xs base := by
  have hs := ascending_sortUnique key xs
  refine ascending_ext key (h.assignAll key _) (h.assignAll key _) fun y => ?_
  rw [mem_assignAll_ascending key h hs, mem_assignAll key h, mem_sortUnique]
  refine or_congr_right ?_
  constructor
  · rintro ⟨hy, hn⟩
    refine ⟨?_, hy⟩
    cases hl : lastAt key (key y) xs with
    | none => rfl
    | some z =>
        have hz := (lastAt_some key hl).2
        exact absurd hz (hn z ((mem_sortUnique key xs z).mpr (by rw [hz]; exact hl)))
  · rintro ⟨hn, hy⟩
    refine ⟨hy, fun x hx hk => ?_⟩
    have := (mem_sortUnique key xs x).mp hx
    rw [hk, hn] at this
    exact nomatch this

/-- Stable sort and unique is assignment onto the empty series. -/
theorem sortUnique_eq (xs : List α) : sortUnique key xs = assignAll key xs [] := by
  rw [← assignAll_sortUnique key (ascending_nil key) xs]
  exact ((ascending_sortUnique key xs).assignAll_empty key).symm

/-! ## The bounded merge of two series -/

/-- The first `n` elements of the merge of two series; on equal keys the element
    of `top` replaces the one of `base`. -/
def overlayTake : Nat → List α → List α → List α
  | 0, _, _ => []
  | _ + 1, [], [] => []
  | n + 1, [], l :: ls => l :: overlayTake n [] ls
  | n + 1, v :: vs, [] => v :: overlayTake n vs []
  | n + 1, v :: vs, l :: ls =>
      if key v < key l then v :: overlayTake n vs (l :: ls)
      else if key l < key v then l :: overlayTake n (v :: vs) ls
      else l :: overlayTake n vs ls

/-- Merging, the old head first. -/
theorem assignAll_head_base {v l : α} {vs ls : List α} (hv : Ascending key (v :: vs))
    (hl : Ascending key (l :: ls)) (hlt : key v < key l) :
    assignAll key (l :: ls) (v :: vs) = v :: assignAll key (l :: ls) vs := by
  obtain ⟨hv1, hv2⟩ := (ascending_cons key).mp hv
  obtain ⟨hl1, _⟩ := (ascending_cons key).mp hl
  have habove : ∀ w ∈ l :: ls, key v < key w := by
    intro w hw
    rcases List.mem_cons.mp hw with rfl | hw'
    · exact hlt
    · exact lt_trans hlt (hl1 w hw')
  have hmem : ∀ w, w ∈ assignAll key (l :: ls) vs → key v < key w := by
    intro w hw
    rcases (mem_assignAll_ascending key hv2 hl w).mp hw with h | ⟨h, _⟩
    · exact habove w h
    · exact hv1 w h
  refine ascending_ext key (hv.assignAll key _)
    ((ascending_cons key).mpr ⟨hmem, hv2.assignAll key _⟩) fun y => ?_
  have hcons : y ∈ v :: assignAll key (l :: ls) vs ↔ y = v ∨ y ∈ assignAll key (l :: ls) vs :=
    List.mem_cons
  rw [mem_assignAll_ascending key hv hl, hcons, mem_assignAll_ascending key hv2 hl,
    (List.mem_cons : y ∈ v :: vs ↔ _)]
  constructor
  · rintro (h | ⟨rfl | h, hn⟩)
    · exact Or.inr (Or.inl h)
    · exact Or.inl rfl
    · exact Or.inr (Or.inr ⟨h, hn⟩)
  · rintro (rfl | h | ⟨h, hn⟩)
    · exact Or.inr ⟨Or.inl rfl, fun x hx => ne_of_gt (habove x hx)⟩
    · exact Or.inl h
    · exact Or.inr ⟨Or.inr h, hn⟩

/-- Merging, the new head first. -/
theorem assignAll_head_top {l : α} {vs ls : List α} (hv : Ascending key vs)
    (hl : Ascending key (l :: ls)) (hlt : ∀ v ∈ vs, key l < key v) :
    assignAll key (l :: ls) vs = l :: assignAll key ls vs := by
  obtain ⟨hl1, hl2⟩ := (ascending_cons key).mp hl
  have hmem : ∀ w, w ∈ assignAll key ls vs → key l < key w := by
    intro w hw
    rcases (mem_assignAll_ascending key hv hl2 w).mp hw with h | ⟨h, _⟩
    · exact hl1 w h
    · exact hlt w h
  refine ascending_ext key (hv.assignAll key _)
    ((ascending_cons key).mpr ⟨hmem, hv.assignAll key _⟩) fun y => ?_
  have hcons : y ∈ l :: assignAll key ls vs ↔ y = l ∨ y ∈ assignAll key ls vs :=
    List.mem_cons
  rw [mem_assignAll_ascending key hv hl, hcons, mem_assignAll_ascending key hv hl2,
    (List.mem_cons : y ∈ l :: ls ↔ _)]
  constructor
  · rintro ((rfl | h) | ⟨h, hn⟩)
    · exact Or.inl rfl
    · exact Or.inr (Or.inl h)
    · exact Or.inr (Or.inr ⟨h, fun x hx => hn x (List.mem_cons_of_mem _ hx)⟩)
  · rintro (rfl | h | ⟨h, hn⟩)
    · exact Or.inl (Or.inl rfl)
    · exact Or.inl (Or.inr h)
    · refine Or.inr ⟨h, fun x hx => ?_⟩
      rcases List.mem_cons.mp hx with rfl | hx'
      · exact ne_of_lt (hlt y h)
      · exact hn x hx'

/-- Merging two heads with one key. -/
theorem assignAll_head_eq {v l : α} {vs ls : List α} (hv : Ascending key (v :: vs))
    (hl : Ascending key (l :: ls)) (heq : key l = key v) :
    assignAll key (l :: ls) (v :: vs) = l :: assignAll key ls vs := by
  obtain ⟨hv1, hv2⟩ := (ascending_cons key).mp hv
  rw [← assignAll_head_top key hv2 hl (fun w hw => heq ▸ hv1 w hw)]
  refine ascending_ext key (hv.assignAll key _) (hv2.assignAll key _) fun y => ?_
  rw [mem_assignAll_ascending key hv hl, mem_assignAll_ascending key hv2 hl]
  refine or_congr_right (and_congr_left fun hn => ?_)
  rw [List.mem_cons]
  refine or_iff_right fun hy => ?_
  exact hn l (by simp) (by rw [hy]; exact heq)

/-- The bounded merge is a prefix of the overlaid series. -/
theorem overlayTake_eq (n : Nat) {base top : List α} (hb : Ascending key base)
    (ht : Ascending key top) :
    overlayTake key n base top = (assignAll key top base).take n := by
  induction n generalizing base top with
  | zero => simp [overlayTake]
  | succ n ih =>
      cases base with
      | nil =>
          cases top with
          | nil => rfl
          | cons l ls =>
              obtain ⟨_, hl2⟩ := (ascending_cons key).mp ht
              rw [overlayTake, ih hb hl2, hl2.assignAll_empty key, ht.assignAll_empty key]
              rfl
      | cons v vs =>
          obtain ⟨hv1, hv2⟩ := (ascending_cons key).mp hb
          cases top with
          | nil =>
              rw [overlayTake, ih hv2 ht]
              rfl
          | cons l ls =>
              obtain ⟨_, hl2⟩ := (ascending_cons key).mp ht
              rw [overlayTake]
              by_cases h1 : key v < key l
              · rw [if_pos h1, ih hv2 ht, assignAll_head_base key hb ht h1, List.take_succ_cons]
              · rw [if_neg h1]
                by_cases h2 : key l < key v
                · have habove : ∀ w ∈ v :: vs, key l < key w := by
                    intro w hw
                    rcases List.mem_cons.mp hw with rfl | hw'
                    · exact h2
                    · exact lt_trans h2 (hv1 w hw')
                  rw [if_pos h2, ih hb hl2, assignAll_head_top key hb ht habove,
                    List.take_succ_cons]
                · have heq : key l = key v := le_antisymm (not_lt.mp h1) (not_lt.mp h2)
                  rw [if_neg h2, ih hv2 hl2, assignAll_head_eq key hb ht heq,
                    List.take_succ_cons]

/-- Assigning adds no more than there is to assign. -/
theorem length_assignAll_le (xs base : List α) :
    (assignAll key xs base).length ≤ base.length + xs.length := by
  have hone : ∀ (x : α) (ys : List α), (assign key x ys).length ≤ ys.length + 1 := by
    intro x ys
    induction ys with
    | nil => simp [assign]
    | cons y ys ih =>
        rw [assign]
        split
        · simpa using ih
        · split <;> simp
  induction xs generalizing base with
  | nil => simp
  | cons x xs ih =>
      rw [assignAll_cons]
      have h1 := ih (assign key x base)
      have h2 := hone x base
      simp only [List.length_cons]
      omega

/-- With enough budget the merge is the whole overlaid series. -/
theorem overlayTake_full {base top : List α} (hb : Ascending key base)
    (ht : Ascending key top) :
    overlayTake key (base.length + top.length) base top = assignAll key top base := by
  rw [overlayTake_eq key _ hb ht]
  exact List.take_of_length_le (length_assignAll_le key top base)

/-! ## The same series read backwards -/

theorem ascending_reverse_dual {xs : List α} :
    @Ascending α κᵒᵈ _ (fun x => OrderDual.toDual (key x)) xs.reverse ↔ Ascending key xs := by
  rw [Ascending, Ascending, List.pairwise_reverse]
  rfl

/-- Overlaying reversed series in the dual order is the reversed overlay. -/
theorem assignAll_reverse_dual {base top : List α} (hb : Ascending key base)
    (ht : Ascending key top) :
    @assignAll α κᵒᵈ _ (fun x => OrderDual.toDual (key x)) top.reverse base.reverse =
      (assignAll key top base).reverse := by
  have hb' := (ascending_reverse_dual key).mpr hb
  have ht' := (ascending_reverse_dual key).mpr ht
  have ho' := (ascending_reverse_dual key).mpr (hb.assignAll key top)
  refine ascending_ext _ (hb'.assignAll _ _) ho' fun y => ?_
  rw [mem_assignAll_ascending _ hb' ht',
    (List.mem_reverse : y ∈ (assignAll key top base).reverse ↔ _),
    mem_assignAll_ascending key hb ht]
  simp

/-- The last `n` elements. -/
def lastN (n : Nat) (xs : List α) : List α := xs.drop (xs.length - n)

theorem reverse_take_reverse (n : Nat) (xs : List α) :
    (xs.reverse.take n).reverse = lastN n xs := by
  rw [List.take_reverse, List.reverse_reverse]
  rfl

/-- What is not among the last elements is in front of all of them, and they are as many
    as asked for. -/
theorem Ascending.lastN_behind {xs : List α} (h : Ascending key xs) {n : Nat} {x : α}
    (hx : x ∈ xs) (hno : x ∉ lastN n xs) :
    (lastN n xs).length = n ∧ ∀ y ∈ lastN n xs, key x < key y := by
  have hsplit := List.take_append_drop (xs.length - n) xs
  have hfront : x ∈ xs.take (xs.length - n) := by
    rw [← hsplit] at hx
    exact (List.mem_append.mp hx).resolve_right hno
  have hpos : 0 < xs.length - n := by
    by_contra hzero
    rw [Nat.eq_zero_of_not_pos hzero, List.take_zero] at hfront
    cases hfront
  refine ⟨?_, fun y hy => ?_⟩
  · rw [lastN, List.length_drop]
    omega
  · rw [← hsplit] at h
    exact ((ascending_append key).mp h).2.2 x hfront y hy

/-- What is not among the first elements is behind all of them, and they are as many as
    asked for. -/
theorem Ascending.take_before {xs : List α} (h : Ascending key xs) {n : Nat} {x : α}
    (hx : x ∈ xs) (hno : x ∉ xs.take n) :
    (xs.take n).length = n ∧ ∀ y ∈ xs.take n, key y < key x := by
  have hsplit := List.take_append_drop n xs
  have hback : x ∈ xs.drop n := by
    rw [← hsplit] at hx
    exact (List.mem_append.mp hx).resolve_left hno
  have hlong : n < xs.length := by
    by_contra hshort
    rw [List.drop_eq_nil_of_le (not_lt.mp hshort)] at hback
    cases hback
  refine ⟨?_, fun y hy => ?_⟩
  · rw [List.length_take]
    omega
  · rw [← hsplit] at h
    exact ((ascending_append key).mp h).2.2 y hy x hback

end OrderedSeries
