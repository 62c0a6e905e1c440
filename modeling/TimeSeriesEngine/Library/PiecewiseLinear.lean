import Mathlib.Algebra.Order.Ring.Rat
import TimeSeriesEngine.Library.OrderedSeries

/-!
# The line through a series of samples

`linearAt` reads a series of timed values at any time: the sample at that time
if there is one, else the straight line between the two samples around it, else
nothing.  Its domain is `Spans`; inside it only the samples around the time
matter, so any slice of the series that still spans the time gives the same
value (`linearAt_slice`).
-/

namespace PiecewiseLinear

open OrderedSeries

variable {α : Type} (time : α → Int) (value : α → ℚ)

/-- The value at `t` on the line from `left` to `right`. -/
def between (left right : α) (t : Int) : ℚ :=
  value left + (value right - value left) *
    (((t - time left : Int) : ℚ) / ((time right - time left : Int) : ℚ))

/-- The series at time `t`. -/
def linearAt (xs : List α) (t : Int) : Option ℚ :=
  match (atOrAbove time t xs).head? with
  | none => none
  | some right =>
      if time right = t then some (value right)
      else ((below time t xs).getLast?).map fun left => between time value left right t

/-- There is a sample at or in front of `t`, and one at or behind it. -/
def Spans (xs : List α) (t : Int) : Prop :=
  (∃ x ∈ xs, time x ≤ t) ∧ ∃ x ∈ xs, t ≤ time x

theorem Spans.mono {xs ys : List α} {t : Int} (h : Spans time ys t) (hsub : ∀ y ∈ ys, y ∈ xs) :
    Spans time xs t := by
  obtain ⟨⟨x, hx, hle⟩, ⟨y, hy, hge⟩⟩ := h
  exact ⟨⟨x, hsub x hx, hle⟩, ⟨y, hsub y hy, hge⟩⟩

variable {time} {xs ys : List α} {t : Int}

theorem head_atOrAbove (h : Ascending time xs) {right : α}
    (hhead : (atOrAbove time t xs).head? = some right) : right ∈ xs ∧ t ≤ time right :=
  (h.mem_atOrAbove time).mp (List.mem_of_head? hhead)

/-- The first sample that is not in front of `t` is the earliest of them. -/
theorem head_atOrAbove_least (h : Ascending time xs) {right : α}
    (hhead : (atOrAbove time t xs).head? = some right) {x : α} (hx : x ∈ xs) (hge : t ≤ time x) :
    time right ≤ time x := by
  have hmem : x ∈ atOrAbove time t xs := (h.mem_atOrAbove time).mpr ⟨hx, hge⟩
  obtain ⟨rest, hrest⟩ := List.head?_eq_some_iff.mp hhead
  have hasc := h.atOrAbove time t
  rw [hrest] at hmem hasc
  rcases List.mem_cons.mp hmem with rfl | hin
  · exact le_refl _
  · exact le_of_lt (((ascending_cons time).mp hasc).1 x hin)

/-- The last sample in front of `t` is the latest of them. -/
theorem last_below_greatest (h : Ascending time xs) {left : α}
    (hlast : (below time t xs).getLast? = some left) {x : α} (hx : x ∈ xs) (hlt : time x < t) :
    time x ≤ time left := by
  have hmem : x ∈ below time t xs := (h.mem_below time).mpr ⟨hx, hlt⟩
  obtain ⟨front, hfront⟩ := List.getLast?_eq_some_iff.mp hlast
  have hasc := h.below time t
  rw [hfront] at hmem hasc
  rcases List.mem_append.mp hmem with hin | hin
  · exact le_of_lt (((ascending_append time).mp hasc).2.2 x hin left (List.mem_singleton_self left))
  · rw [List.mem_singleton.mp hin]

/-- A sample at `t` is the first one that is not in front of `t`. -/
theorem lt_of_head (h : Ascending time xs) {right : α}
    (hhead : (atOrAbove time t xs).head? = some right) (hne : time right ≠ t) {x : α}
    (hx : x ∈ xs) (hle : time x ≤ t) : time x < t := by
  refine lt_of_le_of_ne hle fun he => hne ?_
  have hfirst := head_atOrAbove_least h hhead hx (le_of_eq he.symm)
  exact le_antisymm (he ▸ hfirst) (head_atOrAbove h hhead).2

/-- **The domain of the line.** -/
theorem linearAt_isSome (h : Ascending time xs) :
    (linearAt time value xs t).isSome = true ↔ Spans time xs t := by
  unfold linearAt
  cases hhead : (atOrAbove time t xs).head? with
  | none =>
      have hnil := List.head?_eq_none_iff.mp hhead
      refine ⟨fun hsome => absurd hsome Bool.false_ne_true, ?_⟩
      rintro ⟨-, x, hx, hge⟩
      have hmem := (h.mem_atOrAbove time).mpr ⟨hx, hge⟩
      rw [hnil] at hmem
      cases hmem
  | some right =>
      obtain ⟨hright, hge⟩ := head_atOrAbove h hhead
      simp only
      by_cases heq : time right = t
      · rw [if_pos heq]
        exact ⟨fun _ => ⟨⟨right, hright, le_of_eq heq⟩, ⟨right, hright, hge⟩⟩, fun _ => rfl⟩
      · rw [if_neg heq, Option.isSome_map]
        constructor
        · intro hsome
          obtain ⟨left, hleft⟩ := Option.isSome_iff_exists.mp hsome
          have hmem := (h.mem_below time).mp (List.mem_of_getLast? hleft)
          exact ⟨⟨left, hmem.1, le_of_lt hmem.2⟩, ⟨right, hright, hge⟩⟩
        · rintro ⟨⟨x, hx, hle⟩, -⟩
          have hmem : x ∈ below time t xs :=
            (h.mem_below time).mpr ⟨hx, lt_of_head h hhead heq hx hle⟩
          rw [Option.isSome_iff_ne_none, Ne, List.getLast?_eq_none_iff]
          exact List.ne_nil_of_mem hmem

/-- Two samples with nothing between them, on both sides of `t`. -/
structure Neighbours (time : α → Int) (xs : List α) (t : Int) (left right : α) : Prop where
  left_mem : left ∈ xs
  right_mem : right ∈ xs
  left_lt : time left < t
  lt_right : t < time right
  next : ∀ x ∈ xs, time x ≤ time left ∨ time right ≤ time x

/-- A sample at `t` is where the search for `t` stops. -/
theorem head_atOrAbove_at (h : Ascending time xs) {x : α} (hxt : time x = t) :
    (atOrAbove time t xs).head? = some x ↔ x ∈ xs := by
  refine ⟨fun hhead => (head_atOrAbove h hhead).1, fun hx => ?_⟩
  have hmem : x ∈ atOrAbove time t xs := (h.mem_atOrAbove time).mpr ⟨hx, le_of_eq hxt.symm⟩
  obtain ⟨first, hfirst⟩ : ∃ first, (atOrAbove time t xs).head? = some first :=
    Option.ne_none_iff_exists'.mp fun hnil =>
      List.ne_nil_of_mem hmem (List.head?_eq_none_iff.mp hnil)
  obtain ⟨hin, hge⟩ := head_atOrAbove h hfirst
  have hle := head_atOrAbove_least h hfirst hx (le_of_eq hxt.symm)
  rw [hfirst, h.eq_of_key time hin hx (le_antisymm hle (by rw [hxt]; exact hge))]

/-- The neighbours are the samples the search for `t` stops between. -/
theorem neighbours_iff (h : Ascending time xs) {left right : α} :
    Neighbours time xs t left right ↔
      (below time t xs).getLast? = some left ∧
        (atOrAbove time t xs).head? = some right ∧ time right ≠ t := by
  constructor
  · intro hnb
    obtain ⟨first, hfirst⟩ : ∃ first, (atOrAbove time t xs).head? = some first := by
      refine Option.ne_none_iff_exists'.mp fun hnil => ?_
      exact List.ne_nil_of_mem ((h.mem_atOrAbove time).mpr ⟨hnb.right_mem, hnb.lt_right.le⟩)
        (List.head?_eq_none_iff.mp hnil)
    obtain ⟨last, hlast⟩ : ∃ last, (below time t xs).getLast? = some last := by
      refine Option.ne_none_iff_exists'.mp fun hnil => ?_
      exact List.ne_nil_of_mem ((h.mem_below time).mpr ⟨hnb.left_mem, hnb.left_lt⟩)
        (List.getLast?_eq_none_iff.mp hnil)
    obtain ⟨hfirstmem, hge⟩ := head_atOrAbove h hfirst
    obtain ⟨hlastmem, hlt⟩ := (h.mem_below time).mp (List.mem_of_getLast? hlast)
    -- nothing lies between the neighbours, so the search stops at them
    have hright : time right ≤ time first := (hnb.next first hfirstmem).resolve_left fun hback =>
      absurd (le_trans hge hback) (not_le.mpr hnb.left_lt)
    have hleft : time last ≤ time left := (hnb.next last hlastmem).resolve_right fun hgt =>
      absurd (le_trans hnb.lt_right.le hgt) (not_le.mpr hlt)
    refine ⟨?_, ?_, ne_of_gt hnb.lt_right⟩
    · rw [hlast, h.eq_of_key time hlastmem hnb.left_mem
        (le_antisymm hleft (last_below_greatest h hlast hnb.left_mem hnb.left_lt))]
    · rw [hfirst, h.eq_of_key time hfirstmem hnb.right_mem
        (le_antisymm (head_atOrAbove_least h hfirst hnb.right_mem hnb.lt_right.le) hright)]
  · rintro ⟨hlast, hhead, hne⟩
    obtain ⟨hright, hge⟩ := head_atOrAbove h hhead
    obtain ⟨hleft, hlt⟩ := (h.mem_below time).mp (List.mem_of_getLast? hlast)
    refine ⟨hleft, hright, hlt, lt_of_le_of_ne hge (Ne.symm hne), fun x hx => ?_⟩
    rcases lt_or_ge (time x) t with hxlt | hxge
    · exact Or.inl (last_below_greatest h hlast hx hxlt)
    · exact Or.inr (head_atOrAbove_least h hhead hx hxge)

/-- **The line, read off the samples**: the sample at `t`, or the two around it. -/
theorem linearAt_eq_some (h : Ascending time xs) {v : ℚ} :
    linearAt time value xs t = some v ↔
      (∃ x ∈ xs, time x = t ∧ value x = v) ∨
        ∃ left right, Neighbours time xs t left right ∧ between time value left right t = v := by
  unfold linearAt
  constructor
  · intro hline
    cases hhead : (atOrAbove time t xs).head? with
    | none =>
        rw [hhead] at hline
        cases hline
    | some right =>
        rw [hhead] at hline
        simp only at hline
        by_cases heq : time right = t
        · rw [if_pos heq] at hline
          exact Or.inl ⟨right, (head_atOrAbove h hhead).1, heq, Option.some.inj hline⟩
        · rw [if_neg heq] at hline
          obtain ⟨left, hleft, hv⟩ := Option.map_eq_some_iff.mp hline
          exact Or.inr ⟨left, right, (neighbours_iff h).mpr ⟨hleft, hhead, heq⟩, hv⟩
  · rintro (⟨x, hx, hxt, rfl⟩ | ⟨left, right, hnb, rfl⟩)
    · rw [(head_atOrAbove_at h hxt).mpr hx]
      simp only
      rw [if_pos hxt]
    · obtain ⟨hlast, hhead, hne⟩ := (neighbours_iff h).mp hnb
      rw [hlast, hhead]
      simp only
      rw [if_neg hne]
      rfl

/-- **A slice that spans the time has the value of the series.** -/
theorem linearAt_slice (h : Ascending time xs) (hslice : ys <:+: xs) (hspan : Spans time ys t) :
    linearAt time value ys t = linearAt time value xs t := by
  obtain ⟨front, back, rfl⟩ := hslice
  obtain ⟨⟨x, hx, hle⟩, ⟨y, hy, hge⟩⟩ := hspan
  obtain ⟨hfy, hback, hlt⟩ := (ascending_append time).mp h
  obtain ⟨hfront, hys, hlt'⟩ := (ascending_append time).mp hfy
  -- everything in front of the slice is below, everything behind it is above
  have hfrontlt : ∀ z ∈ front, time z < t := fun z hz => lt_of_lt_of_le (hlt' z hz x hx) hle
  have hbackgt : ∀ z ∈ back, t < time z := fun z hz =>
    lt_of_le_of_lt hge (hlt y (List.mem_append_right _ hy) z hz)
  have hbacknil : back.filter (fun z => decide (time z < t)) = [] :=
    List.filter_eq_nil_iff.mpr fun z hz => by simpa using le_of_lt (hbackgt z hz)
  have hfrontnil : front.filter (fun z => decide (t ≤ time z)) = [] :=
    List.filter_eq_nil_iff.mpr fun z hz => by simpa using hfrontlt z hz
  have hbelow : below time t (front ++ ys ++ back) = front ++ below time t ys := by
    rw [h.below_eq, hys.below_eq, List.filter_append, List.filter_append,
      List.filter_eq_self.mpr fun z hz => decide_eq_true (hfrontlt z hz),
      hbacknil, List.append_nil]
  have habove : atOrAbove time t (front ++ ys ++ back) = atOrAbove time t ys ++ back := by
    rw [h.atOrAbove_eq, hys.atOrAbove_eq, List.filter_append, List.filter_append,
      hfrontnil, List.nil_append,
      List.filter_eq_self.mpr fun z hz => decide_eq_true (le_of_lt (hbackgt z hz))]
  have hne : atOrAbove time t ys ≠ [] :=
    List.ne_nil_of_mem ((hys.mem_atOrAbove time).mpr ⟨hy, hge⟩)
  obtain ⟨right, rest, hrest⟩ := List.exists_cons_of_ne_nil hne
  unfold linearAt
  rw [hbelow, habove, hrest]
  simp only [List.cons_append, List.head?_cons]
  by_cases heq : time right = t
  · rw [if_pos heq, if_pos heq]
  · rw [if_neg heq, if_neg heq]
    have hxlt : time x < t := lt_of_head hys (by rw [hrest]; rfl) heq hx hle
    have hbne : below time t ys ≠ [] :=
      List.ne_nil_of_mem ((hys.mem_below time).mpr ⟨hx, hxlt⟩)
    rw [List.getLast?_append_of_ne_nil _ hbne]

end PiecewiseLinear
