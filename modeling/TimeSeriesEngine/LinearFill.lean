import TimeSeriesEngine.GapFilling

/-!
# The linear fill in place

`fillLinear` overwrites the buckets it scans: both ends take the nearest value, then a
loop walks from the first value to the last and draws a line over every gap it meets.
A gap is met with its left neighbour and all behind it untouched, so the loop leaves
what `linearAt` reads off the original values (`fillLinear_eq`).
-/

namespace LinearFill

open TseTypes SeqAlignment GapFilling

/-- `fillNearAt`. -/
def fillNearAt (source values : BucketValues) (index : Nat) : BucketValues :=
  match nearAt source index with
  | none => values
  | some value => values.set index (some value)

/-- The point of the line at the bucket `current`. -/
def linePoint (leftValue rightValue : ℚ) (left right current : Nat) : TimeseriesValue :=
  .double (.finite (leftValue + (rightValue - leftValue) *
    (((current - left : Nat) : ℚ) / ((right - left : Nat) : ℚ))))

/-- Draw the line over the buckets from `index` up to `right`. -/
def drawLine (leftValue rightValue : ℚ) (left right index : Nat) (values : BucketValues) :
    BucketValues :=
  (List.range' index (right - index)).foldl
    (fun values current => values.set current
      (some (linePoint leftValue rightValue left right current))) values

/-- The loop of `fillLinear`, `fuel` rounds at most. -/
def fillGaps : Nat → Nat → BucketValues → Except String BucketValues
  | 0, _, values => .ok values
  | fuel + 1, index, values =>
      if index < values.length then
        if (valueAt values index).isSome = true then fillGaps fuel (index + 1) values
        else
          let left := index - 1
          match nextIndexFrom values (values.length - index) index with
          | none => .ok values
          | some right =>
              match (valueAt values left).bind numericValue,
                (valueAt values right).bind numericValue with
              | some leftValue, some rightValue =>
                  fillGaps fuel right (drawLine leftValue rightValue left right index values)
              | _, _ => .error "linear fill requires finite numeric sequence values"
      else .ok values

/-- `fillLinear`. -/
def fillLinear (values : BucketValues) : Except String BucketValues :=
  match nextIndexFrom values values.length 0, previousIndex values values.length with
  | some first, some last =>
      let edges := List.range first ++ List.range' (last + 1) (values.length - (last + 1))
      fillGaps (values.length + 1) first (edges.foldl (fillNearAt values) values)
  | _, _ => .ok values

/-! ## What the assignments leave -/

variable {values current : BucketValues} {first last index left right : Nat}

/-- What a column holds after one value has been set. -/
theorem valueAt_set (values : BucketValues) {index : Nat} (h : index < values.length)
    (value : Option TimeseriesValue) (i : Nat) :
    valueAt (values.set index value) i = if i = index then value else valueAt values i := by
  by_cases hi : i = index
  · rw [if_pos hi, hi, valueAt, List.getElem?_set_self h]
    rfl
  · rw [if_neg hi, valueAt, List.getElem?_set_ne (Ne.symm hi)]
    rfl

theorem fillNearAt_length (source values : BucketValues) (index : Nat) :
    (fillNearAt source values index).length = values.length := by
  rw [fillNearAt]
  cases nearAt source index with
  | none => rfl
  | some value => exact List.length_set

/-- What a column holds after one bucket has been filled. -/
theorem valueAt_fillNearAt (source : BucketValues) (h : index < values.length) (i : Nat) :
    valueAt (fillNearAt source values index) i =
      if i = index then (nearAt source i).or (valueAt values i) else valueAt values i := by
  rw [fillNearAt]
  cases hnear : nearAt source index with
  | none =>
      by_cases hi : i = index
      · rw [if_pos hi, hi, hnear, Option.none_or]
      · rw [if_neg hi]
  | some value =>
      show valueAt (values.set index (some value)) i = _
      rw [valueAt_set values h]
      by_cases hi : i = index
      · rw [if_pos hi, if_pos hi, hi, hnear, Option.some_or]
      · rw [if_neg hi, if_neg hi]

/-- The near fill of a list of buckets. -/
theorem valueAt_fillNear (source : BucketValues) {indices : List Nat}
    (h : ∀ index ∈ indices, index < values.length) (i : Nat) :
    (indices.foldl (fillNearAt source) values).length = values.length ∧
      valueAt (indices.foldl (fillNearAt source) values) i =
        if i ∈ indices then (nearAt source i).or (valueAt values i) else valueAt values i := by
  induction indices generalizing values with
  | nil => exact ⟨rfl, (if_neg (List.not_mem_nil)).symm⟩
  | cons index indices ih =>
      have hlength := fillNearAt_length source values index
      have hrest : ∀ j ∈ indices, j < (fillNearAt source values index).length := by
        intro j hj
        rw [hlength]
        exact h j (List.mem_cons_of_mem _ hj)
      obtain ⟨hfinal, hvalue⟩ := ih hrest
      rw [List.foldl_cons]
      refine ⟨hfinal.trans hlength, ?_⟩
      rw [hvalue, valueAt_fillNearAt source (h index List.mem_cons_self)]
      by_cases hhere : i = index
      · rw [if_pos hhere, if_pos (show i ∈ index :: indices from hhere ▸ List.mem_cons_self)]
        -- a bucket written twice is given the same value twice
        by_cases hagain : i ∈ indices
        · rw [if_pos hagain]
          cases nearAt source i with
          | none => rfl
          | some value => rfl
        · rw [if_neg hagain]
      · rw [if_neg hhere]
        by_cases hlater : i ∈ indices
        · rw [if_pos hlater, if_pos (List.mem_cons_of_mem _ hlater)]
        · have hnot : i ∉ index :: indices := by
            intro hmem
            rcases List.mem_cons.mp hmem with h' | h'
            · exact hhere h'
            · exact hlater h'
          rw [if_neg hlater, if_neg hnot]

/-- Assigning one function's values to a list of buckets. -/
theorem valueAt_assign (value : Nat → Option TimeseriesValue) {indices : List Nat}
    (h : ∀ index ∈ indices, index < values.length) (i : Nat) :
    (indices.foldl (fun values index => values.set index (value index)) values).length =
        values.length ∧
      valueAt (indices.foldl (fun values index => values.set index (value index)) values) i =
        if i ∈ indices then value i else valueAt values i := by
  induction indices generalizing values with
  | nil => exact ⟨rfl, (if_neg (List.not_mem_nil)).symm⟩
  | cons index indices ih =>
      have hlength : (values.set index (value index)).length = values.length := List.length_set
      have hrest : ∀ j ∈ indices, j < (values.set index (value index)).length := by
        intro j hj
        rw [hlength]
        exact h j (List.mem_cons_of_mem _ hj)
      obtain ⟨hfinal, hvalue⟩ := ih hrest
      rw [List.foldl_cons]
      refine ⟨hfinal.trans hlength, ?_⟩
      rw [hvalue, valueAt_set values (h index List.mem_cons_self)]
      by_cases hlater : i ∈ indices
      · rw [if_pos hlater, if_pos (List.mem_cons_of_mem _ hlater)]
      · rw [if_neg hlater]
        by_cases hhere : i = index
        · rw [if_pos hhere, if_pos (show i ∈ index :: indices from hhere ▸ List.mem_cons_self), hhere]
        · have hnot : i ∉ index :: indices := by
            intro hmem
            rcases List.mem_cons.mp hmem with h' | h'
            · exact hhere h'
            · exact hlater h'
          rw [if_neg hhere, if_neg hnot]

/-- What a column holds after a line has been drawn. -/
theorem valueAt_drawLine (leftValue rightValue : ℚ) (hright : right ≤ values.length)
    (i : Nat) :
    (drawLine leftValue rightValue left right index values).length = values.length ∧
      valueAt (drawLine leftValue rightValue left right index values) i =
        if index ≤ i ∧ i < right then some (linePoint leftValue rightValue left right i)
        else valueAt values i := by
  have hmem : ∀ j, j ∈ List.range' index (right - index) ↔ index ≤ j ∧ j < right := by
    intro j
    rw [List.mem_range'_1]
    omega
  have hbound : ∀ j ∈ List.range' index (right - index), j < values.length :=
    fun j hj => Nat.lt_of_lt_of_le ((hmem j).mp hj).2 hright
  obtain ⟨hlength, hvalue⟩ :=
    valueAt_assign (fun j => some (linePoint leftValue rightValue left right j)) hbound i
  refine ⟨hlength, hvalue.trans ?_⟩
  exact if_congr (hmem i) rfl rfl

/-! ## The loop -/

/-- What a bucket is left with: a value of its own, or the line. -/
def finalAt (values : BucketValues) (i : Nat) : Except String (Option TimeseriesValue) :=
  if (valueAt values i).isSome = true then .ok (valueAt values i) else linearAt values i

theorem finalAt_own {i : Nat} (h : (valueAt values i).isSome = true) :
    finalAt values i = .ok (valueAt values i) := if_pos h

theorem finalAt_empty {i : Nat} (h : (valueAt values i).isSome = false) :
    finalAt values i = linearAt values i := if_neg (ne_true_of_eq_false h)

/-- The bucket `last` has a value and none behind it has. -/
def IsLast (values : BucketValues) (last : Nat) : Prop :=
  (valueAt values last).isSome = true ∧ ∀ i, last < i → (valueAt values i).isSome = false

/-- A scan that passes a value stops. -/
theorem exists_nextIndexFrom {fuel i : Nat} (hle : index ≤ i) (hlt : i < index + fuel)
    (hvalue : (valueAt values i).isSome = true) :
    ∃ next, nextIndexFrom values fuel index = some next := by
  induction fuel generalizing index with
  | zero => omega
  | succ fuel ih =>
      rw [nextIndexFrom_succ]
      by_cases hhere : (valueAt values index).isSome = true
      · exact ⟨index, if_pos hhere⟩
      · rw [if_neg hhere]
        have hne : index ≠ i := by
          rintro rfl
          exact hhere hvalue
        exact ih (by omega) (by omega)

/-- The loop at `index`: the buckets before it and behind the last value are done, the
    others untouched. -/
structure Drawn (values current : BucketValues) (last index : Nat) : Prop where
  length : current.length = values.length
  final : ∀ i < values.length, i < index ∨ last < i → finalAt values i = .ok (valueAt current i)
  untouched : ∀ i, index ≤ i → i ≤ last → valueAt current i = valueAt values i
  behind : ∀ i < values.length, last < i → (valueAt current i).isSome = true

/-- The bucket has a value, or the one before it has. -/
def Anchored (values : BucketValues) (index : Nat) : Prop :=
  (valueAt values index).isSome = true ∨
    0 < index ∧ (valueAt values (index - 1)).isSome = true

/-- A bucket that has a value is passed over. -/
theorem Drawn.passed (h : Drawn values current last index)
    (hvalue : (valueAt current index).isSome = true) : Drawn values current last (index + 1) where
  length := h.length
  final := by
    intro i hi hdone
    rcases hdone with hlt | hbehind
    · rcases Nat.lt_succ_iff_lt_or_eq.mp hlt with hbefore | rfl
      · exact h.final i hi (Or.inl hbefore)
      · by_cases hle : i ≤ last
        · rw [h.untouched i (Nat.le_refl _) hle] at hvalue ⊢
          exact finalAt_own hvalue
        · exact h.final i hi (Or.inr (Nat.lt_of_not_le hle))
    · exact h.final i hi (Or.inr hbehind)
  untouched := fun i hi hle => h.untouched i (Nat.le_of_succ_le hi) hle
  behind := h.behind

/-- The neighbours of every bucket of the gap at `index`. -/
theorem gap_neighbours (hempty : (valueAt values index).isSome = false)
    (hanchored : Anchored values index) (hright : (valueAt values right).isSome = true)
    (hgap : ∀ i, index ≤ i → i < right → (valueAt values i).isSome = false) {i : Nat}
    (hi : index ≤ i) (hlt : i < right) :
    previousIndex values i = some (index - 1) ∧ nextIndex values i = some right := by
  obtain ⟨hpos, hleft⟩ : 0 < index ∧ (valueAt values (index - 1)).isSome = true :=
    hanchored.resolve_left (ne_true_of_eq_false hempty)
  constructor
  · refine previousIndex_eq_some.mpr ⟨by omega, hleft, fun j hj hji => ?_⟩
    exact hgap j (by omega) (by omega)
  · exact nextIndex_eq_some.mpr ⟨hlt, hright, fun j hj hjr => hgap j (by omega) hjr⟩

/-- The line over the gap that starts at `index`. -/
theorem Drawn.line (h : Drawn values current last index)
    (hempty : (valueAt values index).isSome = false) (hanchored : Anchored values index)
    (hright : (valueAt values right).isSome = true) (hindex : index < right) (hle : right ≤ last)
    (hlast : last < values.length)
    (hgap : ∀ i, index ≤ i → i < right → (valueAt values i).isSome = false)
    {leftValue rightValue : ℚ}
    (hleftValue : (valueAt values (index - 1)).bind numericValue = some leftValue)
    (hrightValue : (valueAt values right).bind numericValue = some rightValue) :
    Drawn values (drawLine leftValue rightValue (index - 1) right index current) last right := by
  have hbound : right ≤ current.length := by
    rw [h.length]
    omega
  have hdrawn := @valueAt_drawLine current index (index - 1) right leftValue rightValue hbound
  refine ⟨(hdrawn 0).1.trans h.length, fun i hi hdone => ?_, fun i hi hil => ?_, fun i hi hil => ?_⟩
  · rw [(hdrawn i).2]
    by_cases hinside : index ≤ i ∧ i < right
    · obtain ⟨hprevious, hnext⟩ :=
        gap_neighbours hempty hanchored hright hgap hinside.1 hinside.2
      rw [if_pos hinside, finalAt_empty (hgap i hinside.1 hinside.2),
        linearAt_between values hprevious hnext, hleftValue, hrightValue]
      rfl
    · rw [if_neg hinside]
      refine h.final i hi (hdone.imp_left fun hlt => ?_)
      omega
  · rw [(hdrawn i).2, if_neg (by omega)]
    exact h.untouched i (Nat.le_of_lt (Nat.lt_of_lt_of_le hindex hi)) hil
  · rw [(hdrawn i).2, if_neg (by omega)]
    exact h.behind i hi hil

/-- An empty bucket the loop meets opens a gap that ends at the last value at the latest. -/
theorem Drawn.gap (hdrawn : Drawn values current last index) (hlast : IsLast values last)
    (hindex : index < values.length) (hvalue : (valueAt current index).isSome = false) :
    ∃ right, nextIndexFrom current (current.length - index) index = some right ∧
      index < right ∧ right ≤ last ∧ (valueAt values index).isSome = false ∧
      (valueAt values right).isSome = true ∧
      ∀ i, index ≤ i → i < right → (valueAt values i).isSome = false := by
  have hlastLt : last < values.length := lt_of_valueAt hlast.1
  -- behind the last value no bucket is empty
  have hle : index ≤ last := by
    by_contra hbehind
    rw [hdrawn.behind index hindex (Nat.lt_of_not_le hbehind)] at hvalue
    cases hvalue
  have hlastCurrent : valueAt current last = valueAt values last :=
    hdrawn.untouched last hle (Nat.le_refl _)
  have hempty : (valueAt values index).isSome = false := by
    rw [← hdrawn.untouched index (Nat.le_refl _) hle]
    exact hvalue
  obtain ⟨right, hscan⟩ := exists_nextIndexFrom hle
    (show last < index + (current.length - index) by rw [hdrawn.length]; omega)
    (by rw [hlastCurrent]; exact hlast.1)
  obtain ⟨hir, -, hrightCurrent, hgapCurrent⟩ := nextIndexFrom_eq_some.mp hscan
  have hrl : right ≤ last := by
    by_contra hbeyond
    have hno := hgapCurrent last hle (Nat.lt_of_not_le hbeyond)
    rw [hlastCurrent] at hno
    exact absurd hlast.1 (ne_true_of_eq_false hno)
  have hright : (valueAt values right).isSome = true := by
    rw [← hdrawn.untouched right hir hrl]
    exact hrightCurrent
  have hlt : index < right := by
    refine Nat.lt_of_le_of_ne hir fun heq => ?_
    rw [← heq, hempty] at hright
    cases hright
  refine ⟨right, hscan, hlt, hrl, hempty, hright, fun i hi hir' => ?_⟩
  rw [← hdrawn.untouched i hi (Nat.le_trans (Nat.le_of_lt hir') hrl)]
  exact hgapCurrent i hi hir'

/-- What the loop ends with: every bucket done, or a line between values that are not
    numbers. -/
def Finished (values : BucketValues) (result : Except String BucketValues) : Prop :=
  (∃ filled, result = .ok filled ∧ filled.length = values.length ∧
    ∀ i < values.length, finalAt values i = .ok (valueAt filled i)) ∨
  ∃ i < values.length, (valueAt values i).isSome = false ∧
    ∃ error, linearAt values i = .error error ∧ result = .error error

/-- The one error of linear filling. -/
theorem linearAt_error {i : Nat} {error : String} (h : linearAt values i = .error error) :
    error = "linear fill requires finite numeric sequence values" := by
  rw [linearAt] at h
  split at h
  · split at h
    · cases h
    · exact (Except.error.inj h).symm
  · cases h

/-- The loop over the gaps fills them all. -/
theorem fillGaps_finished (hlast : IsLast values last) {fuel : Nat}
    (hdrawn : Drawn values current last index)
    (hanchored : index ≤ last → Anchored values index) (hfuel : values.length < fuel + index) :
    Finished values (fillGaps fuel index current) := by
  have hlastLt : last < values.length := lt_of_valueAt hlast.1
  induction fuel generalizing current index with
  | zero =>
      refine Or.inl ⟨current, rfl, hdrawn.length, fun i hi => ?_⟩
      exact hdrawn.final i hi (Or.inl (by omega))
  | succ fuel ih =>
      rw [fillGaps]
      by_cases hindex : index < current.length
      · rw [if_pos hindex]
        by_cases hvalue : (valueAt current index).isSome = true
        · rw [if_pos hvalue]
          refine ih (hdrawn.passed hvalue) (fun hle => Or.inr ⟨Nat.succ_pos _, ?_⟩) (by omega)
          show (valueAt values index).isSome = true
          rw [← hdrawn.untouched index (Nat.le_refl _) (Nat.le_of_succ_le hle)]
          exact hvalue
        · rw [if_neg hvalue]
          rw [hdrawn.length] at hindex
          obtain ⟨right, hscan, hlt, hrl, hempty, hright, hgap⟩ :=
            hdrawn.gap hlast hindex (eq_false_of_ne_true hvalue)
          have hle : index ≤ last := Nat.le_of_lt (Nat.lt_of_lt_of_le hlt hrl)
          obtain ⟨hpos, hleft⟩ : 0 < index ∧ (valueAt values (index - 1)).isSome = true :=
            (hanchored hle).resolve_left (ne_true_of_eq_false hempty)
          simp only [hscan]
          -- both neighbours are as they were
          have hleftCurrent : valueAt current (index - 1) = valueAt values (index - 1) := by
            have hfinal := hdrawn.final (index - 1) (by omega) (Or.inl (by omega))
            rw [finalAt_own hleft] at hfinal
            exact (Except.ok.inj hfinal).symm
          simp only [hleftCurrent, hdrawn.untouched right (Nat.le_of_lt hlt) hrl]
          obtain ⟨hprevious, hnext⟩ := gap_neighbours hempty (hanchored hle) hright hgap
            (Nat.le_refl index) hlt
          have hline := linearAt_between values hprevious hnext
          cases hleftValue : (valueAt values (index - 1)).bind numericValue with
          | none =>
              rw [hleftValue] at hline
              exact Or.inr ⟨index, hindex, hempty, _, hline, rfl⟩
          | some leftValue =>
              cases hrightValue : (valueAt values right).bind numericValue with
              | none =>
                  rw [hleftValue, hrightValue] at hline
                  exact Or.inr ⟨index, hindex, hempty, _, hline, rfl⟩
              | some rightValue =>
                  exact ih (hdrawn.line hempty (hanchored hle) hright hlt hrl hlastLt hgap
                    hleftValue hrightValue) (fun _ => Or.inl hright) (by omega)
      · rw [if_neg hindex]
        rw [hdrawn.length] at hindex
        refine Or.inl ⟨current, rfl, hdrawn.length, fun i hi => ?_⟩
        exact hdrawn.final i hi (Or.inl (by omega))

/-! ## The whole fill -/

/-- An error comes from one of the buckets. -/
theorem fillFrom_error_source {fill : Nat → Except String (Option TimeseriesValue)}
    {start : Nat} {error : String} (h : fillFrom fill start values = .error error) :
    ∃ i, fill i = .error error := by
  induction values generalizing start with
  | nil => cases h
  | cons value values ih =>
      cases value with
      | some value =>
          cases hrest : fillFrom fill (start + 1) values with
          | ok rest => simp [fillFrom, hrest] at h
          | error other =>
              have hsame : other = error := by simpa [fillFrom, hrest] using h
              exact ih (hsame ▸ hrest)
      | none =>
          cases hhere : fill start with
          | error other =>
              have hsame : other = error := by simpa [fillFrom, hhere] using h
              exact ⟨start, hsame ▸ hhere⟩
          | ok value =>
              cases hrest : fillFrom fill (start + 1) values with
              | ok rest => simp [fillFrom, hhere, hrest] at h
              | error other =>
                  have hsame : other = error := by simpa [fillFrom, hhere, hrest] using h
                  exact ih (hsame ▸ hrest)

/-- The text of an error. -/
theorem fillFrom_error {fill : Nat → Except String (Option TimeseriesValue)} {text : String}
    (htext : ∀ i error, fill i = .error error → error = text) {start i : Nat} {error : String}
    (hi : i < values.length) (hempty : (valueAt values i).isSome = false)
    (herror : fill (start + i) = .error error) : fillFrom fill start values = .error text := by
  cases hfilled : fillFrom fill start values with
  | ok filled =>
      have hbucket := (fillFrom_ok.mp hfilled).2 i hi
      rw [if_neg (ne_true_of_eq_false hempty), herror] at hbucket
      cases hbucket
  | error other =>
      -- the fill stops at the first bucket that fails
      obtain ⟨j, hj⟩ := fillFrom_error_source hfilled
      rw [htext j other hj]

/-- The end of a column without a value behind it. -/
theorem isLast_of_previous (h : previousIndex values values.length = some last) :
    IsLast values last := by
  obtain ⟨-, hvalue, hnone⟩ := previousIndex_eq_some.mp h
  refine ⟨hvalue, fun i hi => ?_⟩
  by_cases hlt : i < values.length
  · exact hnone i hi hlt
  · rw [valueAt_of_le (Nat.le_of_not_lt hlt)]
    rfl

/-- The near fill of both ends is what `linearAt` says there. -/
theorem drawn_edges (hfirst : nextIndexFrom values values.length 0 = some first)
    (hlast : previousIndex values values.length = some last) :
    Drawn values ((List.range first ++ List.range' (last + 1) (values.length - (last + 1))).foldl
      (fillNearAt values) values) last first := by
  obtain ⟨-, hfirstLt, hfirstValue, hbefore⟩ := nextIndexFrom_eq_some.mp hfirst
  obtain ⟨hlastLt, hlastValue, -⟩ := previousIndex_eq_some.mp hlast
  have hbehind := (isLast_of_previous hlast).2
  have hmem : ∀ i, i < values.length →
      (i ∈ List.range first ++ List.range' (last + 1) (values.length - (last + 1)) ↔
        i < first ∨ last < i) := by
    intro i hi
    rw [List.mem_append, List.mem_range, List.mem_range'_1]
    omega
  have hinside : ∀ i ∈ List.range first ++ List.range' (last + 1) (values.length - (last + 1)),
      i < values.length := by
    intro i hi
    rw [List.mem_append, List.mem_range, List.mem_range'_1] at hi
    omega
  have hedges := valueAt_fillNear values hinside
  -- an end bucket is empty and lacks a value on one side
  have hend : ∀ i, i < values.length → i < first ∨ last < i →
      (valueAt values i).isSome = false ∧ linearAt values i = .ok (nearAt values i) := by
    intro i hi hedge
    rcases hedge with hlt | hgt
    · have hno : previousIndex values i = none :=
        previousIndex_eq_none.mpr fun j hj => hbefore j (Nat.zero_le _) (Nat.lt_trans hj hlt)
      exact ⟨hbefore i (Nat.zero_le _) hlt, linearAt_edge values (Or.inl hno)⟩
    · have hno : nextIndex values i = none :=
        nextIndex_eq_none.mpr fun j hj => hbehind j (Nat.lt_trans hgt hj)
      exact ⟨hbehind i hgt, linearAt_edge values (Or.inr hno)⟩
  have hnear : ∀ i, i < values.length → i < first ∨ last < i →
      valueAt ((List.range first ++ List.range' (last + 1) (values.length - (last + 1))).foldl
        (fillNearAt values) values) i = nearAt values i := by
    intro i hi hedge
    rw [(hedges i).2, if_pos ((hmem i hi).mpr hedge),
      Option.not_isSome_iff_eq_none.mp (ne_true_of_eq_false (hend i hi hedge).1), Option.or_none]
  refine ⟨(hedges 0).1, fun i hi hedge => ?_, fun i hi hle => ?_, fun i hi hgt => ?_⟩
  · rw [hnear i hi hedge, finalAt_empty (hend i hi hedge).1, (hend i hi hedge).2]
  · rw [(hedges i).2, if_neg]
    rw [hmem i (Nat.lt_of_le_of_lt hle hlastLt)]
    omega
  · rw [hnear i hi (Or.inr hgt)]
    -- the last value is on the left
    have hprevious : previousIndex values i = some last :=
      previousIndex_eq_some.mpr ⟨hgt, hlastValue, fun j hj _ => hbehind j hj⟩
    have hnext : nextIndex values i = none :=
      nextIndex_eq_none.mpr fun j hj => hbehind j (Nat.lt_trans hgt hj)
    rw [nearAt, hprevious, hnext]
    exact hlastValue

/-- The loop in place and the fill by buckets are one function. -/
theorem fillLinear_eq (values : BucketValues) : fillLinear values = fillValues values .linear := by
  rw [fillLinear, fillValues]
  cases hfirst : nextIndexFrom values values.length 0 with
  | none =>
      -- no value at all: nothing is filled
      have hnone : ∀ i, (valueAt values i).isSome = false := by
        intro i
        by_contra hvalue
        have hsome : (valueAt values i).isSome = true := eq_true_of_ne_false hvalue
        obtain ⟨next, hnext⟩ := exists_nextIndexFrom (Nat.zero_le i)
          (by rw [Nat.zero_add]; exact lt_of_valueAt hsome) hsome
        rw [hfirst] at hnext
        cases hnext
      refine (fillFrom_ok.mpr ⟨rfl, fun i _ => ?_⟩).symm
      have hprevious : previousIndex values i = none :=
        previousIndex_eq_none.mpr fun j _ => hnone j
      have hnext : nextIndex values i = none := nextIndex_eq_none.mpr fun j _ => hnone j
      rw [if_neg (ne_true_of_eq_false (hnone i)), Nat.zero_add,
        linearAt_edge values (Or.inl hprevious), nearAt, hprevious, hnext,
        Option.not_isSome_iff_eq_none.mp (ne_true_of_eq_false (hnone i))]
  | some first =>
      obtain ⟨-, hfirstLt, hfirstValue, -⟩ := nextIndexFrom_eq_some.mp hfirst
      rw [Nat.zero_add] at hfirstLt
      cases hlast : previousIndex values values.length with
      | none =>
          have hno := previousIndex_eq_none.mp hlast first hfirstLt
          rw [hfirstValue] at hno
          cases hno
      | some last =>
          show fillGaps (values.length + 1) first _ = _
          rcases fillGaps_finished (isLast_of_previous hlast) (drawn_edges hfirst hlast)
            (fun _ => Or.inl hfirstValue) (show values.length < values.length + 1 + first by omega)
            with ⟨filled, hfilled, hlength, hfinal⟩ | ⟨i, hi, hempty, error, herror, hresult⟩
          · rw [hfilled]
            refine (fillFrom_ok.mpr ⟨hlength, fun i hi => ?_⟩).symm
            rw [Nat.zero_add]
            exact hfinal i hi
          · rw [hresult, linearAt_error herror]
            have hstart : linearAt values (0 + i) = .error error := by
              rw [Nat.zero_add]
              exact herror
            exact (@fillFrom_error _ (linearAt values) _ (fun j other hother => linearAt_error hother)
              0 i error hi hempty hstart).symm

end LinearFill
