import TimeSeriesEngine.Alignment

/-!
# Gaps filled on a slice

A slice of the buckets fills its gaps as the whole grid does wherever it reaches a
value on both sides, or the end of the grid (`fillValues_slice`).
-/

namespace GapFilling

open TseTypes SeqAlignment

variable {values slice : BucketValues} {offset : Nat}

/-- The value of a bucket. -/
def valueAt (values : BucketValues) (index : Nat) : Option TimeseriesValue := values[index]?.join

theorem valueAt_of_le {index : Nat} (h : values.length ≤ index) : valueAt values index = none := by
  rw [valueAt, List.getElem?_eq_none h]
  rfl

theorem valueAt_cons_succ (value : Option TimeseriesValue) (index : Nat) :
    valueAt (value :: values) (index + 1) = valueAt values index := rfl

theorem lt_of_valueAt {index : Nat} (h : (valueAt values index).isSome = true) :
    index < values.length := by
  by_contra hge
  rw [valueAt_of_le (Nat.le_of_not_lt hge)] at h
  cases h

/-! ## The nearest values -/

theorem previousIndex_succ (values : BucketValues) (index : Nat) :
    previousIndex values (index + 1) =
      if (valueAt values index).isSome = true then some index else previousIndex values index :=
  rfl

theorem nextIndexFrom_succ (values : BucketValues) (fuel index : Nat) :
    nextIndexFrom values (fuel + 1) index =
      if (valueAt values index).isSome = true then some index
      else nextIndexFrom values fuel (index + 1) := rfl

/-- The previous value is the last one in front. -/
theorem previousIndex_eq_some {index previous : Nat} :
    previousIndex values index = some previous ↔
      previous < index ∧ (valueAt values previous).isSome = true ∧
        ∀ i, previous < i → i < index → (valueAt values i).isSome = false := by
  induction index with
  | zero => simp [previousIndex]
  | succ index ih =>
      rw [previousIndex_succ]
      by_cases hvalue : (valueAt values index).isSome = true
      · rw [if_pos hvalue, Option.some.injEq]
        constructor
        · rintro rfl
          exact ⟨Nat.lt_succ_self _, hvalue, fun i h1 h2 => absurd h1 (by omega)⟩
        · rintro ⟨hlt, -, hnone⟩
          by_contra hne
          have hno := hnone index (by omega) (Nat.lt_succ_self _)
          rw [hvalue] at hno
          cases hno
      · rw [if_neg hvalue, ih]
        constructor
        · rintro ⟨hlt, hsome, hnone⟩
          refine ⟨by omega, hsome, fun i h1 h2 => ?_⟩
          by_cases hi : i = index
          · rw [hi]
            exact Bool.eq_false_iff.mpr hvalue
          · exact hnone i h1 (by omega)
        · rintro ⟨hlt, hsome, hnone⟩
          have hne : previous ≠ index := by
            rintro rfl
            exact hvalue hsome
          exact ⟨by omega, hsome, fun i h1 h2 => hnone i h1 (by omega)⟩

/-- There is no previous value when all buckets in front are empty. -/
theorem previousIndex_eq_none {index : Nat} :
    previousIndex values index = none ↔
      ∀ i, i < index → (valueAt values i).isSome = false := by
  induction index with
  | zero => simp [previousIndex]
  | succ index ih =>
      rw [previousIndex_succ]
      by_cases hvalue : (valueAt values index).isSome = true
      · rw [if_pos hvalue]
        refine ⟨nofun, fun hnone => ?_⟩
        have hno := hnone index (Nat.lt_succ_self _)
        rw [hvalue] at hno
        cases hno
      · rw [if_neg hvalue, ih]
        constructor
        · intro hnone i hi
          by_cases heq : i = index
          · rw [heq]
            exact Bool.eq_false_iff.mpr hvalue
          · exact hnone i (by omega)
        · exact fun hnone i hi => hnone i (by omega)

/-- The first value from a bucket on. -/
theorem nextIndexFrom_eq_some {fuel index next : Nat} :
    nextIndexFrom values fuel index = some next ↔
      index ≤ next ∧ next < index + fuel ∧ (valueAt values next).isSome = true ∧
        ∀ i, index ≤ i → i < next → (valueAt values i).isSome = false := by
  induction fuel generalizing index with
  | zero =>
      rw [nextIndexFrom]
      exact ⟨nofun, fun h => absurd h.2.1 (by omega)⟩
  | succ fuel ih =>
      rw [nextIndexFrom_succ]
      by_cases hvalue : (valueAt values index).isSome = true
      · rw [if_pos hvalue, Option.some.injEq]
        constructor
        · rintro rfl
          exact ⟨Nat.le_refl _, by omega, hvalue, fun i h1 h2 => absurd h1 (by omega)⟩
        · rintro ⟨hle, -, -, hnone⟩
          by_contra hne
          have hno := hnone index (Nat.le_refl _) (by omega)
          rw [hvalue] at hno
          cases hno
      · rw [if_neg hvalue, ih]
        constructor
        · rintro ⟨hle, hlt, hsome, hnone⟩
          refine ⟨by omega, by omega, hsome, fun i h1 h2 => ?_⟩
          by_cases hi : i = index
          · rw [hi]
            exact Bool.eq_false_iff.mpr hvalue
          · exact hnone i (by omega) h2
        · rintro ⟨hle, hlt, hsome, hnone⟩
          have hne : index ≠ next := by
            rintro rfl
            exact hvalue hsome
          exact ⟨by omega, by omega, hsome, fun i h1 h2 => hnone i (by omega) h2⟩

/-- The next value is the first one behind. -/
theorem nextIndex_eq_some {index next : Nat} :
    nextIndex values index = some next ↔
      index < next ∧ (valueAt values next).isSome = true ∧
        ∀ i, index < i → i < next → (valueAt values i).isSome = false := by
  rw [nextIndex, nextIndexFrom_eq_some]
  constructor
  · rintro ⟨hle, -, hsome, hnone⟩
    exact ⟨hle, hsome, hnone⟩
  · rintro ⟨hlt, hsome, hnone⟩
    have hlength := lt_of_valueAt hsome
    exact ⟨hlt, by omega, hsome, hnone⟩

/-- There is no next value when all buckets behind are empty. -/
theorem nextIndex_eq_none {index : Nat} :
    nextIndex values index = none ↔ ∀ i, index < i → (valueAt values i).isSome = false := by
  constructor
  · intro hnone i hi
    by_contra hvalue
    have hsome : ∃ j, index < j ∧ (valueAt values j).isSome = true :=
      ⟨i, hi, (Bool.not_eq_false _).mp hvalue⟩
    -- the first such bucket would be the next one
    obtain ⟨hlt, hfirst⟩ := Nat.find_spec hsome
    have hnext := nextIndex_eq_some.mpr ⟨hlt, hfirst, fun j h1 h2 => by
      have hmin := Nat.find_min hsome h2
      exact Bool.eq_false_iff.mpr fun hj => hmin ⟨h1, hj⟩⟩
    rw [hnone] at hnext
    cases hnext
  · intro hnone
    cases hnext : nextIndex values index with
    | none => rfl
    | some next =>
        obtain ⟨hlt, hsome, -⟩ := nextIndex_eq_some.mp hnext
        rw [hnone next hlt] at hsome
        cases hsome

/-! ## Slices -/

/-- The buckets of the slice are those of the grid from `offset` on. -/
structure IsSlice (values slice : BucketValues) (offset : Nat) : Prop where
  fits : offset + slice.length ≤ values.length
  same : ∀ index, index < slice.length → slice[index]? = values[index + offset]?

theorem IsSlice.valueAt (h : IsSlice values slice offset) {index : Nat}
    (hindex : index < slice.length) :
    GapFilling.valueAt slice index = GapFilling.valueAt values (index + offset) := by
  rw [GapFilling.valueAt, GapFilling.valueAt, h.same index hindex]

/-- Nothing in front of the slice matters for its buckets from `first` on. -/
def LeftAnchor (slice : BucketValues) (offset first : Nat) : Prop :=
  offset = 0 ∨ ∃ anchor, anchor ≤ first ∧ (valueAt slice anchor).isSome = true

/-- Nothing behind the slice matters for its buckets up to `last`. -/
def RightAnchor (values slice : BucketValues) (offset last : Nat) : Prop :=
  offset + slice.length = values.length ∨
    ∃ anchor, last ≤ anchor ∧ (valueAt slice anchor).isSome = true

/-- A previous value found in the slice is that of the column. -/
theorem IsSlice.previous_some (h : IsSlice values slice offset) {index previous : Nat}
    (hindex : index ≤ slice.length) (hprevious : previousIndex slice index = some previous) :
    previousIndex values (index + offset) = some (previous + offset) := by
  obtain ⟨hlt, hsome, hnone⟩ := previousIndex_eq_some.mp hprevious
  refine previousIndex_eq_some.mpr ⟨by omega, ?_, fun i h1 h2 => ?_⟩
  · rwa [← h.valueAt (by omega)]
  · have hshift := h.valueAt (show i - offset < slice.length by omega)
    rw [Nat.sub_add_cancel (by omega)] at hshift
    rw [← hshift]
    exact hnone (i - offset) (by omega) (by omega)

/-- With an anchor on the left, none in the slice is none in the column. -/
theorem IsSlice.previous_none (h : IsSlice values slice offset) {first index : Nat}
    (hanchor : LeftAnchor slice offset first) (hfirst : first ≤ index)
    (hindex : index < slice.length) (hempty : (GapFilling.valueAt slice index).isSome = false)
    (hprevious : previousIndex slice index = none) :
    previousIndex values (index + offset) = none := by
  rw [previousIndex_eq_none] at hprevious ⊢
  rcases hanchor with rfl | ⟨anchor, hle, hsome⟩
  · intro i hi
    have hshift := h.valueAt (show i < slice.length by omega)
    rw [Nat.add_zero] at hshift
    rw [← hshift]
    exact hprevious i hi
  · -- the anchor is in front of the bucket
    have hne : anchor ≠ index := by
      rintro rfl
      rw [hempty] at hsome
      cases hsome
    have hno := hprevious anchor (by omega)
    rw [hsome] at hno
    cases hno

/-- A next value found in the slice is that of the column. -/
theorem IsSlice.next_some (h : IsSlice values slice offset) {index next : Nat}
    (hnext : nextIndex slice index = some next) :
    nextIndex values (index + offset) = some (next + offset) := by
  obtain ⟨hlt, hsome, hnone⟩ := nextIndex_eq_some.mp hnext
  have hlength := lt_of_valueAt hsome
  refine nextIndex_eq_some.mpr ⟨by omega, ?_, fun i h1 h2 => ?_⟩
  · rwa [← h.valueAt hlength]
  · have hshift := h.valueAt (show i - offset < slice.length by omega)
    rw [Nat.sub_add_cancel (by omega)] at hshift
    rw [← hshift]
    exact hnone (i - offset) (by omega) (by omega)

/-- With an anchor on the right, none in the slice is none in the column. -/
theorem IsSlice.next_none (h : IsSlice values slice offset) {last index : Nat}
    (hanchor : RightAnchor values slice offset last) (hlast : index ≤ last)
    (hempty : (GapFilling.valueAt slice index).isSome = false)
    (hnext : nextIndex slice index = none) : nextIndex values (index + offset) = none := by
  rw [nextIndex_eq_none] at hnext ⊢
  rcases hanchor with hend | ⟨anchor, hle, hsome⟩
  · intro i hi
    by_cases hlength : i < values.length
    · have hshift := h.valueAt (show i - offset < slice.length by omega)
      rw [Nat.sub_add_cancel (by omega)] at hshift
      rw [← hshift]
      exact hnext (i - offset) (by omega)
    · rw [valueAt_of_le (Nat.le_of_not_lt hlength)]
      rfl
  · have hne : anchor ≠ index := by
      rintro rfl
      rw [hempty] at hsome
      cases hsome
    have hno := hnext anchor (by omega)
    rw [hsome] at hno
    cases hno

/-! ## Filling -/

/-- Between the anchors the nearest value is the same. -/
theorem nearAt_slice (h : IsSlice values slice offset) {first last index : Nat}
    (hleft : LeftAnchor slice offset first) (hright : RightAnchor values slice offset last)
    (hfirst : first ≤ index) (hlast : index ≤ last) (hindex : index < slice.length)
    (hempty : (valueAt slice index).isSome = false) :
    nearAt slice index = nearAt values (index + offset) := by
  rw [nearAt, nearAt]
  cases hprevious : previousIndex slice index with
  | none =>
      rw [h.previous_none hleft hfirst hindex hempty hprevious]
      cases hnext : nextIndex slice index with
      | none => rw [h.next_none hright hlast hempty hnext]
      | some next =>
          obtain ⟨-, hsome, -⟩ := nextIndex_eq_some.mp hnext
          rw [h.next_some hnext]
          exact h.valueAt (lt_of_valueAt hsome)
  | some previous =>
      obtain ⟨hlt, -, -⟩ := previousIndex_eq_some.mp hprevious
      rw [h.previous_some (Nat.le_of_lt hindex) hprevious]
      cases hnext : nextIndex slice index with
      | none =>
          rw [h.next_none hright hlast hempty hnext]
          exact h.valueAt (by omega)
      | some next =>
          obtain ⟨hnextLt, hsome, -⟩ := nextIndex_eq_some.mp hnext
          rw [h.next_some hnext]
          -- both distances are as they were
          have hdistance : index + offset - (previous + offset) ≤ next + offset - (index + offset) ↔
              index - previous ≤ next - index := by omega
          exact if_congr hdistance.symm (h.valueAt (by omega)) (h.valueAt (lt_of_valueAt hsome))

/-- Between two values the line through them. -/
theorem linearAt_between (values : BucketValues) {index left right : Nat}
    (hleft : previousIndex values index = some left) (hright : nextIndex values index = some right) :
    linearAt values index =
      match (valueAt values left).bind numericValue, (valueAt values right).bind numericValue with
      | some leftValue, some rightValue =>
          .ok (some (.double (.finite (leftValue + (rightValue - leftValue) *
            (((index - left : Nat) : ℚ) / ((right - left : Nat) : ℚ))))))
      | _, _ => .error "linear fill requires finite numeric sequence values" := by
  rw [linearAt, hleft, hright]
  rfl

/-- At an edge the nearest value. -/
theorem linearAt_edge (values : BucketValues) {index : Nat}
    (h : previousIndex values index = none ∨ nextIndex values index = none) :
    linearAt values index = .ok (nearAt values index) := by
  rw [linearAt]
  rcases h with hleft | hright
  · rw [hleft]
  · rw [hright]
    cases previousIndex values index with
    | none => rfl
    | some left => rfl

/-- A line inside the slice is the line of the grid. -/
theorem linearAt_inside (h : IsSlice values slice offset) {index left right : Nat}
    (hindex : index < slice.length) (hleft : previousIndex slice index = some left)
    (hright : nextIndex slice index = some right) :
    linearAt slice index = linearAt values (index + offset) := by
  obtain ⟨hlt, -, -⟩ := previousIndex_eq_some.mp hleft
  obtain ⟨-, hsome, -⟩ := nextIndex_eq_some.mp hright
  rw [linearAt_between slice hleft hright,
    linearAt_between values (h.previous_some (Nat.le_of_lt hindex) hleft) (h.next_some hright),
    h.valueAt (by omega), h.valueAt (lt_of_valueAt hsome), Nat.add_sub_add_right,
    Nat.add_sub_add_right]

/-- Between the anchors the interpolated value is the same. -/
theorem linearAt_slice (h : IsSlice values slice offset) {first last index : Nat}
    (hanchorLeft : LeftAnchor slice offset first)
    (hanchorRight : RightAnchor values slice offset last)
    (hfirst : first ≤ index) (hlast : index ≤ last) (hindex : index < slice.length)
    (hempty : (valueAt slice index).isSome = false) :
    linearAt slice index = linearAt values (index + offset) := by
  have hnear := nearAt_slice h hanchorLeft hanchorRight hfirst hlast hindex hempty
  cases hleft : previousIndex slice index with
  | none =>
      rw [linearAt_edge slice (Or.inl hleft), linearAt_edge values
        (Or.inl (h.previous_none hanchorLeft hfirst hindex hempty hleft)), hnear]
  | some left =>
      cases hright : nextIndex slice index with
      | none =>
          rw [linearAt_edge slice (Or.inr hright), linearAt_edge values
            (Or.inr (h.next_none hanchorRight hlast hempty hright)), hnear]
      | some right => exact linearAt_inside h hindex hleft hright

/-- Filling fails nowhere exactly when no empty bucket fails. -/
theorem fillFrom_ok {fill : Nat → Except String (Option TimeseriesValue)} {start : Nat}
    {values filled : BucketValues} :
    fillFrom fill start values = .ok filled ↔
      filled.length = values.length ∧ ∀ index, index < values.length →
        (if (valueAt values index).isSome = true then .ok (valueAt values index)
          else fill (start + index)) = .ok (valueAt filled index) := by
  induction values generalizing start filled with
  | nil =>
      rw [fillFrom, Except.ok.injEq]
      constructor
      · rintro rfl
        exact ⟨rfl, fun index hindex => absurd hindex (Nat.not_lt_zero _)⟩
      · rintro ⟨hlength, -⟩
        exact (List.length_eq_zero_iff.mp hlength).symm
  | cons value values ih =>
      rw [fillFrom]
      constructor
      · intro h
        cases hhead : (if value.isSome then Except.ok value else fill start) with
        | error error => simp [hhead] at h
        | ok head =>
            cases htail : fillFrom fill (start + 1) values with
            | error error => simp [hhead, htail] at h
            | ok tail =>
                simp only [hhead, htail, Except.ok.injEq] at h
                subst h
                obtain ⟨hlength, hrest⟩ := ih.mp htail
                refine ⟨by simp [hlength], fun index hindex => ?_⟩
                cases index with
                | zero => exact hhead
                | succ index =>
                    rw [valueAt_cons_succ, valueAt_cons_succ,
                      ← hrest index (Nat.lt_of_succ_lt_succ hindex), Nat.add_right_comm, Nat.add_assoc]
      · rintro ⟨hlength, hrest⟩
        cases filled with
        | nil => cases hlength
        | cons head tail =>
            have hhead : (if value.isSome then Except.ok value else fill start) = .ok head :=
              hrest 0 (Nat.succ_pos _)
            have htail : fillFrom fill (start + 1) values = .ok tail := by
              refine ih.mpr ⟨Nat.succ.inj hlength, fun index hindex => ?_⟩
              have hnext := hrest (index + 1) (Nat.succ_lt_succ hindex)
              rw [valueAt_cons_succ, valueAt_cons_succ] at hnext
              rwa [Nat.add_assoc, Nat.add_comm 1 index]
            simp [hhead, htail]

/-- A column is filled when every empty bucket can be. -/
theorem fillFrom_total {fill : Nat → Except String (Option TimeseriesValue)} {start : Nat}
    {values : BucketValues}
    (h : ∀ index, index < values.length → (valueAt values index).isSome = false →
      ∃ value, fill (start + index) = .ok value) :
    ∃ filled, fillFrom fill start values = .ok filled := by
  induction values generalizing start with
  | nil => exact ⟨[], rfl⟩
  | cons value values ih =>
      have hrest : ∀ index, index < values.length → (valueAt values index).isSome = false →
          ∃ value, fill (start + 1 + index) = .ok value := by
        intro index hindex hempty
        obtain ⟨next, hnext⟩ := h (index + 1) (Nat.succ_lt_succ hindex) hempty
        exact ⟨next, by rw [← hnext, Nat.add_assoc, Nat.add_comm 1 index]⟩
      obtain ⟨tail, htail⟩ := ih hrest
      cases value with
      | some number => exact ⟨some number :: tail, by simp [fillFrom, htail]⟩
      | none =>
          obtain ⟨head, hhead⟩ := h 0 (Nat.succ_pos _) rfl
          have hhead' : fill start = .ok head := hhead
          exact ⟨head :: tail, by simp [fillFrom, hhead', htail]⟩

/-- Two fills that agree on the empty buckets between `first` and `last`. -/
theorem fillFrom_slice (h : IsSlice values slice offset)
    {fill fill' : Nat → Except String (Option TimeseriesValue)} {filled : BucketValues}
    {first last : Nat} (hfilled : fillFrom fill 0 values = .ok filled)
    (htotal : ∀ index, index < slice.length → (valueAt slice index).isSome = false →
      ∃ value, fill' index = .ok value)
    (hsame : ∀ index, first ≤ index → index ≤ last → index < slice.length →
      (valueAt slice index).isSome = false → fill' index = fill (index + offset)) :
    ∃ filled', fillFrom fill' 0 slice = .ok filled' ∧ filled'.length = slice.length ∧
      ∀ index, first ≤ index → index ≤ last → index < slice.length →
        valueAt filled' index = valueAt filled (index + offset) := by
  obtain ⟨-, hvalues⟩ := fillFrom_ok.mp hfilled
  obtain ⟨filled', hfilled'⟩ : ∃ filled', fillFrom fill' 0 slice = .ok filled' := by
    refine fillFrom_total fun index hindex hempty => ?_
    rw [Nat.zero_add]
    exact htotal index hindex hempty
  obtain ⟨hlength, hvalues'⟩ := fillFrom_ok.mp hfilled'
  refine ⟨filled', hfilled', hlength, fun index hfirst hlast hindex => ?_⟩
  have hfits := h.fits
  have hgrid := hvalues (index + offset) (by omega)
  have hslice := hvalues' index hindex
  rw [Nat.zero_add] at hgrid hslice
  rw [← h.valueAt hindex] at hgrid
  by_cases hempty : (valueAt slice index).isSome = false
  · rw [hempty, if_neg Bool.false_ne_true, hsame index hfirst hlast hindex hempty] at hslice
    rw [hempty, if_neg Bool.false_ne_true, hslice] at hgrid
    exact Except.ok.inj hgrid
  · rw [(Bool.not_eq_false _).mp hempty, if_pos rfl] at hslice hgrid
    rw [hslice] at hgrid
    exact Except.ok.inj hgrid

theorem fillPrevious_length (previous : Option TimeseriesValue) (values : BucketValues) :
    (fillPrevious previous values).length = values.length := by
  induction values generalizing previous with
  | nil => rfl
  | cons value values ih => rw [fillPrevious, List.length_cons, List.length_cons, ih]

/-- A bucket takes over what the one in front of it has. -/
theorem fillPrevious_succ (previous : Option TimeseriesValue) {values : BucketValues} {index : Nat}
    (hindex : index + 1 < values.length) :
    valueAt (fillPrevious previous values) (index + 1) =
      (valueAt values (index + 1)).or (valueAt (fillPrevious previous values) index) := by
  induction values generalizing previous index with
  | nil => exact absurd hindex (Nat.not_lt_zero _)
  | cons value values ih =>
      rw [fillPrevious, valueAt_cons_succ, valueAt_cons_succ]
      cases index with
      | zero =>
          cases values with
          | nil => exact absurd hindex (Nat.lt_irrefl _)
          | cons next rest => rfl
      | succ index => exact ih _ (Nat.lt_of_succ_lt_succ hindex)

/-- A value stays as it is. -/
theorem fillPrevious_some (previous : Option TimeseriesValue) {values : BucketValues} {index : Nat}
    (hsome : (valueAt values index).isSome = true) :
    valueAt (fillPrevious previous values) index = valueAt values index := by
  have hindex := lt_of_valueAt hsome
  cases index with
  | zero =>
      cases values with
      | nil => exact absurd hindex (Nat.not_lt_zero _)
      | cons value rest =>
          have hvalue : value.isSome = true := hsome
          show value.or previous = value
          obtain ⟨number, rfl⟩ := Option.isSome_iff_exists.mp hvalue
          rfl
  | succ index =>
      rw [fillPrevious_succ previous hindex]
      obtain ⟨number, hnumber⟩ := Option.isSome_iff_exists.mp hsome
      rw [hnumber]
      rfl

theorem fillPrevious_zero (values : BucketValues) :
    valueAt (fillPrevious none values) 0 = valueAt values 0 := by
  cases values with
  | nil => rfl
  | cons value rest =>
      show value.or none = value
      exact Option.or_none

/-- Behind an anchor a slice is filled like the column. -/
theorem fillPrevious_slice (h : IsSlice values slice offset) {first index : Nat}
    (hanchor : LeftAnchor slice offset first) (hfirst : first ≤ index)
    (hindex : index < slice.length) :
    valueAt (fillPrevious none slice) index = valueAt (fillPrevious none values) (index + offset) := by
  have hfits := h.fits
  -- from the anchor on, bucket by bucket
  have hstep : ∀ start, (valueAt (fillPrevious none slice) start =
        valueAt (fillPrevious none values) (start + offset)) →
      ∀ n, start + n < slice.length → valueAt (fillPrevious none slice) (start + n) =
        valueAt (fillPrevious none values) (start + n + offset) := by
    intro start hstart n
    induction n with
    | zero => exact fun _ => hstart
    | succ n ih =>
        intro hlt
        have hshift : start + n + 1 + offset = start + n + offset + 1 := by omega
        have hlt' : start + n + 1 < slice.length := hlt
        show valueAt _ (start + n + 1) = valueAt _ (start + n + 1 + offset)
        rw [fillPrevious_succ none hlt', ih (by omega), h.valueAt hlt', hshift,
          fillPrevious_succ none (by omega)]
  rcases hanchor with rfl | ⟨anchor, hle, hsome⟩
  · have hzero : valueAt (fillPrevious none slice) 0 = valueAt (fillPrevious none values) (0 + 0) := by
      rw [fillPrevious_zero, fillPrevious_zero]
      exact h.valueAt (by omega)
    have hall := hstep 0 hzero index
    rw [Nat.zero_add] at hall
    exact hall hindex
  · have hsame : valueAt (fillPrevious none slice) anchor =
        valueAt (fillPrevious none values) (anchor + offset) := by
      have hvalue := h.valueAt (lt_of_valueAt hsome)
      rw [fillPrevious_some none hsome, hvalue, fillPrevious_some none (by rwa [← hvalue])]
    have hall := hstep anchor hsame (index - anchor)
    rw [Nat.add_sub_cancel' (by omega)] at hall
    exact hall hindex

/-- **A SLICE FILLS AS THE GRID DOES** between two buckets that need nothing from
    beyond its ends. -/
theorem fillValues_slice (h : IsSlice values slice offset) {method : GapFillMethod}
    {filled : BucketValues} {first last : Nat} (hmethod : method ≠ .next)
    (hleft : LeftAnchor slice offset first) (hright : RightAnchor values slice offset last)
    (hfilled : fillValues values method = .ok filled) :
    ∃ filled', fillValues slice method = .ok filled' ∧ filled'.length = slice.length ∧
      ∀ index, first ≤ index → index ≤ last → index < slice.length →
        valueAt filled' index = valueAt filled (index + offset) := by
  cases method with
  | near =>
      refine fillFrom_slice h hfilled (fun index _ _ => ⟨_, rfl⟩) ?_
      intro index hfirst hlast hindex hempty
      rw [nearAt_slice h hleft hright hfirst hlast hindex hempty]
  | previous =>
      have hfilled' : fillPrevious none values = filled := Except.ok.inj hfilled
      subst hfilled'
      refine ⟨_, rfl, fillPrevious_length none slice, ?_⟩
      exact fun index hfirst _ hindex => fillPrevious_slice h hleft hfirst hindex
  | next => exact absurd rfl hmethod
  | linear =>
      refine fillFrom_slice h hfilled ?_ ?_
      · -- a line inside the slice is one of the grid, which has not failed
        intro index hindex hempty
        cases hprevious : previousIndex slice index with
        | none => exact ⟨_, linearAt_edge slice (Or.inl hprevious)⟩
        | some previous =>
            cases hnext : nextIndex slice index with
            | none => exact ⟨_, linearAt_edge slice (Or.inr hnext)⟩
            | some next =>
                have hfits := h.fits
                have hgrid := (fillFrom_ok.mp hfilled).2 (index + offset) (by omega)
                rw [Nat.zero_add, ← h.valueAt hindex, hempty, if_neg Bool.false_ne_true] at hgrid
                exact ⟨_, (linearAt_inside h hindex hprevious hnext).trans hgrid⟩
      · intro index hfirst hlast hindex hempty
        exact linearAt_slice h hleft hright hfirst hlast hindex hempty

end GapFilling
