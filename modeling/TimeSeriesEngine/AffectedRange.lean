import TimeSeriesEngine.RangeAlignment

/-!
# The affected buckets of a range

`alignRange` aligns the affected buckets, the prefix and one bucket on each side, unless
a sequence has no point near an end of the target (`needsFull_eq_false`).  The local
samples are then those of the whole window (`local_samples`), and the fallback gives the
same ones when its cut by times agrees with the buckets (`range_alignment_iff`).
-/

namespace AffectedRange

open TseTypes KeyedTable OrderedSeries HotWindow ConstraintCheck Registry SeqAlignment GapFilling
  GridSlice RangeAlignment

variable {grid : Grid}

/-! ## The bucket of an end of the range -/

/-- The last bucket that starts at the time or before it, the first one in front of the window. -/
structure BucketOf (grid : Grid) (time : Int) (bucket : Nat) : Prop where
  lt : bucket < grid.bucketCount
  from_start : bucket = 0 ∨ startOf grid bucket ≤ time
  upTo : bucket + 1 = grid.bucketCount ∨ time < startOf grid (bucket + 1)

/-- The quotient of a time not in front of the window is the bucket around the time. -/
theorem quotient_bounds (h : GridOk grid) {time : Int} (hfront : (grid.windowStart : Int) ≤ time) :
    startOf grid ((time - grid.windowStart) / grid.interval).toNat ≤ time ∧
      time < startOf grid (((time - grid.windowStart) / grid.interval).toNat + 1) := by
  have hpos := h.interval_pos
  have hmul := Int.mul_ediv_add_emod (time - grid.windowStart) grid.interval
  have hlow := Int.emod_nonneg (time - grid.windowStart) (by omega : grid.interval ≠ 0)
  have hhigh := Int.emod_lt_of_pos (time - grid.windowStart) hpos
  dsimp only [Timestamp] at *
  have hn : 0 ≤ (time - grid.windowStart) / grid.interval := Int.ediv_nonneg (by omega) (by omega)
  obtain ⟨n, hcast⟩ := Int.eq_ofNat_of_zero_le hn
  rw [hcast, Int.mul_comm] at hmul
  rw [hcast, Int.toNat_natCast, startOf_succ, startOf]
  omega

/-- `bucketIndexForTime` gives the bucket of a time. -/
theorem bucketIndex_bucketOf (h : GridOk grid) (time : Timestamp) :
    BucketOf grid time (bucketIndexForTime grid time) := by
  obtain ⟨hcount, hinside, hend⟩ := h.last
  have hnext := h.startOf_lt (Nat.zero_lt_one)
  rw [startOf_zero] at hnext
  rw [bucketIndexForTime]
  by_cases hfront : time ≤ grid.windowStart
  · rw [if_pos hfront]
    exact ⟨hcount, Or.inl rfl, Or.inr (lt_of_le_of_lt hfront hnext)⟩
  · rw [if_neg hfront]
    by_cases hbehind : grid.windowEnd ≤ time
    · rw [if_pos hbehind]
      exact ⟨Nat.sub_lt hcount Nat.zero_lt_one, Or.inr (le_trans hinside.le hbehind),
        Or.inl (Nat.sub_add_cancel hcount)⟩
    · rw [if_neg hbehind]
      -- inside the window the quotient does not pass the last bucket
      obtain ⟨hstart, hfinish⟩ := quotient_bounds h (not_le.mp hfront).le
      generalize ((time - grid.windowStart) / grid.interval).toNat = n at hstart hfinish ⊢
      have hlt : n < grid.bucketCount := by
        refine Nat.lt_of_not_le fun hover => hbehind ?_
        exact le_trans hend (le_trans (h.startOf_mono hover) hstart)
      rw [Nat.min_eq_right (Nat.le_sub_one_of_lt hlt)]
      exact ⟨hlt, Or.inr hstart, Or.inr hfinish⟩

/-- A later time lies in no earlier bucket. -/
theorem BucketOf.mono (h : GridOk grid) {start finish : Int} {first last : Nat}
    (hfirst : BucketOf grid start first) (hlast : BucketOf grid finish last)
    (hle : start ≤ finish) : first ≤ last := by
  refine Nat.le_of_not_lt fun hlt => ?_
  have hbound := hfirst.lt
  have hmono := h.startOf_mono (Nat.succ_le_of_lt hlt)
  rw [Nat.succ_eq_add_one] at hmono
  rcases hfirst.from_start with hzero | hstart
  · omega
  · rcases hlast.upTo with hend | hend
    · omega
    · omega

/-- The first bucket that does not start before the range. -/
def cropFirst (grid : Grid) (range : AlignmentRange) : Nat :=
  if range.startTime ≤ startOf grid (bucketIndexForTime grid range.startTime) then
    bucketIndexForTime grid range.startTime
  else bucketIndexForTime grid range.startTime + 1

/-- The number of buckets that do not start behind the range. -/
def cropLast (grid : Grid) (range : AlignmentRange) : Nat :=
  if grid.windowStart ≤ range.endTime then bucketIndexForTime grid range.endTime + 1 else 0

/-- The crop of a range runs from its first bucket to its last. -/
theorem crop_bounds (h : GridOk grid) {range : AlignmentRange}
    (hrange : range.startTime ≤ range.endTime) :
    CropBounds grid range (cropFirst grid range) (cropLast grid range) := by
  have hstart := bucketIndex_bucketOf h range.startTime
  have hfinish := bucketIndex_bucketOf h range.endTime
  have hmono := hstart.mono h hfinish hrange
  rw [cropFirst, cropLast]
  generalize bucketIndexForTime grid range.startTime = first at hstart hmono ⊢
  generalize bucketIndexForTime grid range.endTime = last at hfinish hmono ⊢
  have hfirstLt := hstart.lt
  have hlastLt := hfinish.lt
  refine ⟨fun bucket hbucket => ?_, fun bucket hbucket => ?_, ?_, ?_, ?_⟩
  · by_cases hat : range.startTime ≤ startOf grid first
    · rw [if_pos hat]
      constructor
      · intro hbefore
        refine Nat.lt_of_not_le fun hle => ?_
        exact absurd (le_trans hat (h.startOf_mono hle)) (not_le.mpr hbefore)
      · intro hlt
        rcases hstart.from_start with hzero | hfrom
        · omega
        · exact lt_of_lt_of_le (h.startOf_lt hlt) hfrom
    · rw [if_neg hat]
      constructor
      · intro hbefore
        refine Nat.lt_of_not_le fun hle => ?_
        rcases hstart.upTo with hend | hend
        · omega
        · exact absurd (lt_of_lt_of_le hend (h.startOf_mono hle)) (lt_asymm hbefore)
      · intro hlt
        exact lt_of_le_of_lt (h.startOf_mono (Nat.le_of_lt_succ hlt)) (not_le.mp hat)
  · by_cases hfront : grid.windowStart ≤ range.endTime
    · rw [if_pos hfront]
      constructor
      · intro hupTo
        refine Nat.lt_of_not_le fun hle => ?_
        rcases hfinish.upTo with hend | hend
        · omega
        · exact absurd (lt_of_lt_of_le hend (h.startOf_mono hle)) (not_lt.mpr hupTo)
      · intro hlt
        have hle := h.startOf_mono (Nat.le_of_lt_succ hlt)
        rcases hfinish.from_start with hzero | hfrom
        · rw [hzero, startOf_zero] at hle
          exact le_trans hle hfront
        · exact le_trans hle hfrom
    · rw [if_neg hfront]
      have hzero := h.startOf_mono (Nat.zero_le bucket)
      rw [startOf_zero] at hzero
      exact ⟨fun hupTo => absurd (le_trans hzero hupTo) hfront, fun hlt => absurd hlt (Nat.not_lt_zero _)⟩
  · split <;> omega
  · split <;> omega
  · by_cases hfront : grid.windowStart ≤ range.endTime
    · rw [if_pos hfront]
      split <;> omega
    · -- a range in front of the window starts in front of the first bucket
      rw [if_neg hfront]
      have hbefore : range.startTime < grid.windowStart := lt_of_le_of_lt hrange (not_le.mp hfront)
      have hfirst : first = 0 := by
        rcases hstart.from_start with hzero | hfrom
        · exact hzero
        · refine absurd (le_trans ?_ hfrom) (not_le.mpr hbefore)
          have hzero := h.startOf_mono (Nat.zero_le first)
          rwa [startOf_zero] at hzero
      rw [hfirst, startOf_zero, if_pos hbefore.le]

/-! ## When the whole window is aligned instead -/

/-- The ends of the buckets ascend. -/
theorem endOf_mono (h : GridOk grid) {a b : Nat} (hab : a ≤ b) (hb : b < grid.bucketCount) :
    endOf grid a ≤ endOf grid b := by
  rcases Nat.eq_or_lt_of_le hab with rfl | hlt
  · exact Int.le_refl _
  · have hend := (h.endOf_bounds (lt_trans hlt hb)).2
    have hstart := h.startOf_mono (Nat.succ_le_of_lt hlt)
    exact le_trans hend (le_trans hstart (h.endOf_bounds hb).1.le)

/-- A bucket in front of another one ends where the next one starts. -/
theorem endOf_eq {bucket : Nat} (hnext : bucket + 1 < grid.bucketCount) :
    endOf grid bucket = startOf grid (bucket + 1) :=
  if_pos hnext

/-- A bucket has a point when some point lies between its start and its end. -/
theorem hasPoint_iff (h : GridOk grid) {points : List RawTimeseriesPoint} {bucket : Nat}
    (hbucket : bucket < grid.bucketCount) :
    HasPoint grid points bucket ↔
      ∃ point ∈ points, startOf grid bucket ≤ point.time ∧ point.time < endOf grid bucket := by
  constructor
  · rintro ⟨point, hpoint, hslot⟩
    refine ⟨point, hpoint, ?_⟩
    exact h.inside_sub (Nat.le_refl _) hbucket (Nat.le_refl _) (Nat.le_refl _) hslot
  · rintro ⟨point, hpoint, hstart, hend⟩
    refine ⟨point, hpoint, h.slotOf_eq_some.mpr ⟨hbucket, hstart, ?_, ?_⟩⟩
    · exact lt_of_lt_of_le hend (h.endOf_bounds hbucket).2
    · refine lt_of_lt_of_le hend ?_
      have hmono := endOf_mono h (Nat.le_sub_one_of_lt hbucket)
        (Nat.sub_lt (Nat.zero_lt_of_lt hbucket) Nat.zero_lt_one)
      rwa [endOf, endOf, Nat.sub_add_cancel (Nat.zero_lt_of_lt hbucket),
        if_neg (Nat.lt_irrefl _), ← endOf] at hmono

section Times

variable {points : List RawTimeseriesPoint}

theorem mem_pointsIn (h : Ordered RawTimeseriesPoint.time points) {start finish : Timestamp}
    {point : RawTimeseriesPoint} :
    point ∈ pointsIn start finish points ↔
      point ∈ points ∧ start ≤ point.time ∧ point.time < finish := by
  rw [pointsIn_eq h, List.mem_filter, Bool.and_eq_true, decide_eq_true_eq, decide_eq_true_eq]

theorem ordered_pointsIn (h : Ordered RawTimeseriesPoint.time points) (start finish : Timestamp) :
    Ordered RawTimeseriesPoint.time (pointsIn start finish points) := by
  rw [pointsIn_eq h]
  exact h.filter RawTimeseriesPoint.time _

theorem ordered_atOrAbove (h : Ordered RawTimeseriesPoint.time points) (time : Timestamp) :
    Ordered RawTimeseriesPoint.time (atOrAbove RawTimeseriesPoint.time time points) := by
  rw [h.atOrAbove_eq]
  exact h.filter RawTimeseriesPoint.time _

theorem below_nonempty (h : Ordered RawTimeseriesPoint.time points) {time : Timestamp} :
    (!(below RawTimeseriesPoint.time time points).isEmpty) = true ↔
      ∃ point ∈ points, point.time < time := by
  rw [h.below_eq, Bool.not_eq_true', List.isEmpty_eq_false_iff_exists_mem]
  simp only [List.mem_filter, decide_eq_true_eq]

theorem atOrAbove_nonempty (h : Ordered RawTimeseriesPoint.time points) {time : Timestamp} :
    (!(atOrAbove RawTimeseriesPoint.time time points).isEmpty) = true ↔
      ∃ point ∈ points, time ≤ point.time := by
  rw [h.atOrAbove_eq, Bool.not_eq_true', List.isEmpty_eq_false_iff_exists_mem]
  simp only [List.mem_filter, decide_eq_true_eq]

theorem mem_atOrAbove (h : Ordered RawTimeseriesPoint.time points) {time : Timestamp}
    {point : RawTimeseriesPoint} :
    point ∈ atOrAbove RawTimeseriesPoint.time time points ↔ point ∈ points ∧ time ≤ point.time := by
  rw [h.atOrAbove_eq, List.mem_filter, decide_eq_true_eq]

/-- The first point lies in front of a time when any point does. -/
theorem head_before (h : Ordered RawTimeseriesPoint.time points) {time : Timestamp} :
    (points.head?.any fun point => decide (point.time < time)) = true ↔
      ∃ point ∈ points, point.time < time := by
  cases points with
  | nil =>
      refine ⟨nofun, ?_⟩
      rintro ⟨point, hpoint, -⟩
      cases hpoint
  | cons point rest =>
      rw [List.head?_cons, Option.any_some, decide_eq_true_eq]
      constructor
      · intro hbefore
        exact ⟨point, List.mem_cons_self .., hbefore⟩
      · rintro ⟨other, hother, hbefore⟩
        rcases List.mem_cons.mp hother with rfl | hother
        · exact hbefore
        · exact lt_of_le_of_lt ((List.pairwise_cons.mp h).1 other hother) hbefore

end Times

/-- The target of a range and the bucket on each side. -/
structure Spread (grid : Grid) (buckets : RangeBuckets) : Prop where
  le : buckets.targetFirst ≤ buckets.targetLast
  lt : buckets.targetLast < grid.bucketCount
  localFirst : buckets.localFirst = buckets.targetFirst - 1
  localLast : buckets.localLast =
    if buckets.targetLast + 1 < grid.bucketCount then buckets.targetLast + 1
    else grid.bucketCount - 1

theorem Spread.bounds {buckets : RangeBuckets} (h : Spread grid buckets) :
    buckets.localFirst ≤ buckets.targetFirst ∧ buckets.targetLast ≤ buckets.localLast ∧
      buckets.localLast < grid.bucketCount := by
  obtain ⟨hle, hlt, hfirst, hlast⟩ := h
  rw [hfirst, hlast]
  split <;> omega

theorem rangeBuckets_targetFirst (grid : Grid) (range : AlignmentRange) :
    (rangeBuckets grid range).targetFirst =
      bucketIndexForTime grid range.startTime - range.prefixSamples := by
  show (if _ then _ else _ : Nat) = _
  split <;> omega

theorem rangeBuckets_targetLast (grid : Grid) (range : AlignmentRange) :
    (rangeBuckets grid range).targetLast =
      max (bucketIndexForTime grid range.startTime) (bucketIndexForTime grid range.endTime) := rfl

/-- The buckets of a range lie on the grid, with one more on each side. -/
theorem rangeBuckets_spread (h : GridOk grid) (range : AlignmentRange) :
    Spread grid (rangeBuckets grid range) where
  le := by
    rw [rangeBuckets_targetFirst, rangeBuckets_targetLast]
    omega
  lt := by
    rw [rangeBuckets_targetLast]
    exact Nat.max_lt.mpr ⟨(bucketIndex_bucketOf h _).lt, (bucketIndex_bucketOf h _).lt⟩
  localFirst := by
    show (if (rangeBuckets grid range).targetFirst = 0 then 0
      else (rangeBuckets grid range).targetFirst - 1) = _
    split <;> omega
  localLast := rfl

/-- The start of a bucket as a timestamp. -/
theorem bucketStart_getD {bucket : Nat} {otherwise : Timestamp}
    (hfits : startOf grid bucket ≤ int64Max) :
    (bucketStart grid bucket).getD otherwise = startOf grid bucket := by
  rw [bucketStart_eq_some.mpr ⟨hfits, rfl⟩, Option.getD_some]

/-- The end of a bucket, as `alignRange` computes it. -/
theorem bucketEnd_eq {bucket : Nat} (hfits : ∀ b < grid.bucketCount, startOf grid b ≤ int64Max) :
    (if bucket + 1 < grid.bucketCount then bucketStart grid (bucket + 1) else some grid.windowEnd) =
      some (endOf grid bucket) := by
  rw [endOf]
  by_cases hnext : bucket + 1 < grid.bucketCount
  · rw [if_pos hnext, if_pos hnext]
    exact bucketStart_eq_some.mpr ⟨hfits _ hnext, rfl⟩
  · rw [if_neg hnext, if_neg hnext]

section Fallback

variable {buckets : RangeBuckets} {points : List RawTimeseriesPoint}

/-- The points of the target and of one bucket on each side. -/
def localPoints (grid : Grid) (buckets : RangeBuckets) (points : List RawTimeseriesPoint) :
    List RawTimeseriesPoint :=
  pointsIn (startOf grid buckets.localFirst) (endOf grid buckets.localLast) points

theorem mem_localPoints (hordered : Ordered RawTimeseriesPoint.time points)
    {point : RawTimeseriesPoint} :
    point ∈ localPoints grid buckets points ↔ point ∈ points ∧
      startOf grid buckets.localFirst ≤ point.time ∧ point.time < endOf grid buckets.localLast :=
  mem_pointsIn hordered

theorem ordered_localPoints (hordered : Ordered RawTimeseriesPoint.time points) :
    Ordered RawTimeseriesPoint.time (localPoints grid buckets points) :=
  ordered_pointsIn hordered _ _

/-- A bucket of the local part has a point when the local points have one in its times. -/
theorem hasPoint_local (h : GridOk grid) (hspread : Spread grid buckets)
    (hordered : Ordered RawTimeseriesPoint.time points) {bucket : Nat}
    (hfirst : buckets.localFirst ≤ bucket) (hlast : bucket ≤ buckets.localLast) :
    HasPoint grid points bucket ↔ ∃ point ∈ localPoints grid buckets points,
      startOf grid bucket ≤ point.time ∧ point.time < endOf grid bucket := by
  obtain ⟨-, -, hcount⟩ := hspread.bounds
  rw [hasPoint_iff h (by omega)]
  constructor
  · rintro ⟨point, hpoint, hstart, hend⟩
    refine ⟨point, (mem_localPoints hordered).mpr ⟨hpoint, ?_, ?_⟩, hstart, hend⟩
    · exact le_trans (h.startOf_mono hfirst) hstart
    · exact lt_of_lt_of_le hend (endOf_mono h hlast hcount)
  · rintro ⟨point, hpoint, htimes⟩
    exact ⟨point, ((mem_localPoints hordered).mp hpoint).1, htimes⟩

/-- `has_left_context`: a point in the bucket in front of the target. -/
theorem left_context_iff (h : GridOk grid) (hspread : Spread grid buckets)
    (hordered : Ordered RawTimeseriesPoint.time points) (hfirst : buckets.targetFirst ≠ 0) :
    (!(below RawTimeseriesPoint.time (startOf grid buckets.targetFirst)
        (localPoints grid buckets points)).isEmpty) = true ↔
      HasPoint grid points (buckets.targetFirst - 1) := by
  obtain ⟨hlocalFirst, hlocalLast, hcount⟩ := hspread.bounds
  have hle := hspread.le
  rw [below_nonempty (ordered_localPoints hordered),
    hasPoint_local h hspread hordered (by rw [hspread.localFirst]) (by omega),
    endOf_eq (by omega), Nat.sub_add_cancel (by omega), ← hspread.localFirst]
  constructor
  · rintro ⟨point, hpoint, hbefore⟩
    exact ⟨point, hpoint, ((mem_localPoints hordered).mp hpoint).2.1, hbefore⟩
  · rintro ⟨point, hpoint, -, hbefore⟩
    exact ⟨point, hpoint, hbefore⟩

/-- `has_right_context`: a point in the bucket behind the target. -/
theorem right_context_iff (h : GridOk grid) (hspread : Spread grid buckets)
    (hordered : Ordered RawTimeseriesPoint.time points)
    (hnext : buckets.targetLast + 1 < grid.bucketCount) :
    (!(atOrAbove RawTimeseriesPoint.time (endOf grid buckets.targetLast)
        (localPoints grid buckets points)).isEmpty) = true ↔
      HasPoint grid points (buckets.targetLast + 1) := by
  have hlocal : buckets.localLast = buckets.targetLast + 1 := by
    rw [hspread.localLast, if_pos hnext]
  obtain ⟨hlocalFirst, -, -⟩ := hspread.bounds
  have hle := hspread.le
  rw [atOrAbove_nonempty (ordered_localPoints hordered),
    hasPoint_local h hspread hordered (by omega) (by omega), endOf_eq hnext, ← hlocal]
  constructor
  · rintro ⟨point, hpoint, hbehind⟩
    exact ⟨point, hpoint, hbehind, ((mem_localPoints hordered).mp hpoint).2.2⟩
  · rintro ⟨point, hpoint, hbehind, -⟩
    exact ⟨point, hpoint, hbehind⟩

/-- `has_first_target_value`: a point in the first bucket of the target. -/
theorem first_value_iff (h : GridOk grid) (hspread : Spread grid buckets)
    (hordered : Ordered RawTimeseriesPoint.time points) :
    (!(below RawTimeseriesPoint.time (endOf grid buckets.targetFirst)
        (atOrAbove RawTimeseriesPoint.time (startOf grid buckets.targetFirst)
          (localPoints grid buckets points))).isEmpty) = true ↔
      HasPoint grid points buckets.targetFirst := by
  obtain ⟨hlocalFirst, hlocalLast, -⟩ := hspread.bounds
  have hle := hspread.le
  have hlocal : Ordered RawTimeseriesPoint.time (localPoints grid buckets points) :=
    ordered_localPoints hordered
  rw [below_nonempty (ordered_atOrAbove hlocal _),
    hasPoint_local h hspread hordered hlocalFirst (by omega)]
  constructor
  · rintro ⟨point, hpoint, hend⟩
    obtain ⟨hmem, hstart⟩ := (mem_atOrAbove hlocal).mp hpoint
    exact ⟨point, hmem, hstart, hend⟩
  · rintro ⟨point, hmem, hstart, hend⟩
    exact ⟨point, (mem_atOrAbove hlocal).mpr ⟨hmem, hstart⟩, hend⟩

/-- `has_last_target_value`: a point in the last bucket of the target. -/
theorem last_value_iff (h : GridOk grid) (hspread : Spread grid buckets)
    (hordered : Ordered RawTimeseriesPoint.time points) :
    ((atOrAbove RawTimeseriesPoint.time (startOf grid buckets.targetLast)
        (localPoints grid buckets points)).head?.any
          fun point => decide (point.time < endOf grid buckets.targetLast)) = true ↔
      HasPoint grid points buckets.targetLast := by
  obtain ⟨hlocalFirst, hlocalLast, -⟩ := hspread.bounds
  have hle := hspread.le
  have hlocal : Ordered RawTimeseriesPoint.time (localPoints grid buckets points) :=
    ordered_localPoints hordered
  refine (head_before (ordered_atOrAbove hlocal _)).trans ?_
  rw [hasPoint_local h hspread hordered (by omega) hlocalLast]
  constructor
  · rintro ⟨point, hpoint, hend⟩
    obtain ⟨hmem, hstart⟩ := (mem_atOrAbove hlocal).mp hpoint
    exact ⟨point, hmem, hstart, hend⟩
  · rintro ⟨point, hmem, hstart, hend⟩
    exact ⟨point, (mem_atOrAbove hlocal).mpr ⟨hmem, hstart⟩, hend⟩

/-- The test for a full alignment, with its searches cut to the local points. -/
theorem needsFull_eq (hfits : ∀ bucket < grid.bucketCount, startOf grid bucket ≤ int64Max)
    (hspread : Spread grid buckets) (localPoints : List RawTimeseriesPoint)
    (targetStart targetEnd : Timestamp) :
    needsFullAlignment grid buckets targetStart targetEnd localPoints =
      ((decide (buckets.targetFirst ≠ 0) &&
          !(!(below RawTimeseriesPoint.time (endOf grid buckets.targetFirst)
            (atOrAbove RawTimeseriesPoint.time targetStart localPoints)).isEmpty) &&
          !(!(below RawTimeseriesPoint.time targetStart localPoints).isEmpty)) ||
        (decide (buckets.targetLast + 1 < grid.bucketCount) &&
          !((atOrAbove RawTimeseriesPoint.time (startOf grid buckets.targetLast)
              localPoints).head?.any fun point => decide (point.time < targetEnd)) &&
          !(!(atOrAbove RawTimeseriesPoint.time targetEnd localPoints).isEmpty))) := by
  have hle := hspread.le
  have hlt := hspread.lt
  have hfirstEnd : (if grid.bucketCount ≤ buckets.targetFirst + 1 then grid.windowEnd
      else (bucketStart grid (buckets.targetFirst + 1)).getD grid.windowEnd) =
        endOf grid buckets.targetFirst := by
    rw [endOf]
    by_cases hnext : buckets.targetFirst + 1 < grid.bucketCount
    · rw [if_neg (by omega), if_pos hnext, bucketStart_getD (hfits _ hnext)]
    · rw [if_pos (by omega), if_neg hnext]
  rw [needsFullAlignment, hfirstEnd, bucketStart_getD (hfits _ hlt)]
  cases atOrAbove RawTimeseriesPoint.time (startOf grid buckets.targetLast) localPoints with
  | nil => rfl
  | cons point rest => rfl

/-- The local part is used when the sequence reaches both ends of the target. -/
theorem needsFull_eq_false (h : GridOk grid)
    (hfits : ∀ bucket < grid.bucketCount, startOf grid bucket ≤ int64Max)
    (hspread : Spread grid buckets) (hordered : Ordered RawTimeseriesPoint.time points) :
    needsFullAlignment grid buckets (startOf grid buckets.targetFirst)
        (endOf grid buckets.targetLast) (localPoints grid buckets points) = false ↔
      Reaches grid points buckets.targetFirst buckets.targetLast := by
  have hfirst := first_value_iff h hspread hordered
  have hlast := last_value_iff h hspread hordered
  rw [needsFull_eq hfits hspread, Bool.or_eq_false_iff]
  simp only [Bool.and_eq_false_iff, decide_eq_false_iff_not, Bool.not_eq_false', hfirst, hlast,
    ne_eq, not_not, or_assoc]
  constructor
  · rintro ⟨hleft, hright⟩
    refine ⟨?_, ?_⟩
    · rcases hleft with hzero | hpoint | hcontext
      · exact Or.inl hzero
      · exact Or.inr (Or.inl hpoint)
      · by_cases hzero : buckets.targetFirst = 0
        · exact Or.inl hzero
        · exact Or.inr (Or.inr ((left_context_iff h hspread hordered hzero).mp hcontext))
    · rcases hright with hend | hpoint | hcontext
      · exact Or.inl (not_lt.mp hend)
      · exact Or.inr (Or.inl hpoint)
      · by_cases hnext : buckets.targetLast + 1 < grid.bucketCount
        · exact Or.inr (Or.inr ((right_context_iff h hspread hordered hnext).mp hcontext))
        · exact Or.inl (not_lt.mp hnext)
  · rintro ⟨hleft, hright⟩
    refine ⟨?_, ?_⟩
    · rcases hleft with hzero | hpoint | hcontext
      · exact Or.inl hzero
      · exact Or.inr (Or.inl hpoint)
      · by_cases hzero : buckets.targetFirst = 0
        · exact Or.inl hzero
        · exact Or.inr (Or.inr ((left_context_iff h hspread hordered hzero).mpr hcontext))
    · rcases hright with hend | hpoint | hcontext
      · exact Or.inl (not_lt.mpr hend)
      · exact Or.inr (Or.inl hpoint)
      · by_cases hnext : buckets.targetLast + 1 < grid.bucketCount
        · exact Or.inr (Or.inr ((right_context_iff h hspread hordered hnext).mpr hcontext))
        · exact Or.inl hnext

end Fallback

/-! ## The local window -/

/-- Filing fresh keys appends them. -/
theorem foldl_put_keys {κ ν : Type} [DecidableEq κ] (value : κ → ν) (keys : List κ)
    (table : Table κ ν) (hnodup : (table.keys ++ keys).Nodup) :
    (keys.foldl (fun values key => put key (value key) values) table).keys = table.keys ++ keys := by
  induction keys generalizing table with
  | nil => rw [List.foldl_nil, List.append_nil]
  | cons key keys ih =>
      have hnew : key ∉ table.keys := fun hmem =>
        (List.nodup_append.mp hnodup).2.2 key hmem key (List.mem_cons_self ..) rfl
      have hkeys : (put key (value key) table).keys = table.keys ++ [key] := if_neg hnew
      rw [List.foldl_cons, ih, hkeys, List.append_assoc, List.singleton_append]
      rw [hkeys, List.append_assoc, List.singleton_append]
      exact hnodup

/-- What a table holds after a value has been filed under each of some keys. -/
theorem foldl_put_find {κ ν : Type} [DecidableEq κ] (value : κ → ν) (keys : List κ)
    (table : Table κ ν) (key : κ) :
    (keys.foldl (fun values key => put key (value key) values) table).find key =
      if key ∈ keys then some (value key) else table.find key := by
  induction keys generalizing table with
  | nil => rw [List.foldl_nil, if_neg List.not_mem_nil]
  | cons first keys ih =>
      rw [List.foldl_cons, ih, find_put]
      by_cases hkeys : key ∈ keys
      · rw [if_pos hkeys, if_pos (List.mem_cons_of_mem _ hkeys)]
      · rw [if_neg hkeys]
        by_cases hfirst : key = first
        · rw [if_pos hfirst, if_pos (by rw [hfirst]; exact List.mem_cons_self ..), hfirst]
        · rw [if_neg hfirst, if_neg (by rw [List.mem_cons, not_or]; exact ⟨hfirst, hkeys⟩)]

section LocalWindow

variable {data : WindowData} {start finish : Timestamp}

theorem localWindow_keys :
    (localWindow data start finish).sequenceValues.keys = data.sequenceValues.keys :=
  foldl_put_keys _ data.sequenceValues.keys KeyedTable.empty data.sequenceValues.nodup

theorem localWindow_sequences : allSequences (localWindow data start finish) = allSequences data := by
  rw [allSequences, localWindow_keys, allSequences]

/-- The points of the local window. -/
theorem localWindow_points (sequenceId : SequenceId) :
    ((localWindow data start finish).sequenceValues.find sequenceId).getD [] =
      pointsIn start finish ((data.sequenceValues.find sequenceId).getD []) := by
  rw [localWindow, foldl_put_find]
  by_cases hid : sequenceId ∈ data.sequenceValues.keys
  · rw [if_pos hid, Option.getD_some]
  · have hnone : data.sequenceValues.find sequenceId = none := by
      rw [data.sequenceValues.mem_keys] at hid
      exact Option.not_isSome_iff_eq_none.mp hid
    rw [if_neg hid, hnone]
    rfl

/-- Each sequence of a window in time order is in order. -/
theorem ordered_of_inTimeOrder (h : InTimeOrder data) (sequenceId : SequenceId) :
    Ordered RawTimeseriesPoint.time ((data.sequenceValues.find sequenceId).getD []) := by
  by_cases hid : sequenceId ∈ data.sequenceValues.keys
  · exact ordered_of_timesSorted (h sequenceId hid)
  · rw [data.sequenceValues.mem_keys] at hid
    rw [Option.not_isSome_iff_eq_none.mp hid]
    exact List.Pairwise.nil

/-- A part of the points passes the tests that all of them pass. -/
theorem validateSequenceValues_sub {projectId : ProjectId} {sequenceId : SequenceId}
    {points selected : List RawTimeseriesPoint} (hsub : ∀ point ∈ selected, point ∈ points)
    (h : validateSequenceValues projectId sequenceId points = none) :
    validateSequenceValues projectId sequenceId selected = none := by
  rw [validateSequenceValues] at h ⊢
  split at h
  · cases h
  · rename_i hempty
    rw [if_neg hempty]
    split at h
    · cases h
    · rename_i hlong
      rw [if_neg hlong]
      rw [List.findSome?_eq_none_iff] at h ⊢
      exact fun point hpoint => h point (hsub point hpoint)

/-- The local window passes the checks the window passes. -/
theorem localWindow_alignable {projectId : ProjectId} (h : InTimeOrder data)
    (hle : start ≤ finish) (halignable : Alignable projectId data) :
    Alignable projectId (localWindow data start finish) where
  valid := by
    have hvalid := halignable.valid
    have horder : ¬ (localWindow data start finish).windowEndTime <
        (localWindow data start finish).windowStartTime := not_lt.mpr hle
    rw [validateWindowData] at hvalid ⊢
    rw [if_neg (by simp [localWindow]), if_neg horder, localWindow_keys]
    split at hvalid
    · cases hvalid
    · split at hvalid
      · cases hvalid
      · rw [List.findSome?_eq_none_iff] at hvalid ⊢
        intro sequenceId hid
        rw [localWindow_points]
        refine validateSequenceValues_sub (fun point hpoint => ?_) (hvalid sequenceId hid)
        exact ((mem_pointsIn (ordered_of_inTimeOrder h sequenceId)).mp hpoint).1
  order := not_lt.mpr hle
  nonempty := by
    rw [localWindow_sequences]
    exact halignable.nonempty
  distinct := by
    rw [localWindow_sequences]
    exact halignable.distinct

end LocalWindow

/-! ## The samples of the local window -/

/-- The sample of a bucket depends only on what the columns have there. -/
theorem sampleValues_congr {columns columns' : List (SequenceId × BucketValues)}
    {bucket bucket' : Nat}
    (h : List.Forall₂ (fun column column' => column.1 = column'.1 ∧
      valueAt column.2 bucket = valueAt column'.2 bucket') columns columns') :
    sampleValues columns bucket = sampleValues columns' bucket' := by
  rw [sampleValues, sampleValues]
  generalize (KeyedTable.empty : Table SequenceId TimeseriesValue) = values
  induction h generalizing values with
  | nil => rfl
  | cons hhead _ ih =>
      obtain ⟨hid, hvalue⟩ := hhead
      rw [valueAt, valueAt] at hvalue
      rw [List.foldl_cons, List.foldl_cons, hid, hvalue]
      exact ih _

/-- Choose for each pair of related elements a third one. -/
theorem forall₂_choose {α β γ : Type} {r : α → β → Prop} {s : α → γ → Prop} {t : γ → β → Prop}
    {as : List α} {bs : List β} (h : List.Forall₂ r as bs)
    (hchoose : ∀ a ∈ as, ∀ b, r a b → ∃ c, s a c ∧ t c b) :
    ∃ cs, List.Forall₂ s as cs ∧ List.Forall₂ t cs bs := by
  induction h with
  | nil => exact ⟨[], List.Forall₂.nil, List.Forall₂.nil⟩
  | cons hhead _ ih =>
      obtain ⟨c, hs, ht⟩ := hchoose _ (List.mem_cons_self ..) _ hhead
      obtain ⟨cs, hss, hts⟩ := ih fun a ha => hchoose a (List.mem_cons_of_mem _ ha)
      exact ⟨c :: cs, List.Forall₂.cons hs hss, List.Forall₂.cons ht hts⟩

theorem defaultFillMethod_ne_next (kind : SeriesKind) : defaultFillMethod kind ≠ .next := by
  cases kind <;> exact nofun

/-- A default strategy belongs to a sequence of the window and never looks ahead only. -/
theorem mem_strategies {projectId : ProjectId} {registry : RuntimeConfigRegistry}
    {data : WindowData} {strategy : SequenceId × BucketAggregation × GapFillMethod}
    (h : strategy ∈ strategies projectId registry data) :
    strategy.1 ∈ data.sequenceValues.keys ∧ strategy.2.2 ≠ .next := by
  rw [strategies, allSequences, List.map_map] at h
  obtain ⟨sequenceId, hid, rfl⟩ := List.mem_map.mp h
  exact ⟨hid, defaultFillMethod_ne_next _⟩

section Local

variable {projectId : ProjectId} {registry : RuntimeConfigRegistry} {data : WindowData}
  {interval : Int} {buckets : RangeBuckets} {columns : List (SequenceId × BucketValues)}

/-- The window of the target and one bucket on each side. -/
def targetWindow (data : WindowData) (interval : Int) (buckets : RangeBuckets) : WindowData :=
  localWindow data (startOf (gridOf data interval) buckets.localFirst)
    (endOf (gridOf data interval) buckets.localLast)

/-- Two columns of one sequence that agree on the buckets of the target. -/
def Agree (buckets : RangeBuckets) (localColumn column : SequenceId × BucketValues) : Prop :=
  localColumn.1 = column.1 ∧
    ∀ bucket, buckets.targetFirst ≤ bucket → bucket ≤ buckets.targetLast →
      valueAt localColumn.2 (bucket - buckets.localFirst) = valueAt column.2 bucket

/-- The column a strategy gives in the local window. -/
def LocalColumn (data : WindowData) (interval : Int) (buckets : RangeBuckets)
    (strategy : SequenceId × BucketAggregation × GapFillMethod)
    (column : SequenceId × BucketValues) : Prop :=
  column.1 = strategy.1 ∧
    alignSequence (subGrid (gridOf data interval) buckets.localFirst buckets.localLast)
      (targetWindow data interval buckets) (fun _ => 0) strategy.1 strategy.2.1 strategy.2.2 =
        .ok column.2

/-- The grid of the local window is a part of the grid of the window. -/
theorem gridOf_targetWindow (h : GridOk (gridOf data interval))
    (hspread : Spread (gridOf data interval) buckets) :
    gridOf (targetWindow data interval buckets) interval =
      subGrid (gridOf data interval) buckets.localFirst buckets.localLast := by
  obtain ⟨hfirst, hlast, hcount⟩ := hspread.bounds
  have hle := hspread.le
  have hcounts := (h.sub (show buckets.localFirst ≤ buckets.localLast by omega) hcount).count
  rw [gridOf, subGrid]
  exact congrArg (Grid.mk _ _ _) hcounts.symm

/-- Where the local points reach both ends of the target, the local columns are a part of the
full ones. -/
theorem local_columns (h : GridOk (gridOf data interval))
    (hspread : Spread (gridOf data interval) buckets) (hordered : InTimeOrder data)
    (hreaches : ∀ sequenceId ∈ data.sequenceValues.keys,
      Reaches (gridOf data interval) ((data.sequenceValues.find sequenceId).getD [])
        buckets.targetFirst buckets.targetLast)
    (hcolumns : alignSequences (gridOf data interval) data (fun _ => 0)
      (strategies projectId registry data) = .ok columns) :
    ∃ localColumns, alignSequences (gridOf (targetWindow data interval buckets) interval)
        (targetWindow data interval buckets) (fun _ => 0)
        (strategies projectId registry (targetWindow data interval buckets)) = .ok localColumns ∧
      List.Forall₂ (Agree buckets) localColumns columns := by
  have hchoose : ∀ strategy ∈ strategies projectId registry data, ∀ column,
      column.1 = strategy.1 ∧ alignSequence (gridOf data interval) data (fun _ => 0) strategy.1
        strategy.2.1 strategy.2.2 = .ok column.2 →
      ∃ localColumn, LocalColumn data interval buckets strategy localColumn ∧
        Agree buckets localColumn column := by
    rintro strategy hstrategy column ⟨hsequence, hfilled⟩
    obtain ⟨hid, hmethod⟩ := mem_strategies hstrategy
    obtain ⟨filled, hlocalFilled, hsame⟩ := alignSequence_slice h hspread.le hspread.lt
      hspread.localFirst hspread.localLast rfl (localWindow_points strategy.1)
      (ordered_of_inTimeOrder hordered strategy.1) (hreaches strategy.1 hid) hmethod hfilled
    exact ⟨(strategy.1, filled), ⟨rfl, hlocalFilled⟩, hsequence.symm, hsame⟩
  obtain ⟨localColumns, hlocal, hagree⟩ :=
    forall₂_choose (alignSequences_ok_iff.mp hcolumns) hchoose
  refine ⟨localColumns, ?_, hagree⟩
  rw [gridOf_targetWindow h hspread, strategies, targetWindow, localWindow_sequences]
  exact alignSequences_ok_iff.mpr hlocal

/-- The local samples of the target are those of the whole window. -/
theorem local_samples (hspread : Spread (gridOf data interval) buckets)
    {localColumns columns : List (SequenceId × BucketValues)}
    (hagree : List.Forall₂ (Agree buckets) localColumns columns) :
    (((List.range (subGrid (gridOf data interval) buckets.localFirst
        buckets.localLast).bucketCount).map
          (sampleAt (subGrid (gridOf data interval) buckets.localFirst buckets.localLast)
            localColumns)).drop (buckets.targetFirst - buckets.localFirst)).take
        (buckets.targetLast - buckets.targetFirst + 1) =
      between buckets.targetFirst (buckets.targetLast + 1)
        ((List.range (gridOf data interval).bucketCount).map
          (sampleAt (gridOf data interval) columns)) := by
  obtain ⟨hfirst, hlast, hcount⟩ := hspread.bounds
  have hle := hspread.le
  have hlt := hspread.lt
  have hlocalCount : (subGrid (gridOf data interval) buckets.localFirst
      buckets.localLast).bucketCount = buckets.localLast - buckets.localFirst + 1 := rfl
  rw [hlocalCount, between]
  refine List.ext_getElem ?_ fun i hi hi' => ?_
  · simp only [List.length_take, List.length_drop, List.length_map, List.length_range]
    omega
  · simp only [List.length_take, List.length_drop, List.length_map, List.length_range] at hi
    simp only [List.getElem_take, List.getElem_drop, List.getElem_map, List.getElem_range]
    have hbucket : buckets.targetFirst - buckets.localFirst + i =
        buckets.targetFirst + i - buckets.localFirst := by omega
    have hvalues := sampleValues_congr (hagree.imp fun localColumn column hsame =>
      ⟨hsame.1, hsame.2 (buckets.targetFirst + i) (by omega) (by omega)⟩)
    rw [sampleAt, sampleAt, hbucket, hvalues, startOf_subGrid, Nat.sub_add_cancel (by omega)]

end Local

/-! ## The range -/

section Range

variable {projectId : ProjectId} {registry : RuntimeConfigRegistry} {data : WindowData}
  {range : AlignmentRange}

/-- The grid of a window with its own interval. -/
def windowGrid (data : WindowData) : Grid :=
  gridOf data ((inferBucketInterval data (allSequences data)).getD 0)

/-- The bucket the range starts in. -/
def startBucket (data : WindowData) (range : AlignmentRange) : Nat :=
  bucketIndexForTime (windowGrid data) range.startTime

/-- The first bucket of the range and its prefix. -/
def firstAffected (data : WindowData) (range : AlignmentRange) : Nat :=
  startBucket data range - range.prefixSamples

/-- The last bucket of the range. -/
def lastAffected (data : WindowData) (range : AlignmentRange) : Nat :=
  max (startBucket data range) (bucketIndexForTime (windowGrid data) range.endTime)

/-- The range alignment succeeds with the affected samples of the full alignment. -/
def RangeExact (projectId : ProjectId) (registry : RuntimeConfigRegistry) (data : WindowData)
    (range : AlignmentRange) : Prop :=
  isSuccessful (alignRange projectId registry data range).operation.code = true ∧
    (alignRange projectId registry data range).alignedData.samples =
      between (firstAffected data range) (lastAffected data range + 1)
        (alignWindowData projectId registry data).alignedData.samples

/-- Every sequence reaches both ends of the target. -/
def AllReach (data : WindowData) (range : AlignmentRange) : Prop :=
  ∀ sequenceId ∈ data.sequenceValues.keys,
    Reaches (windowGrid data) ((data.sequenceValues.find sequenceId).getD [])
      (firstAffected data range) (lastAffected data range)

/-- A cut by the times of the samples keeps the affected buckets: the range does not lie in
    front of the window, and starts with a bucket or the prefix takes in all buckets. -/
def CutAgrees (data : WindowData) (range : AlignmentRange) : Prop :=
  data.windowStartTime ≤ range.endTime ∧
    (range.startTime ≤ startOf (windowGrid data) (startBucket data range) ∨
      startBucket data range < range.prefixSamples)

/-- A successful alignment has found an interval. -/
theorem interval_of_success
    (hfull : isSuccessful (alignWindowData projectId registry data).operation.code = true) :
    ∃ interval, inferBucketInterval data (allSequences data) = some interval := by
  cases hinfer : inferBucketInterval data (allSequences data) with
  | some interval => exact ⟨interval, rfl⟩
  | none =>
      exfalso
      rw [allSequences] at hinfer
      rw [alignWindowData] at hfull
      simp only [alignWithConfig, List.isEmpty_nil, if_true, hinfer, Option.or_none] at hfull
      split at hfull
      · cases hfull
      · split at hfull
        · cases hfull
        · split at hfull
          · cases hfull
          · split at hfull
            · cases hfull
            · split at hfull
              · cases hfull
              · cases hfull

/-- What is known of a window that can be aligned. -/
structure Setting (projectId : ProjectId) (registry : RuntimeConfigRegistry) (data : WindowData)
    (interval : Int) (columns : List (SequenceId × BucketValues)) : Prop where
  ordered : InTimeOrder data
  inferred : inferBucketInterval data (allSequences data) = some interval
  grid : GridOk (gridOf data interval)
  alignable : Alignable projectId data
  aligned : Aligned projectId registry data interval columns
    (alignWindowData projectId registry data)

/-- A full alignment that succeeds has laid out a grid and filled its columns. -/
theorem setting_of_success (hwindow : data.windowStartTime < data.windowEndTime)
    (hordered : InTimeOrder data)
    (hfull : isSuccessful (alignWindowData projectId registry data).operation.code = true) :
    ∃ interval columns, Setting projectId registry data interval columns := by
  obtain ⟨interval, hinferred⟩ := interval_of_success hfull
  have hasks : AsksFor data {} interval := ⟨rfl, hinferred, rfl⟩
  obtain ⟨halignable, columns, haligned⟩ := aligned_of_success hasks hfull
  refine ⟨interval, columns, hordered, hinferred, ?_, halignable, haligned⟩
  exact ⟨inferBucketInterval_pos hinferred, hwindow, rfl⟩

variable {interval : Int} {columns : List (SequenceId × BucketValues)}

theorem Setting.windowGrid_eq (h : Setting projectId registry data interval columns) :
    windowGrid data = gridOf data interval := by
  rw [windowGrid, h.inferred, Option.getD_some]

/-- Every point of an aligned window is filed under its sequence. -/
theorem Setting.sorted (h : Setting projectId registry data interval columns) :
    (data.sequenceValues.keys.all fun sequenceId =>
      pointsAreSorted sequenceId ((data.sequenceValues.find sequenceId).getD [])) = true := by
  refine List.all_eq_true.mpr fun sequenceId hid => ?_
  rw [pointsAreSorted, h.ordered sequenceId hid, Bool.true_and]
  refine List.all_eq_true.mpr fun point hpoint => decide_eq_true ?_
  have hvalid := h.alignable.valid
  rw [validateWindowData] at hvalid
  split at hvalid
  · cases hvalid
  · split at hvalid
    · cases hvalid
    · have hsequence := List.findSome?_eq_none_iff.mp hvalid sequenceId hid
      rw [validateSequenceValues] at hsequence
      split at hsequence
      · cases hsequence
      · split at hsequence
        · cases hsequence
        · have hvalidPoint := List.findSome?_eq_none_iff.mp hsequence point hpoint
          split at hvalidPoint
          · cases hvalidPoint
          · rename_i hid'
            simpa using hid'

/-- The result over a range: the window cut by times, or the local window. -/
theorem Setting.alignRange_eq (h : Setting projectId registry data interval columns)
    (hrange : range.startTime ≤ range.endTime) {buckets : RangeBuckets}
    (hbuckets : rangeBuckets (gridOf data interval) range = buckets) :
    alignRange projectId registry data range =
      if (data.sequenceValues.keys.any fun sequenceId =>
          needsFullAlignment (gridOf data interval) buckets
            (startOf (gridOf data interval) buckets.targetFirst)
            (endOf (gridOf data interval) buckets.targetLast)
            (localPoints (gridOf data interval) buckets
              ((data.sequenceValues.find sequenceId).getD []))) = true then
        cropFullResult range (alignWindowData projectId registry data)
      else
        cropLocalResult range buckets
          (alignWithConfig projectId registry (targetWindow data interval buckets)
            { sequences := allSequences data, bucketInterval := some interval }) := by
  have hspread : Spread (gridOf data interval) buckets := by
    rw [← hbuckets]
    exact rangeBuckets_spread h.grid range
  obtain ⟨hfirst, hlast, hcount⟩ := hspread.bounds
  have hle := hspread.le
  have hfits := h.aligned.fits
  have hstart : ∀ bucket < (gridOf data interval).bucketCount,
      bucketStart (gridOf data interval) bucket = some (startOf (gridOf data interval) bucket) :=
    fun bucket hbucket => bucketStart_eq_some.mpr ⟨hfits bucket hbucket, rfl⟩
  have hgrid : ({ windowStart := data.windowStartTime
                  windowEnd := data.windowEndTime
                  interval := interval
                  bucketCount := bucketCountOf data.windowStartTime data.windowEndTime interval } :
      Grid) = gridOf data interval := rfl
  have hnonzero : ¬ bucketCountOf data.windowStartTime data.windowEndTime interval = 0 :=
    Nat.ne_of_gt (Nat.zero_lt_of_lt hcount)
  have hpositive : ¬ interval ≤ 0 := not_le.mpr h.grid.interval_pos
  have hinferred := h.inferred
  -- the ends of the local part and of the target are timestamps
  have hend : ∀ bucket,
      (if bucket + 1 < bucketCountOf data.windowStartTime data.windowEndTime interval then
        bucketStart (gridOf data interval) (bucket + 1) else some data.windowEndTime) =
        some (endOf (gridOf data interval) bucket) := fun bucket => bucketEnd_eq hfits
  rw [allSequences] at hinferred
  rw [alignRange, if_neg (not_lt.mpr hrange), h.alignable.valid]
  simp only [hinferred, hgrid]
  rw [if_neg hpositive, h.sorted, Bool.not_true, if_neg Bool.false_ne_true, if_neg hnonzero,
    hbuckets]
  simp only [hstart buckets.localFirst (by omega), hstart buckets.targetFirst (by omega), hend]
  rfl

/-- The local window can be aligned, and gives the samples of the target. -/
theorem Setting.local_exact (h : Setting projectId registry data interval columns)
    {buckets : RangeBuckets} (hspread : Spread (gridOf data interval) buckets)
    (hreaches : ∀ sequenceId ∈ data.sequenceValues.keys,
      Reaches (gridOf data interval) ((data.sequenceValues.find sequenceId).getD [])
        buckets.targetFirst buckets.targetLast) :
    isSuccessful (cropLocalResult range buckets
        (alignWithConfig projectId registry (targetWindow data interval buckets)
          { sequences := allSequences data, bucketInterval := some interval })).operation.code =
        true ∧
      (cropLocalResult range buckets
        (alignWithConfig projectId registry (targetWindow data interval buckets)
          { sequences := allSequences data
            bucketInterval := some interval })).alignedData.samples =
        between buckets.targetFirst (buckets.targetLast + 1)
          (alignWindowData projectId registry data).alignedData.samples := by
  obtain ⟨hfirst, hlast, hcount⟩ := hspread.bounds
  have hle := hspread.le
  have hgrid := gridOf_targetWindow h.grid hspread
  have hsub := h.grid.sub (show buckets.localFirst ≤ buckets.localLast by omega) hcount
  obtain ⟨localColumns, hlocal, hagree⟩ :=
    local_columns h.grid hspread h.ordered hreaches h.aligned.aligned
  have hnonempty : ¬ (allSequences data).isEmpty = true := by
    rw [h.alignable.nonempty]
    exact Bool.false_ne_true
  have hasks : AsksFor (targetWindow data interval buckets)
      { sequences := allSequences data, bucketInterval := some interval } interval := by
    refine ⟨?_, rfl, ?_⟩
    · rw [if_neg hnonempty]
      exact localWindow_sequences.symm
    · rw [Option.any_some]
      exact decide_eq_false (not_le.mpr h.grid.interval_pos)
  have halignable : Alignable projectId (targetWindow data interval buckets) :=
    localWindow_alignable h.ordered hsub.nonempty.le h.alignable
  have hfits : ∀ bucket < (gridOf (targetWindow data interval buckets) interval).bucketCount,
      startOf (gridOf (targetWindow data interval buckets) interval) bucket ≤ int64Max := by
    intro bucket hbucket
    rw [hgrid] at hbucket ⊢
    have hlt : bucket < buckets.localLast - buckets.localFirst + 1 := hbucket
    rw [startOf_subGrid]
    exact h.aligned.fits _ (by omega)
  have haligned := aligned_of_columns hasks halignable hlocal hfits
  have hsamples := haligned.samples
  rw [hgrid] at hsamples
  generalize alignWithConfig projectId registry (targetWindow data interval buckets)
    { sequences := allSequences data, bucketInterval := some interval } = result at *
  -- the local window has buckets, so that there is something to cut
  have hsome : result.alignedData.samples.isEmpty = false := by
    rw [hsamples, List.isEmpty_map, List.isEmpty_eq_false_iff, Ne, List.range_eq_nil]
    exact Nat.succ_ne_zero _
  have hkeep : ¬ (!isSuccessful result.operation.code || result.alignedData.samples.isEmpty) =
      true := by
    rw [haligned.success, hsome]
    exact Bool.false_ne_true
  rw [cropLocalResult, if_neg hkeep, h.aligned.samples, ← local_samples hspread hagree, ← hsamples]
  exact ⟨rfl, rfl⟩

theorem between_firstLast {first last first' last' : Nat} {samples : List AlignedSample}
    (hlast : last ≤ samples.length) (hlast' : last' ≤ samples.length)
    (h : between first last samples = between first' last' samples) :
    last - first = last' - first' := by
  have hlength := congrArg List.length h
  rwa [between_length hlast, between_length hlast'] at hlength

/-- The cut by times keeps the affected buckets exactly when `CutAgrees`. -/
theorem Setting.cut_exact (h : Setting projectId registry data interval columns)
    (hrange : range.startTime ≤ range.endTime) :
    (isSuccessful (cropFullResult range
        (alignWindowData projectId registry data)).operation.code = true ∧
      (cropFullResult range (alignWindowData projectId registry data)).alignedData.samples =
        between (firstAffected data range) (lastAffected data range + 1)
          (alignWindowData projectId registry data).alignedData.samples) ↔
      CutAgrees data range := by
  have hbounds := crop_bounds h.grid hrange
  obtain ⟨hsuccess, hsamples⟩ :=
    cropFullResult_samples hbounds h.aligned.success h.aligned.samples
  have hstart := bucketIndex_bucketOf h.grid range.startTime
  have hfinish := bucketIndex_bucketOf h.grid range.endTime
  have hmono := hstart.mono h.grid hfinish hrange
  have hstartLt := hstart.lt
  have hfinishLt := hfinish.lt
  have hcropFirst : cropFirst (gridOf data interval) range =
      if range.startTime ≤ startOf (gridOf data interval) (startBucket data range) then
        startBucket data range else startBucket data range + 1 := by
    rw [cropFirst, startBucket, h.windowGrid_eq]
  have hcropLast : cropLast (gridOf data interval) range =
      if data.windowStartTime ≤ range.endTime then lastAffected data range + 1 else 0 := by
    rw [cropLast, lastAffected, startBucket, h.windowGrid_eq, Nat.max_eq_right hmono]
    rfl
  have hlength : (alignWindowData projectId registry data).alignedData.samples.length =
      (gridOf data interval).bucketCount := by
    rw [h.aligned.samples, List.length_map, List.length_range]
  have hlast : lastAffected data range + 1 ≤ (gridOf data interval).bucketCount := by
    rw [lastAffected, startBucket, h.windowGrid_eq, Nat.max_eq_right hmono]
    exact hfinishLt
  have hle : startBucket data range ≤ lastAffected data range := Nat.le_max_left _ _
  rw [hsamples, CutAgrees, h.windowGrid_eq, firstAffected]
  refine (and_iff_right hsuccess).trans ?_
  constructor
  · intro hsame
    have hcount := between_firstLast (by rw [hlength]; exact hbounds.last_le)
      (by rw [hlength]; exact hlast) hsame
    rw [hcropFirst, hcropLast] at hcount
    by_cases hfront : data.windowStartTime ≤ range.endTime
    · refine ⟨hfront, ?_⟩
      by_cases hat : range.startTime ≤ startOf (gridOf data interval) (startBucket data range)
      · exact Or.inl hat
      · rw [if_pos hfront, if_neg hat] at hcount
        exact Or.inr (by omega)
    · rw [if_neg hfront] at hcount
      omega
  · rintro ⟨hfront, hagree⟩
    rw [hcropFirst, hcropLast, if_pos hfront]
    by_cases hat : range.startTime ≤ startOf (gridOf data interval) (startBucket data range)
    · rw [if_pos hat]
    · rw [if_neg hat]
      have hprefix : startBucket data range < range.prefixSamples := hagree.resolve_left hat
      rw [Nat.sub_eq_zero_of_le hprefix, Nat.sub_eq_zero_of_le hprefix.le]

/-- **A RANGE IS A PART OF THE WINDOW.**  For a window in time order that aligns, the
    range alignment gives the affected buckets of the whole alignment exactly when every
    sequence reaches both ends of the target, or the cut by times agrees with the
    buckets. -/
theorem range_alignment_iff (hwindow : data.windowStartTime < data.windowEndTime)
    (hordered : InTimeOrder data) (hrange : range.startTime ≤ range.endTime)
    (hfull : isSuccessful (alignWindowData projectId registry data).operation.code = true) :
    RangeExact projectId registry data range ↔ AllReach data range ∨ CutAgrees data range := by
  obtain ⟨interval, columns, h⟩ := setting_of_success hwindow hordered hfull
  have hspread := rangeBuckets_spread h.grid range
  have hfirst : (rangeBuckets (gridOf data interval) range).targetFirst =
      firstAffected data range := by
    rw [rangeBuckets_targetFirst, firstAffected, startBucket, h.windowGrid_eq]
  have hlast : (rangeBuckets (gridOf data interval) range).targetLast =
      lastAffected data range := by
    rw [rangeBuckets_targetLast, lastAffected, startBucket, h.windowGrid_eq]
  have hneeds : (data.sequenceValues.keys.any fun sequenceId =>
      needsFullAlignment (gridOf data interval) (rangeBuckets (gridOf data interval) range)
        (startOf (gridOf data interval) (rangeBuckets (gridOf data interval) range).targetFirst)
        (endOf (gridOf data interval) (rangeBuckets (gridOf data interval) range).targetLast)
        (localPoints (gridOf data interval) (rangeBuckets (gridOf data interval) range)
          ((data.sequenceValues.find sequenceId).getD []))) = false ↔ AllReach data range := by
    rw [List.any_eq_false, AllReach, h.windowGrid_eq, ← hfirst, ← hlast]
    refine forall₂_congr fun sequenceId _ => ?_
    rw [Bool.not_eq_true]
    exact needsFull_eq_false h.grid h.aligned.fits hspread
      (ordered_of_inTimeOrder h.ordered sequenceId)
  rw [RangeExact, h.alignRange_eq hrange rfl]
  by_cases hreach : AllReach data range
  · rw [hneeds.mpr hreach, if_neg Bool.false_ne_true]
    refine iff_of_true ?_ (Or.inl hreach)
    rw [← hfirst, ← hlast]
    refine h.local_exact hspread fun sequenceId hid => ?_
    have hreaches := hreach sequenceId hid
    rwa [h.windowGrid_eq, ← hfirst, ← hlast] at hreaches
  · -- one sequence does not reach an end: the window is cut
    have hfullCut := (Bool.eq_false_iff.not.mp fun hfalse => hreach (hneeds.mp hfalse))
    rw [if_pos (not_not.mp hfullCut), h.cut_exact hrange]
    exact (or_iff_right hreach).symm

end Range

/-! ## A window with a gap -/

instance (data : WindowData) : Decidable (InTimeOrder data) :=
  inferInstanceAs (Decidable (∀ sequenceId ∈ data.sequenceValues.keys,
    timesSorted (((data.sequenceValues.find sequenceId).getD []).map RawTimeseriesPoint.time) =
      true))

/-- One sequence with points at 0, 10 and 90: ten buckets, of which three have a point. -/
def sparseWindow : WindowData where
  windowStartTime := 0
  windowEndTime := 100
  sequenceValues := put "temperature-1"
    [{ time := 0, sequenceId := "temperature-1", value := .int64 1 },
     { time := 10, sequenceId := "temperature-1", value := .int64 2 },
     { time := 90, sequenceId := "temperature-1", value := .int64 3 }] KeyedTable.empty

/-- A range that starts with a bucket is cut as the buckets are. -/
theorem range_alignment_iff_at_bucket :
    RangeExact "" {} sparseWindow { startTime := 50, endTime := 55 } :=
  (range_alignment_iff (by decide) (by decide +kernel) (by decide) (by decide +kernel)).mpr
    (Or.inr ⟨by decide, Or.inl (by decide +kernel)⟩)

/-- The range from 45 to 55 lies in the buckets at 40 and 50; the cut by times keeps only
    the one at 50. -/
theorem range_inside_bucket_loses_it :
    validateWindowData "" sparseWindow = none ∧
      sparseWindow.windowStartTime < sparseWindow.windowEndTime ∧ InTimeOrder sparseWindow ∧
      isSuccessful (alignWindowData "" {} sparseWindow).operation.code = true ∧
      ¬ RangeExact "" {} sparseWindow { startTime := 45, endTime := 55 } := by
  refine ⟨by decide +kernel, by decide, by decide +kernel, by decide +kernel, ?_⟩
  rintro ⟨-, hsamples⟩
  have hlength := congrArg List.length hsamples
  have hone : (alignRange "" {} sparseWindow
      { startTime := 45, endTime := 55 }).alignedData.samples.length = 1 := by decide +kernel
  have htwo : (between (firstAffected sparseWindow { startTime := 45, endTime := 55 })
      (lastAffected sparseWindow { startTime := 45, endTime := 55 } + 1)
      (alignWindowData "" {} sparseWindow).alignedData.samples).length = 2 := by decide +kernel
  omega

end AffectedRange
