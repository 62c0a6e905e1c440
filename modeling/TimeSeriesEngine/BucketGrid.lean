import Mathlib.Data.Rat.Floor
import TimeSeriesEngine.BucketArithmetic

/-!
# The bucket grid is exact

Over the whole range of 64-bit timestamps the machine arithmetic of a full alignment lays
the grid out as rational arithmetic does: as many buckets as the span divided by the
interval, rounded up, and each time in the bucket of its quotient, rounded down.

* `exactGrid_of_window` — counts, times and indices;
* `addPoints64_placed` — every point inside the window lands in its bucket;
* `alignWithRelations_message` — no call reports an overflow of a bucket time;
* `bucket_grid_exact` — the whole call.
-/

namespace BucketGrid

open TseTypes KeyedTable ConstraintCheck Registry HotWindow SeqAlignment GapFilling GridSlice
open RangeAlignment RelationAlignment MachineIntegers BucketArithmetic

/-- What the machine computes for the buckets of a window, as rational arithmetic has it. -/
structure ExactGrid (windowStart windowEnd : Timestamp) (interval : Int) : Prop where
  count : ((bucketCount64 windowStart windowEnd interval).toNat : Int) =
    ⌈((windowEnd - windowStart : Int) : ℚ) / interval⌉
  time : ∀ i < (bucketCount64 windowStart windowEnd interval).toNat,
    bucketTime64 windowStart interval i = some (some (windowStart + i * interval))
  increasing : ∀ i j : Nat, i < j → windowStart + i * interval < windowStart + j * interval
  inside : ∀ i < (bucketCount64 windowStart windowEnd interval).toNat,
    windowStart + i * interval < windowEnd
  index : ∀ t, windowStart ≤ t → t < windowEnd →
    ((bucketIndex64 windowStart t interval).toNat : Int) =
        ⌊((t - windowStart : Int) : ℚ) / interval⌋ ∧
      (bucketIndex64 windowStart t interval).toNat <
        (bucketCount64 windowStart windowEnd interval).toNat

section Window

variable {grid : Grid}

/-- The number of buckets: the span by the interval, rounded up. -/
theorem bucketCount_ceil (h : Grid64 grid) :
    (grid.bucketCount : Int) = ⌈((grid.windowEnd - grid.windowStart : Int) : ℚ) / grid.interval⌉ := by
  have hpos : (0 : ℚ) < grid.interval := Int.cast_pos.mpr h.positive
  refine (Int.ceil_eq_iff.mpr ⟨?_, ?_⟩).symm
  · -- the last bucket starts inside the window
    rw [lt_div_iff₀ hpos]
    have hlast : ((grid.bucketCount : Int) - 1) * grid.interval <
        grid.windowEnd - grid.windowStart := by
      rcases Nat.eq_zero_or_pos grid.bucketCount with hzero | hbucket
      · rw [hzero]
        have horder := h.order
        have hinterval := h.positive
        dsimp only [Timestamp] at *
        push_cast
        omega
      · have hlt := (h.ok hbucket).last.2.1
        have hcast : ((grid.bucketCount - 1 : Nat) : Int) = (grid.bucketCount : Int) - 1 := by
          omega
        rw [startOf, hcast] at hlt
        dsimp only [Timestamp] at *
        omega
    exact_mod_cast hlast
  · -- it reaches the end
    rw [div_le_iff₀ hpos]
    have hreach : grid.windowEnd - grid.windowStart ≤ (grid.bucketCount : Int) * grid.interval := by
      rcases Nat.eq_zero_or_pos grid.bucketCount with hzero | hbucket
      · by_contra hlt
        have hnonempty : grid.windowStart < grid.windowEnd := by
          rw [hzero] at hlt
          dsimp only [Timestamp] at *
          omega
        have hlast := (GridOk.mk h.positive hnonempty h.count).last.1
        omega
      · have hle := (h.ok hbucket).last.2.2
        rw [startOf] at hle
        dsimp only [Timestamp] at *
        omega
    exact_mod_cast hreach

/-- The quotient of a time inside the window is the number of a bucket. -/
theorem quotient_lt_count (h : Grid64 grid) {t : Timestamp} (hlow : grid.windowStart ≤ t)
    (hhigh : t < grid.windowEnd) :
    ((t - grid.windowStart) / grid.interval).toNat < grid.bucketCount := by
  have hok : GridOk grid := ⟨h.positive, lt_of_le_of_lt hlow hhigh, h.count⟩
  have hlast := hok.last.2.2
  have hlt : (t - grid.windowStart) / grid.interval < grid.bucketCount := by
    refine Int.ediv_lt_of_lt_mul h.positive ?_
    rw [startOf] at hlast
    dsimp only [Timestamp] at *
    omega
  have hnonneg : 0 ≤ (t - grid.windowStart) / grid.interval :=
    Int.ediv_nonneg (Int.sub_nonneg_of_le hlow) (le_of_lt h.positive)
  exact (Int.toNat_lt hnonneg).mpr hlt

/-- The whole part of a quotient. -/
theorem floor_quotient {interval : Int} (hpos : 0 < interval) (n : Int) :
    ⌊(n : ℚ) / interval⌋ = n / interval := by
  obtain ⟨d, rfl⟩ := Int.eq_ofNat_of_zero_le (le_of_lt hpos)
  exact Rat.floor_intCast_div_natCast n d

/-- A time lies in the bucket of its quotient. -/
theorem slotOf_eq_some_iff (h : Grid64 grid) {t : Timestamp} {k : Nat} :
    slotOf grid t = some k ↔ grid.windowStart ≤ t ∧ t < grid.windowEnd ∧
      ⌊((t - grid.windowStart : Int) : ℚ) / grid.interval⌋ = k := by
  rw [floor_quotient h.positive, slotOf]
  by_cases hout : t < grid.windowStart ∨ grid.windowEnd ≤ t
  · rw [if_pos hout]
    constructor
    · intro h
      cases h
    rintro ⟨hlow, hhigh, -⟩
    rcases hout with hlt | hge
    · exact absurd hlow (not_le.mpr hlt)
    · exact absurd hhigh (not_lt.mpr hge)
  · obtain ⟨hlow, hhigh⟩ := not_or.mp hout
    have hlow := not_lt.mp hlow
    have hhigh := not_le.mp hhigh
    have hnonneg : 0 ≤ (t - grid.windowStart) / grid.interval :=
      Int.ediv_nonneg (Int.sub_nonneg_of_le hlow) (le_of_lt h.positive)
    rw [if_neg hout, if_neg (Nat.not_le.mpr (quotient_lt_count h hlow hhigh)), Option.some.injEq]
    constructor
    · rintro rfl
      exact ⟨hlow, hhigh, (Int.toNat_of_nonneg hnonneg).symm⟩
    · rintro ⟨-, -, hquotient⟩
      rw [hquotient]
      exact Int.toNat_natCast k

end Window

/-- The grid of a window of 64-bit times is exact. -/
theorem exactGrid_of_window {data : WindowData} (h : Data64 data)
    (horder : data.windowStartTime ≤ data.windowEndTime) {interval : Int} (hpos : 0 < interval)
    (hinterval : Signed 64 interval) :
    ExactGrid data.windowStartTime data.windowEndTime interval := by
  obtain ⟨-, hgrid⟩ := grid64_of_data h horder hpos hinterval
  have hcount : (bucketCount64 data.windowStartTime data.windowEndTime interval).toNat =
      (gridOf data interval).bucketCount :=
    bucketCount64_toNat h.start h.finish horder hpos hinterval
  refine ⟨?_, fun i hi => ?_, fun i j hij => ?_, fun i hi => ?_, fun t hlow hhigh => ?_⟩
  · rw [hcount]
    exact bucketCount_ceil hgrid
  · rw [hcount] at hi
    exact hgrid.bucketTime64_eq hi
  · have hmul : (i : Int) * interval < j * interval :=
      Int.mul_lt_mul_of_pos_right (Int.ofNat_lt.mpr hij) hpos
    dsimp only [Timestamp] at *
    omega
  · rw [hcount] at hi
    exact hgrid.startOf_lt hi
  · have htime : Signed 64 t := h.start.between h.finish hlow (le_of_lt hhigh)
    have hnonneg : 0 ≤ (t - data.windowStartTime) / interval :=
      Int.ediv_nonneg (Int.sub_nonneg_of_le hlow) (le_of_lt hpos)
    rw [bucketIndex64_toNat h.start htime hlow hpos hinterval, hcount, floor_quotient hpos]
    exact ⟨Int.toNat_of_nonneg hnonneg, quotient_lt_count hgrid hlow hhigh⟩

/-- The point, moved by the lag, lies in the window and in the bucket of its quotient. -/
def InQuotient (windowStart windowEnd : Timestamp) (interval lag : Int) (k : Nat)
    (point : RawTimeseriesPoint) : Prop :=
  windowStart ≤ point.time + lag ∧ point.time + lag < windowEnd ∧
    ⌊((point.time + lag - windowStart : Int) : ℚ) / interval⌋ = k

instance (windowStart windowEnd : Timestamp) (interval lag : Int) (k : Nat)
    (point : RawTimeseriesPoint) :
    Decidable (InQuotient windowStart windowEnd interval lag k point) :=
  inferInstanceAs (Decidable (_ ∧ _ ∧ _))

/-- Each bucket accumulates the points of its quotient, all of them and in their order. -/
theorem addPoints64_placed {data : WindowData} (h : Data64 data)
    (horder : data.windowStartTime ≤ data.windowEndTime) {interval : Int} (hpos : 0 < interval)
    (hinterval : Signed 64 interval) {sequenceId : SequenceId} {aggregation : BucketAggregation}
    {lag : Int} (hlag : Signed 64 lag) {points : List RawTimeseriesPoint}
    (hpoints : ∀ point ∈ points, Signed 64 point.time) {buckets : Nat → Option BucketAccumulator}
    (hplaced : addPoints64 (gridOf64 data interval) sequenceId aggregation lag points
      (fun _ => none) = some (.ok buckets)) (k : Nat) :
    accumulate aggregation (points.filter fun point => decide
        (InQuotient data.windowStartTime data.windowEndTime interval lag k point)) none =
      .ok (buckets k) := by
  obtain ⟨hgridEq, hgrid⟩ := grid64_of_data h horder hpos hinterval
  rw [hgridEq, addPoints64_eq hgrid hlag hpoints] at hplaced
  have hall := (addPoints_shift_ok_iff.mp (Option.some.inj hplaced)).2 k
  rw [← hall]
  refine congrArg (fun list => accumulate aggregation list none) (List.filter_congr fun point _ => ?_)
  exact decide_eq_decide.mpr (slotOf_eq_some_iff hgrid).symm

/-! ## The overflow of a bucket time -/

/-- What a call says when the time of a bucket leaves the range. -/
def overflowMessage : String := "alignment bucket time overflowed timestamp range"

/-- A text that begins otherwise. -/
theorem append_ne {pre message : String} (h : hasPrefix pre message = false) (rest : String) :
    pre ++ rest ≠ message := by
  intro e
  have hprefix := hasPrefix_append pre rest
  rw [e, h] at hprefix
  cases hprefix

theorem validateValue_message {value : TimeseriesValue} :
    validateValue value ≠ some overflowMessage := by
  cases value with
  | double d =>
      rw [validateValue]
      split <;> decide
  | string s =>
      rw [validateValue]
      split <;> decide
  | int64 n => exact nofun
  | bool b => exact nofun

theorem validateRawPoint_message {p : ProjectId} {point : RawTimeseriesPoint} :
    validateRawPoint p point ≠ some overflowMessage := by
  rw [validateRawPoint, validatePoint]
  split
  · decide
  split
  · decide
  split
  · decide
  · exact validateValue_message

theorem validateWindowData_message {p : ProjectId} {data : WindowData} :
    validateWindowData p data ≠ some overflowMessage := by
  rw [validateWindowData]
  split
  · decide
  split
  · decide
  · intro hfound
    obtain ⟨s, -, hs⟩ := List.exists_of_findSome?_eq_some hfound
    rw [validateSequenceValues] at hs
    split at hs
    · exact absurd hs (by decide)
    split at hs
    · exact absurd hs (by decide)
    obtain ⟨point, -, hpoint⟩ := List.exists_of_findSome?_eq_some hs
    split at hpoint
    · exact absurd hpoint (by decide)
    · exact validateRawPoint_message hpoint

theorem sequencesError_message {sequences : List SequenceAlignmentConfig} {seen : List SequenceId} :
    sequencesError sequences seen ≠ some overflowMessage := by
  induction sequences generalizing seen with
  | nil => exact nofun
  | cons sequence sequences ih =>
      rw [sequencesError]
      split
      · decide
      split
      · exact fun h => append_ne (by decide) _ (Option.some.inj h)
      · exact ih

/-- Reading the lags of a relation gives other errors. -/
theorem sourceShifts_message {configured : List SequenceId} {target : SequenceId}
    {sources : List RuntimeRelationSource} {seen : List SequenceId}
    {shifts : Table SequenceId Int} {operation : OperationResult}
    (h : sourceShifts configured target sources seen shifts = .error operation) :
    operation.message ≠ overflowMessage := by
  induction sources generalizing seen shifts with
  | nil => cases h
  | cons source rest ih =>
      rw [sourceShifts] at h
      split at h
      · cases h
        exact append_ne (by decide) _
      split at h
      · cases h
        exact append_ne (by decide) _
      split at h
      · cases h
        exact append_ne (by decide) _
      split at h
      · split at h
        · cases h
          exact append_ne (by decide) _
        · exact ih h
      · cases h
        decide

/-- Reading the relations gives other errors. -/
theorem relationShifts_message {configured : List SequenceId}
    {relations : List RuntimeRelationConfig} {relationIds : List String}
    {targets : List SequenceId} {shifts : Table SequenceId Int} {operation : OperationResult}
    (h : relationShifts configured relations relationIds targets shifts = .error operation) :
    operation.message ≠ overflowMessage := by
  induction relations generalizing relationIds targets shifts with
  | nil => cases h
  | cons relation rest ih =>
      rw [relationShifts] at h
      -- no check of a relation has the text of an overflow
      split at h
      · cases h
        exact append_ne (by decide) _
      split at h
      · cases h
        decide
      split at h
      · cases h
        exact append_ne (by decide) _
      split at h
      · cases h
        exact append_ne (by decide) _
      split at h
      · cases h
        exact append_ne (by decide) _
      split at h
      · cases h
        exact append_ne (by decide) _
      split at h
      · rename_i hsources
        cases h
        exact sourceShifts_message hsources
      · exact ih h

theorem addToBucket_message {bucket : Option BucketAccumulator} {point : RawTimeseriesPoint}
    {aggregation : BucketAggregation} :
    addToBucket bucket point aggregation ≠ .error overflowMessage := by
  rw [addToBucket]
  simp only
  split
  · exact fun h => absurd (Except.error.inj h) (by decide)
  · intro h
    cases bucket with
    | none => cases h
    | some old => cases h

theorem addPoints_message {grid : Grid} {sequenceId : SequenceId}
    {aggregation : BucketAggregation} {shift : Int} {points : List RawTimeseriesPoint}
    {buckets : Nat → Option BucketAccumulator} :
    addPoints grid sequenceId aggregation shift points buckets ≠ .error overflowMessage := by
  induction points generalizing buckets with
  | nil => exact nofun
  | cons point points ih =>
      rw [addPoints]
      split
      · exact fun h => absurd (Except.error.inj h) (by decide)
      split
      · exact fun h => absurd (Except.error.inj h) (by decide)
      split
      · exact ih
      simp only
      split
      · exact ih
      split
      · rename_i herror
        intro h
        rw [Except.error.inj h] at herror
        exact addToBucket_message herror
      · exact ih

/-- Filling a column gives other errors, when filling a bucket does. -/
theorem fillFrom_message {fill : Nat → Except String (Option TimeseriesValue)}
    (hfill : ∀ index, fill index ≠ .error overflowMessage) {index : Nat} {values : BucketValues} :
    fillFrom fill index values ≠ .error overflowMessage := by
  induction values generalizing index with
  | nil =>
      intro h
      cases h
  | cons value values ih =>
      rw [fillFrom]
      split
      · rename_i herror
        intro h
        rw [Except.error.inj h] at herror
        split at herror
        · cases herror
        · exact hfill index herror
      · split
        · rename_i herror
          intro h
          rw [Except.error.inj h] at herror
          exact ih herror
        · intro h
          cases h

theorem fillValues_message {values : BucketValues} {fillMethod : GapFillMethod} :
    fillValues values fillMethod ≠ .error overflowMessage := by
  cases fillMethod with
  | near => exact fillFrom_message fun index h => (by cases h)
  | previous => exact fun h => (by cases h)
  | next => exact fun h => (by cases h)
  | linear =>
      refine fillFrom_message fun index => ?_
      rw [linearAt]
      split
      · split
        · exact fun h => (by cases h)
        · exact fun h => absurd (Except.error.inj h) (by decide)
      · exact fun h => (by cases h)

theorem alignSequences_message {grid : Grid} {data : WindowData} {shift : SequenceId → Int}
    {strategies : List (SequenceId × BucketAggregation × GapFillMethod)} :
    alignSequences grid data shift strategies ≠ .error overflowMessage := by
  induction strategies with
  | nil =>
      intro h
      cases h
  | cons strategy strategies ih =>
      obtain ⟨sequenceId, aggregation, fillMethod⟩ := strategy
      rw [alignSequences]
      split
      · rename_i herror
        intro h
        rw [Except.error.inj h, alignSequence] at herror
        split at herror
        · rename_i hadd
          rw [Except.error.inj herror] at hadd
          exact addPoints_message hadd
        · exact fillValues_message herror
      · split
        · rename_i herror
          intro h
          rw [Except.error.inj h] at herror
          exact ih herror
        · intro h
          cases h

/-- No call reports that the time of a bucket overflowed. -/
theorem alignWithRelations_message (projectId : ProjectId) (registry : RuntimeConfigRegistry)
    {data : WindowData} (h : Data64 data) {requested : AlignmentConfig}
    (hrequested : ∀ interval ∈ requested.bucketInterval, Signed 64 interval)
    (relations : List RuntimeRelationConfig) :
    (alignWithRelations projectId registry data requested relations).operation.message ≠
      overflowMessage := by
  generalize hresult : alignWithRelations projectId registry data requested relations = result
  simp only [alignWithRelations] at hresult
  split at hresult
  · rename_i herror
    rw [← hresult]
    exact fun e => validateWindowData_message (herror.trans (congrArg some e))
  split at hresult
  · rw [← hresult]
    exact ne_of_beq_false rfl
  rename_i horder
  split at hresult
  · rw [← hresult]
    exact ne_of_beq_false rfl
  split at hresult
  · rename_i herror
    rw [← hresult]
    exact fun e => sequencesError_message (herror.trans (congrArg some e))
  split at hresult
  · rename_i herror
    rw [← hresult]
    exact relationShifts_message herror
  split at hresult
  · rw [← hresult]
    exact ne_of_beq_false rfl
  rename_i hpositive
  split at hresult
  · rw [← hresult]
    exact ne_of_beq_false rfl
  rename_i hinterval
  -- past the checks the grid stands, and no sample overflows
  obtain ⟨hpos, hsigned⟩ := interval_of_call h hrequested hpositive hinterval
  obtain ⟨-, hgrid⟩ := grid64_of_data h (not_lt.mp horder) hpos hsigned
  split at hresult
  · rename_i herror
    rw [← hresult]
    exact fun e => alignSequences_message (herror.trans (congrArg Except.error e))
  rw [samplesFrom_grid hgrid] at hresult
  simp only at hresult
  split at hresult
  · rw [← hresult]
    exact ne_of_beq_false rfl
  rw [← hresult]
  simp only
  split
  · exact ne_of_beq_false rfl
  · exact ne_of_beq_false rfl

/-! ## The whole call -/

/-- **The bucket grid is exact.**  For every window, interval and lags of 64-bit values, the
    call is defined and loses nothing to a wrap; its buckets are counted, timed and found as
    in rational arithmetic; every point goes to the bucket of its moved time; and no bucket
    time overflows. -/
theorem bucket_grid_exact (projectId : ProjectId) (registry : RuntimeConfigRegistry)
    {data : WindowData} (h : Data64 data) (horder : data.windowStartTime ≤ data.windowEndTime)
    {requested : AlignmentConfig}
    (hrequested : ∀ asked ∈ requested.bucketInterval, Signed 64 asked) {interval : Int}
    (hinterval : requested.bucketInterval.or
      (inferBucketInterval data (requestedSequences data requested)) = some interval)
    (hpos : 0 < interval) {relations : List RuntimeRelationConfig} (hlags : Lags64 relations) :
    ExactGrid data.windowStartTime data.windowEndTime interval ∧
    (∀ (sequenceId : SequenceId) (aggregation : BucketAggregation)
        (buckets : Nat → Option BucketAccumulator),
      addPoints64 (gridOf64 data interval) sequenceId aggregation (lagOf relations sequenceId)
          ((data.sequenceValues.find sequenceId).getD []) (fun _ => none) = some (.ok buckets) →
        ∀ k, accumulate aggregation
            (((data.sequenceValues.find sequenceId).getD []).filter fun point =>
              decide (InQuotient data.windowStartTime data.windowEndTime interval
                (lagOf relations sequenceId) k point)) none = .ok (buckets k)) ∧
    alignWithRelations64 projectId registry data requested relations =
      some (alignWithRelations projectId registry data requested relations) ∧
    (alignWithRelations projectId registry data requested relations).operation.message ≠
      overflowMessage ∧
    (isSuccessful (alignWithRelations projectId registry data requested
        relations).operation.code = true →
      (alignWithRelations projectId registry data requested relations).alignedData.samples.map
          AlignedSample.time =
        (List.range (bucketCount64 data.windowStartTime data.windowEndTime interval).toNat).map
          fun (i : Nat) => data.windowStartTime + i * interval) := by
  -- an interval that was asked for is the one in use, so that it is positive
  have hpositive : ¬ (requested.bucketInterval.any fun asked => decide (asked ≤ 0)) = true := by
    cases hasked : requested.bucketInterval with
    | none => exact nofun
    | some asked =>
        rw [hasked, Option.some_or] at hinterval
        obtain rfl := Option.some.inj hinterval
        simpa using hpos
  have hsigned := (interval_of_call h hrequested hpositive hinterval).2
  refine ⟨exactGrid_of_window h horder hpos hsigned, fun sequenceId aggregation buckets hplaced k =>
    addPoints64_placed h horder hpos hsigned (hlags.lagOf sequenceId) (h.pointsOf sequenceId)
      hplaced k,
    alignWithRelations64_eq projectId registry h hrequested hlags,
    alignWithRelations_message projectId registry h hrequested relations, fun hsuccess => ?_⟩
  obtain ⟨found, columns, haligned⟩ := shiftAligned_of_success hsuccess
  obtain rfl : interval = found := Option.some.inj (hinterval.symm.trans haligned.asked)
  rw [haligned.samples, List.map_map, bucketCount64_toNat h.start h.finish horder hpos hsigned]
  rfl

/-- A window over the whole range of timestamps, with a point at either end. -/
def wideWindow : WindowData :=
  { windowStartTime := int64Min
    windowEndTime := int64Max
    sequenceValues := put "s" [⟨int64Min, "s", .int64 1, ""⟩, ⟨int64Max - 1, "s", .int64 2, ""⟩]
      KeyedTable.empty }

/-- The times of the widest window are 64-bit numbers. -/
theorem wideWindow_data64 : Data64 wideWindow := by
  refine ⟨by decide, by decide, fun s xs hfind => ?_⟩
  have hput : (put "s" [⟨int64Min, "s", .int64 1, ""⟩, ⟨int64Max - 1, "s", .int64 2, ""⟩]
      (KeyedTable.empty : Table SequenceId (List RawTimeseriesPoint))).find s = some xs := hfind
  rw [find_put] at hput
  split at hput
  · obtain rfl := Option.some.inj hput
    decide
  · cases hput

/-- The whole range of times in four buckets. -/
theorem bucket_grid_exact_wide :
    ExactGrid int64Min int64Max 4611686018427387904 ∧
    alignWithRelations64 "p" {} wideWindow { bucketInterval := some 4611686018427387904 } [] =
      some (alignWithRelations "p" {} wideWindow
        { bucketInterval := some 4611686018427387904 } []) ∧
    (alignWithRelations "p" {} wideWindow
      { bucketInterval := some 4611686018427387904 } []).operation.message ≠ overflowMessage :=
  have h := @bucket_grid_exact "p" {} wideWindow wideWindow_data64 (by decide)
    { bucketInterval := some 4611686018427387904 } (by decide) _ rfl (by decide) [] nofun
  ⟨h.1, h.2.2.1, h.2.2.2.1⟩

end BucketGrid
