import TimeSeriesEngine.BucketReference
import TimeSeriesEngine.RelationAlignment
import Mathlib.Algebra.Order.BigOperators.Group.List

/-!
# Alignment against its reference

A successful alignment, with any configuration and any relations, holds in each
sample what the reference says: the aggregate of the points whose moved times lie in
the bucket, or what the fill method takes over from the non-empty buckets.

* `MatchesReference` — times, values, missing values and counts;
* `column_depends_only` — a column is a function of its own points, strategy and lag;
* `alignment_reference` — every successful call.
-/

namespace AlignmentReference

open TseTypes KeyedTable ConstraintCheck Registry HotWindow SeqAlignment GapFilling GridSlice
open RangeAlignment RelationAlignment BucketReference

/-! ## The reference of a column -/

/-- The points of a sequence. -/
def pointsOf (data : WindowData) (s : SequenceId) : List RawTimeseriesPoint :=
  (data.sequenceValues.find s).getD []

/-- The moved time of the point lies in the bucket, which ends with the window. -/
def InBucket (grid : Grid) (lag : Int) (i : Nat) (point : RawTimeseriesPoint) : Prop :=
  startOf grid i ≤ point.time + lag ∧ point.time + lag < startOf grid (i + 1) ∧
    point.time + lag < grid.windowEnd

instance (grid : Grid) (lag : Int) (i : Nat) (point : RawTimeseriesPoint) :
    Decidable (InBucket grid lag i point) :=
  inferInstanceAs (Decidable (_ ∧ _ ∧ _))

/-- The value of a bucket with points of its own. -/
def BucketHolds (grid : Grid) (points : List RawTimeseriesPoint) (lag : Int)
    (aggregation : BucketAggregation) (i : Nat) (v : TimeseriesValue) : Prop :=
  i < grid.bucketCount ∧
    Aggregates (points.filter fun point => decide (InBucket grid lag i point)) aggregation v

/-- The strategy of a configured sequence: its id, aggregation and fill method. -/
def aggregationOf (projectId : ProjectId) (registry : RuntimeConfigRegistry)
    (sequence : SequenceAlignmentConfig) : BucketAggregation :=
  (resolveStrategy projectId registry sequence).2.1

/-- The fill method of a configured sequence, with the default of its kind. -/
def fillMethodOf (projectId : ProjectId) (registry : RuntimeConfigRegistry)
    (sequence : SequenceAlignmentConfig) : GapFillMethod :=
  (resolveStrategy projectId registry sequence).2.2

/-- The grid of a window: an empty window has no buckets. -/
theorem gridOk_of_bucket {data : WindowData} {interval : Int} (hpos : 0 < interval)
    (horder : data.windowStartTime ≤ data.windowEndTime)
    (h : 0 < (gridOf data interval).bucketCount) : GridOk (gridOf data interval) := by
  refine ⟨hpos, lt_of_le_of_ne horder fun heq => ?_, rfl⟩
  have hzero : (gridOf data interval).bucketCount = 0 := by
    have hempty : data.windowStartTime = data.windowEndTime := heq
    show bucketCountOf data.windowStartTime data.windowEndTime interval = 0
    rw [bucketCountOf, hempty, Int.sub_self, Int.zero_ediv, Int.zero_emod]
    rfl
  omega

/-- The buckets before the gaps are filled. -/
def ownValues (grid : Grid) (aggregation : BucketAggregation)
    (buckets : Nat → Option BucketAccumulator) : BucketValues :=
  (List.range grid.bucketCount).map fun index => (buckets index).map (finishBucket aggregation)

/-- The value of a bucket before filling is the aggregate of the points in it. -/
theorem ownValues_holds {grid : Grid} {sequenceId : SequenceId} {aggregation : BucketAggregation}
    {points : List RawTimeseriesPoint} {lag : Int} {buckets : Nat → Option BucketAccumulator}
    (hgrid : 0 < grid.bucketCount → GridOk grid)
    (h : addPoints grid sequenceId aggregation lag points (fun _ => none) = .ok buckets) :
    valueOf (ownValues grid aggregation buckets) = BucketHolds grid points lag aggregation := by
  funext i v
  refine propext ?_
  rw [valueOf, ownValues, BucketHolds, valueAt, List.getElem?_map]
  by_cases hi : i < grid.bucketCount
  · have hslot : (points.filter fun point => decide (InBucket grid lag i point)) =
        points.filter (inShiftedSlot grid lag i) := by
      refine List.filter_congr fun point _ => ?_
      rw [inShiftedSlot]
      refine decide_eq_decide.mpr ?_
      rw [(hgrid (by omega)).slotOf_eq_some, InBucket]
      exact ⟨fun h => ⟨hi, h⟩, fun h => h.2⟩
    have haggregate := accumulate_aggregates ((addPoints_shift_ok_iff.mp h).2 i) v
    rw [List.getElem?_range hi, Option.map_some, Option.join_some, haggregate, hslot]
    exact ⟨fun h => ⟨hi, h⟩, fun h => h.2⟩
  · rw [List.getElem?_eq_none (by rw [List.length_range]; exact Nat.le_of_not_lt hi)]
    exact ⟨fun h => (by cases h), fun h => absurd h.1 hi⟩

/-- What a column holds, bucket by bucket. -/
structure ColumnReference (grid : Grid) (points : List RawTimeseriesPoint) (lag : Int)
    (aggregation : BucketAggregation) (fillMethod : GapFillMethod)
    (column : Nat → Option TimeseriesValue) : Prop where
  filled : ∀ i < grid.bucketCount, ∀ v, column i = some v ↔
    Filled (BucketHolds grid points lag aggregation) fillMethod i v
  missing : ∀ i < grid.bucketCount, column i = none →
    ∀ j, ¬ IsSource (BucketHolds grid points lag aggregation) fillMethod i j

/-- A column the service returns is the one the reference describes. -/
theorem alignSequence_reference {grid : Grid} {data : WindowData} {shift : SequenceId → Int}
    {sequenceId : SequenceId} {aggregation : BucketAggregation} {fillMethod : GapFillMethod}
    {values : BucketValues} (hgrid : 0 < grid.bucketCount → GridOk grid)
    (h : alignSequence grid data shift sequenceId aggregation fillMethod = .ok values) :
    values.length = grid.bucketCount ∧
      ColumnReference grid (pointsOf data sequenceId) (shift sequenceId) aggregation fillMethod
        (valueAt values) := by
  rw [alignSequence] at h
  cases hbuckets : addPoints grid sequenceId aggregation (shift sequenceId)
      ((data.sequenceValues.find sequenceId).getD []) (fun _ => none) with
  | error error =>
      rw [hbuckets] at h
      cases h
  | ok buckets =>
      rw [hbuckets] at h
      have hholds := ownValues_holds hgrid hbuckets
      have hlength : (ownValues grid aggregation buckets).length = grid.bucketCount := by
        rw [ownValues, List.length_map, List.length_range]
      have hfilled : fillValues (ownValues grid aggregation buckets) fillMethod = .ok values := h
      refine ⟨(fillValues_length hfilled).trans hlength, fun i hi v => ?_, fun i hi hmissing => ?_⟩
      · rw [← hlength] at hi
        rw [fillValues_reference hfilled hi v, hholds]
        rfl
      · rw [← hlength] at hi
        have hnone := fillValues_missing hfilled hi hmissing
        rw [hholds] at hnone
        exact hnone

/-! ## The samples -/

/-- One column's value, put in a sample. -/
def addColumn (bucket : Nat) (values : Table SequenceId TimeseriesValue)
    (column : SequenceId × BucketValues) : Table SequenceId TimeseriesValue :=
  match column.2[bucket]?.join with
  | some value => emplace column.1 value values
  | none => values

/-- What a sample holds after one column has been added. -/
theorem find_addColumn {bucket : Nat} {values : Table SequenceId TimeseriesValue}
    {column : SequenceId × BucketValues} (hfree : values.find column.1 = none) (s : SequenceId) :
    (addColumn bucket values column).find s =
      if column.1 = s then valueAt column.2 bucket else values.find s := by
  rw [addColumn, valueAt]
  cases column.2[bucket]?.join with
  | none =>
      show values.find s = _
      split
      · rename_i hs
        rw [← hs, hfree]
      · rfl
  | some value =>
      show (emplace column.1 value values).find s = _
      rw [emplace, hfree]
      show (put column.1 value values).find s = _
      rw [find_put]
      simp only [eq_comm]

/-- What a sample holds after all columns have been added. -/
theorem find_addColumns {columns : List (SequenceId × BucketValues)} {bucket : Nat}
    {start : Table SequenceId TimeseriesValue} (hnodup : (columns.map Prod.fst).Nodup)
    (hfree : ∀ column ∈ columns, start.find column.1 = none) (s : SequenceId) :
    (columns.foldl (addColumn bucket) start).find s =
      (start.find s).or ((columns.find? fun column => column.1 = s).bind fun column =>
        valueAt column.2 bucket) := by
  induction columns generalizing start with
  | nil => exact Option.or_none.symm
  | cons column columns ih =>
      obtain ⟨hhead, hrest⟩ := List.nodup_cons.mp hnodup
      have hself := hfree column (List.mem_cons_self ..)
      rw [List.foldl_cons, ih hrest, find_addColumn hself]
      · by_cases hs : column.1 = s
        · -- no later column is that of `s`
          have hnone : (columns.find? fun column => decide (column.1 = s)) = none := by
            rw [List.find?_eq_none]
            intro later hlater hid
            refine hhead (List.mem_map.mpr ⟨later, hlater, ?_⟩)
            rw [hs]
            exact of_decide_eq_true hid
          rw [if_pos hs, List.find?_cons_of_pos (by simpa using hs), hnone, ← hs, hself,
            Option.none_or, Option.bind_none, Option.or_none, Option.bind_some]
        · rw [if_neg hs, List.find?_cons_of_neg (by simpa using hs)]
      · intro later hlater
        rw [find_addColumn hself, if_neg fun e => hhead (List.mem_map.mpr ⟨later, hlater, e.symm⟩)]
        exact hfree later (List.mem_cons_of_mem column hlater)

/-- The sample of a bucket has the columns' values. -/
theorem find_sampleValues {columns : List (SequenceId × BucketValues)} (bucket : Nat)
    (hnodup : (columns.map Prod.fst).Nodup) (s : SequenceId) :
    (sampleValues columns bucket).find s =
      (columns.find? fun column => column.1 = s).bind fun column => valueAt column.2 bucket :=
  (@find_addColumns columns bucket KeyedTable.empty hnodup (fun _ _ => rfl) s).trans Option.none_or

/-- A column of its own name. -/
theorem find_column {columns : List (SequenceId × BucketValues)}
    (hnodup : (columns.map Prod.fst).Nodup) {column : SequenceId × BucketValues}
    (h : column ∈ columns) : (columns.find? fun other => other.1 = column.1) = some column := by
  obtain ⟨found, hfound⟩ := Option.isSome_iff_exists.mp
    (List.find?_isSome.mpr ⟨column, h, decide_eq_true rfl⟩ :
      (columns.find? fun other => decide (other.1 = column.1)).isSome)
  have hid : found.1 = column.1 := by simpa using List.find?_some hfound
  rw [hfound, List.inj_on_of_nodup_map hnodup (List.mem_of_find?_eq_some hfound) h hid]

/-- The configured ids are distinct. -/
theorem nodup_of_sequencesError {sequences : List SequenceAlignmentConfig} {seen : List SequenceId}
    (h : sequencesError sequences seen = none) :
    (sequences.map SequenceAlignmentConfig.sequenceId).Nodup ∧
      ∀ sequence ∈ sequences, sequence.sequenceId ∉ seen := by
  induction sequences generalizing seen with
  | nil => exact ⟨List.nodup_nil, fun _ hsequence => absurd hsequence List.not_mem_nil⟩
  | cons sequence sequences ih =>
      rw [sequencesError] at h
      split at h
      · cases h
      split at h
      · cases h
      rename_i hfresh
      obtain ⟨hnodup, hrest⟩ := ih h
      refine ⟨List.nodup_cons.mpr ⟨fun hmem => ?_, hnodup⟩, fun other hother => ?_⟩
      · obtain ⟨other, hother, hid⟩ := List.mem_map.mp hmem
        exact hrest other hother (hid ▸ List.mem_cons_self ..)
      · rcases List.mem_cons.mp hother with rfl | hlater
        · exact hfresh
        · exact fun hseen => hrest other hlater (List.mem_cons_of_mem _ hseen)

/-! ## The whole call -/

/-- One call of `alignWindowData`. -/
structure AlignCall where
  projectId : ProjectId
  registry : RuntimeConfigRegistry
  data : WindowData
  requested : AlignmentConfig
  relations : List RuntimeRelationConfig

namespace AlignCall

/-- The sequences the call aligns. -/
def sequences (call : AlignCall) : List SequenceAlignmentConfig :=
  requestedSequences call.data call.requested

/-- What the call returns. -/
def result (call : AlignCall) : AlignmentResult :=
  alignWithRelations call.projectId call.registry call.data call.requested call.relations

/-- The interval asked for, or the one inferred. -/
def interval (call : AlignCall) : Option Int :=
  call.requested.bucketInterval.or (inferBucketInterval call.data call.sequences)

/-- The column of a sequence in the samples. -/
def column (call : AlignCall) (s : SequenceId) (i : Nat) : Option TimeseriesValue :=
  call.result.alignedData.samples[i]?.bind fun sample => sample.values.find s

end AlignCall

/-- A call's result against the reference on a grid. -/
structure MatchesReference (call : AlignCall) (grid : Grid) : Prop where
  times : call.result.alignedData.samples.map AlignedSample.time =
    (List.range grid.bucketCount).map (startOf grid)
  columns : ∀ sequence ∈ call.sequences,
    ColumnReference grid (pointsOf call.data sequence.sequenceId)
      (lagOf call.relations sequence.sequenceId)
      (aggregationOf call.projectId call.registry sequence)
      (fillMethodOf call.projectId call.registry sequence) (call.column sequence.sequenceId)
  others : ∀ s i v, call.column s i = some v → ∃ sequence ∈ call.sequences, sequence.sequenceId = s
  failed : call.result.operation.failedCount =
    (call.sequences.map fun sequence => (List.range grid.bucketCount).countP fun i =>
      (call.column sequence.sequenceId i).isNone).sum
  total : call.result.operation.successCount + call.result.operation.failedCount =
    grid.bucketCount * call.sequences.length

/-- Two configured sequences with the same points, strategy and lag. -/
structure SameColumn (call call' : AlignCall) (sequence sequence' : SequenceAlignmentConfig) :
    Prop where
  points : pointsOf call'.data sequence'.sequenceId = pointsOf call.data sequence.sequenceId
  lag : lagOf call'.relations sequence'.sequenceId = lagOf call.relations sequence.sequenceId
  aggregation : aggregationOf call'.projectId call'.registry sequence' =
    aggregationOf call.projectId call.registry sequence
  fillMethod : fillMethodOf call'.projectId call'.registry sequence' =
    fillMethodOf call.projectId call.registry sequence

/-- A column is a function of its reference. -/
theorem ColumnReference.unique {grid : Grid} {points : List RawTimeseriesPoint} {lag : Int}
    {aggregation : BucketAggregation} {fillMethod : GapFillMethod}
    {column column' : Nat → Option TimeseriesValue}
    (h : ColumnReference grid points lag aggregation fillMethod column)
    (h' : ColumnReference grid points lag aggregation fillMethod column') {i : Nat}
    (hi : i < grid.bucketCount) : column' i = column i := by
  refine Option.ext fun v => ?_
  rw [h'.filled i hi v, h.filled i hi v]

/-- Outside the grid no column has a value. -/
theorem MatchesReference.column_outside {call : AlignCall} {grid : Grid}
    (h : MatchesReference call grid) (s : SequenceId) {i : Nat} (hi : grid.bucketCount ≤ i) :
    call.column s i = none := by
  have hlength := congrArg List.length h.times
  rw [List.length_map, List.length_map, List.length_range] at hlength
  rw [AlignCall.column, List.getElem?_eq_none (by rw [hlength]; exact hi)]
  rfl

/-- The number of buckets a column leaves empty. -/
theorem countP_isNone {values : BucketValues} {count : Nat} (h : values.length = count) :
    values.countP Option.isNone = (List.range count).countP fun i => (valueAt values i).isNone := by
  have hvalues : values = (List.range count).map (valueAt values) := by
    refine List.ext_getElem? fun i => ?_
    rw [List.getElem?_map]
    rcases Nat.lt_or_ge i count with hlt | hge
    · rw [List.getElem?_range hlt, Option.map_some, valueAt, List.getElem?_eq_getElem (by omega)]
      rfl
    · rw [List.getElem?_eq_none (by omega), List.getElem?_eq_none (by rw [List.length_range]; exact hge)]
      rfl
  conv_lhs => rw [hvalues]
  rw [List.countP_map]
  rfl

/-- Two lists that agree element by element. -/
theorem map_eq_of_forall₂ {α β γ : Type} {R : α → β → Prop} {f : α → γ} {g : β → γ} {xs : List α}
    {ys : List β} (h : List.Forall₂ R xs ys) (hfg : ∀ x, ∀ y ∈ ys, R x y → f x = g y) :
    xs.map f = ys.map g := by
  induction h with
  | nil => rfl
  | cons hxy _ ih =>
      rw [List.map_cons, List.map_cons, hfg _ _ (List.mem_cons_self ..) hxy,
        ih fun x y hy => hfg x y (List.mem_cons_of_mem _ hy)]

/-- An element of the first list has a partner in the second. -/
theorem exists_of_forall₂ {α β : Type} {R : α → β → Prop} {xs : List α} {ys : List β}
    (h : List.Forall₂ R xs ys) {x : α} (hx : x ∈ xs) : ∃ y ∈ ys, R x y := by
  induction h with
  | nil => exact absurd hx List.not_mem_nil
  | cons hxy _ ih =>
      rcases List.mem_cons.mp hx with rfl | hrest
      · exact ⟨_, List.mem_cons_self .., hxy⟩
      · obtain ⟨y, hy, hR⟩ := ih hrest
        exact ⟨y, List.mem_cons_of_mem _ hy, hR⟩

/-- What an alignment returns matches the reference. -/
theorem matchesReference {call : AlignCall} {interval : Int}
    {columns : List (SequenceId × BucketValues)} (hpos : 0 < interval)
    (h : ShiftAligned call.projectId call.registry call.data call.requested call.relations interval
      columns call.result) : MatchesReference call (gridOf call.data interval) := by
  have hgrid := gridOk_of_bucket hpos h.order
  -- the columns, one for each configured sequence
  have hforall := alignSequences_ok_iff.mp h.aligned
  rw [List.forall₂_map_left_iff] at hforall
  have hids : (requestedSequences call.data call.requested).map SequenceAlignmentConfig.sequenceId =
      columns.map Prod.fst :=
    map_eq_of_forall₂ hforall fun sequence column _ hcolumn => hcolumn.1.symm
  have hnodup : (columns.map Prod.fst).Nodup := by
    rw [← hids]
    exact (nodup_of_sequencesError h.distinct).1
  have hcolumn : ∀ s, ∀ i < (gridOf call.data interval).bucketCount, call.column s i =
      (columns.find? fun column => column.1 = s).bind fun column => valueAt column.2 i := by
    intro s i hi
    rw [AlignCall.column, h.samples, List.getElem?_map, List.getElem?_range hi]
    exact find_sampleValues i hnodup s
  have hown : ∀ column ∈ columns, ∀ i < (gridOf call.data interval).bucketCount,
      call.column column.1 i = valueAt column.2 i := by
    intro column hmem i hi
    rw [hcolumn column.1 i hi, find_column hnodup hmem]
    rfl
  have hlength : ∀ column ∈ columns, column.2.length = (gridOf call.data interval).bucketCount := by
    intro column hmem
    obtain ⟨sequence, -, -, haligned⟩ := exists_of_forall₂ hforall.flip hmem
    exact (alignSequence_reference hgrid haligned).1
  have hmissing : missingValues columns =
      (call.sequences.map fun sequence =>
        (List.range (gridOf call.data interval).bucketCount).countP fun i =>
          (call.column sequence.sequenceId i).isNone).sum := by
    refine congrArg List.sum (Eq.symm ?_)
    refine map_eq_of_forall₂ hforall fun sequence column hmem hcolumn => ?_
    rw [countP_isNone (hlength column hmem)]
    refine List.countP_congr fun i hi => ?_
    have hid : column.1 = sequence.sequenceId := hcolumn.1
    rw [← hid, hown column hmem i (List.mem_range.mp hi)]
  refine ⟨?_, fun sequence hsequence => ?_, fun s i v hv => ?_, ?_, ?_⟩
  · rw [h.samples, List.map_map]
    rfl
  · obtain ⟨column, hmem, hid, haligned⟩ := exists_of_forall₂ hforall hsequence
    have hid' : column.1 = sequence.sequenceId := hid
    obtain ⟨-, hreference⟩ := alignSequence_reference hgrid haligned
    refine ⟨fun i hi v => ?_, fun i hi hnone => ?_⟩
    · rw [← hid', hown column hmem i hi, hid']
      exact hreference.filled i hi v
    · rw [← hid', hown column hmem i hi] at hnone
      exact hreference.missing i hi hnone
  · have hi : i < (gridOf call.data interval).bucketCount := by
      by_contra hge
      rw [AlignCall.column, h.samples, List.getElem?_eq_none (by
        rw [List.length_map, List.length_range]; exact Nat.le_of_not_lt hge)] at hv
      cases hv
    rw [hcolumn s i hi] at hv
    obtain ⟨column, hfound, -⟩ := Option.bind_eq_some_iff.mp hv
    have hid : column.1 = s := by simpa using List.find?_some hfound
    have hmem : s ∈ (requestedSequences call.data call.requested).map
        SequenceAlignmentConfig.sequenceId := by
      rw [hids, ← hid]
      exact List.mem_map_of_mem (List.mem_of_find?_eq_some hfound)
    exact List.mem_map.mp hmem
  · rw [h.failed, hmissing]
  · have hle : missingValues columns ≤
        (gridOf call.data interval).bucketCount * (requestedSequences call.data call.requested).length := by
      rw [missingValues, hforall.length_eq, Nat.mul_comm]
      have hbound := List.sum_le_card_nsmul
        (columns.map fun column => column.2.countP Option.isNone)
        (gridOf call.data interval).bucketCount fun count hcount => by
          obtain ⟨column, hmem, rfl⟩ := List.mem_map.mp hcount
          rw [← hlength column hmem]
          exact List.countP_le_length
      rwa [List.length_map] at hbound
    rw [h.succeeded, h.failed]
    exact Nat.sub_add_cancel hle

/-- Every successful alignment matches its reference, and a column of it depends on the
    grid and on the points, the strategy and the lag of its sequence alone. -/
theorem alignment_reference (call : AlignCall)
    (h : isSuccessful call.result.operation.code = true) :
    ∃ interval, 0 < interval ∧ call.interval = some interval ∧
      MatchesReference call (gridOf call.data interval) ∧
      ∀ call' : AlignCall, isSuccessful call'.result.operation.code = true →
        ∀ interval', call'.interval = some interval' →
          gridOf call'.data interval' = gridOf call.data interval →
          ∀ sequence ∈ call.sequences, ∀ sequence' ∈ call'.sequences,
            SameColumn call call' sequence sequence' →
              call'.column sequence'.sequenceId = call.column sequence.sequenceId := by
  -- any successful call, at the interval it was asked for
  have hmatches : ∀ call : AlignCall, isSuccessful call.result.operation.code = true →
      ∃ interval, 0 < interval ∧ call.interval = some interval ∧
        MatchesReference call (gridOf call.data interval) := by
    intro call h
    obtain ⟨interval, columns, haligned⟩ := shiftAligned_of_success h
    have hpos : 0 < interval := by
      have hasked := haligned.asked
      cases hrequested : call.requested.bucketInterval with
      | none =>
          rw [hrequested, Option.none_or] at hasked
          exact inferBucketInterval_pos hasked
      | some requested =>
          have hpositive := haligned.positive
          rw [hrequested, Option.some_or] at hasked
          rw [hrequested] at hpositive
          rw [← Option.some.inj hasked]
          exact not_le.mp (of_decide_eq_false hpositive)
    exact ⟨interval, hpos, haligned.asked, matchesReference hpos haligned⟩
  obtain ⟨interval, hpos, hasked, hmatch⟩ := hmatches call h
  refine ⟨interval, hpos, hasked, hmatch, ?_⟩
  intro call' h' interval' hasked' hgrid sequence hsequence sequence' hsequence' hsame
  obtain ⟨found, -, hfound, hmatch'⟩ := hmatches call' h'
  obtain rfl := Option.some.inj (hfound.symm.trans hasked')
  rw [hgrid] at hmatch'
  funext i
  by_cases hi : i < (gridOf call.data interval).bucketCount
  · have hcolumn' := hmatch'.columns sequence' hsequence'
    rw [hsame.points, hsame.lag, hsame.aggregation, hsame.fillMethod] at hcolumn'
    exact (hmatch.columns sequence hsequence).unique hcolumn' hi
  · rw [hmatch.column_outside _ (Nat.le_of_not_lt hi), hmatch'.column_outside _ (Nat.le_of_not_lt hi)]

/-- Four buckets; the second sequence is moved by one bucket, and its first bucket stays
    empty. -/
def movedCall : AlignCall where
  projectId := ""
  registry := {}
  data :=
    { windowStartTime := 0
      windowEndTime := 40
      sequenceValues := put "level"
        [{ time := 0, sequenceId := "level", value := .int64 1 },
         { time := 30, sequenceId := "level", value := .int64 4 }]
        (put "flow" [{ time := 5, sequenceId := "flow", value := .int64 7 }] KeyedTable.empty) }
  requested :=
    { sequences :=
        [{ sequenceId := "level", aggregation := some .average, fillMethod := some .linear },
         { sequenceId := "flow", aggregation := some .last, fillMethod := some .previous }]
      bucketInterval := some 10 }
  relations :=
    [{ relationId := "flow-level"
       sources := [{ sourceSequenceId := "flow", weight := .finite 1, lag := .fixed 10 }]
       targetSequenceId := "level"
       confidence := .finite 1
       enabled := true }]

/-- An alignment with a lagged sequence, and what holds of it. -/
theorem alignment_reference_moved :
    isSuccessful movedCall.result.operation.code = true ∧
      ∃ interval, 0 < interval ∧ movedCall.interval = some interval ∧
        MatchesReference movedCall (gridOf movedCall.data interval) ∧
        ∀ call' : AlignCall, isSuccessful call'.result.operation.code = true →
          ∀ interval', call'.interval = some interval' →
            gridOf call'.data interval' = gridOf movedCall.data interval →
            ∀ sequence ∈ movedCall.sequences, ∀ sequence' ∈ call'.sequences,
              SameColumn movedCall call' sequence sequence' →
                call'.column sequence'.sequenceId = movedCall.column sequence.sequenceId :=
  have hok : isSuccessful movedCall.result.operation.code = true := by decide +kernel
  ⟨hok, alignment_reference movedCall hok⟩

end AlignmentReference
