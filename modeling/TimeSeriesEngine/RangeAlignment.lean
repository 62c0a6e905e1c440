import TimeSeriesEngine.GridSlice

/-!
# Aligning and cutting a window

What a successful alignment of a window has done (`aligned_of_success`) and when it
succeeds (`aligned_of_columns`): one column a sequence, one sample a bucket.  A cut of
its samples by times is a cut by buckets (`cropFullResult_samples`).
-/

namespace RangeAlignment

open TseTypes KeyedTable OrderedSeries HotWindow ConstraintCheck Registry SeqAlignment GapFilling
  GridSlice

variable {grid : Grid}

/-! ## The interval -/

/-- A gap that counts is positive. -/
theorem observeGap_pos {smallest : Option Int} {previous current : Timestamp}
    (hle : previous ≤ current) (h : ∀ gap ∈ smallest, (0 : Int) < gap) :
    ∀ gap ∈ observeGap smallest previous current, (0 : Int) < gap := by
  intro gap hgap
  have hle' : (0 : Int) ≤ current - previous := Int.sub_nonneg_of_le hle
  simp only [observeGap] at hgap
  by_cases hskip : current - previous = 0 ∨ int64Max < current - previous
  · rw [if_pos hskip] at hgap
    exact h gap hgap
  · rw [if_neg hskip] at hgap
    have hpos : (0 : Int) < current - previous :=
      lt_of_le_of_ne hle' fun heq => hskip (Or.inl heq.symm)
    cases smallest with
    | none =>
        cases hgap
        exact hpos
    | some old =>
        simp only at hgap
        split at hgap
        · cases hgap
          exact hpos
        · cases hgap
          exact h _ rfl

/-- An observed gap is positive. -/
theorem observeGaps_pos {times : List Timestamp} {smallest : Option Int}
    (hsorted : timesSorted times = true) (h : ∀ gap ∈ smallest, (0 : Int) < gap) :
    ∀ gap ∈ observeGaps times smallest, (0 : Int) < gap := by
  induction times generalizing smallest with
  | nil => exact h
  | cons previous rest ih =>
      cases rest with
      | nil => exact h
      | cons current rest =>
          rw [timesSorted] at hsorted
          split at hsorted
          · cases hsorted
          · rename_i hle
            rw [observeGaps]
            exact ih hsorted (observeGap_pos (not_lt.mp hle) h)

/-- Every sequence of the window is in the order of its times. -/
def InTimeOrder (data : WindowData) : Prop :=
  ∀ sequenceId ∈ data.sequenceValues.keys,
    timesSorted (((data.sequenceValues.find sequenceId).getD []).map RawTimeseriesPoint.time) = true

/-- The sequences of the window, in its order. -/
def allSequences (data : WindowData) : List SequenceAlignmentConfig :=
  data.sequenceValues.keys.map fun sequenceId => { sequenceId := sequenceId }

/-- The gaps of one sequence. -/
def gapStep (data : WindowData) (smallest : Option Int) (sequence : SequenceAlignmentConfig) :
    Option Int :=
  match data.sequenceValues.find sequence.sequenceId with
  | none => smallest
  | some points =>
      if points.length < 2 then smallest else observeGaps (gapTimes points) smallest

/-- Times in order pass the check. -/
theorem timesSorted_of_pairwise {times : List Timestamp} (h : times.Pairwise (· ≤ ·)) :
    timesSorted times = true := by
  induction times with
  | nil => rfl
  | cons previous rest ih =>
      obtain ⟨hprevious, hrest⟩ := List.pairwise_cons.mp h
      cases rest with
      | nil => rfl
      | cons current rest =>
          rw [timesSorted, if_neg (not_lt.mpr (hprevious current (List.mem_cons_self ..)))]
          exact ih hrest

/-- The times whose gaps count are sorted, whatever the points are. -/
theorem timesSorted_gapTimes (points : List RawTimeseriesPoint) :
    timesSorted (gapTimes points) = true := by
  rw [gapTimes]
  split
  · rename_i h
    exact h
  · exact timesSorted_of_pairwise ((ascending_sortUnique _ _).imp fun hlt => le_of_lt hlt)

theorem gapStep_pos {data : WindowData} (sequence : SequenceAlignmentConfig) {smallest : Option Int}
    (hsmallest : ∀ gap ∈ smallest, (0 : Int) < gap) :
    ∀ gap ∈ gapStep data smallest sequence, (0 : Int) < gap := by
  rw [gapStep]
  cases hfind : data.sequenceValues.find sequence.sequenceId with
  | none =>
      simp only
      exact hsmallest
  | some points =>
      simp only
      split
      · exact hsmallest
      · exact observeGaps_pos (timesSorted_gapTimes points) hsmallest

/-- An inferred width is positive. -/
theorem inferBucketInterval_pos {data : WindowData} {sequences : List SequenceAlignmentConfig}
    {interval : Int} (hinterval : inferBucketInterval data sequences = some interval) :
    0 < interval := by
  have hfold : ∀ (sequences : List SequenceAlignmentConfig) (smallest : Option Int),
      (∀ gap ∈ smallest, (0 : Int) < gap) →
        ∀ gap ∈ sequences.foldl (gapStep data) smallest, (0 : Int) < gap := by
    intro sequences
    induction sequences with
    | nil => exact fun smallest hsmallest => hsmallest
    | cons sequence sequences ih =>
        intro smallest hsmallest
        exact ih _ (gapStep_pos sequence hsmallest)
  exact hfold sequences none nofun interval hinterval

/-- Times that pass the check are in order. -/
theorem pairwise_of_timesSorted {times : List Timestamp} (h : timesSorted times = true) :
    times.Pairwise (· ≤ ·) := by
  induction times with
  | nil => exact List.Pairwise.nil
  | cons previous rest ih =>
      cases rest with
      | nil => exact List.pairwise_singleton _ _
      | cons current rest =>
          rw [timesSorted] at h
          split at h
          · cases h
          · rename_i hle
            have hrest := ih h
            refine List.pairwise_cons.mpr ⟨fun later hlater => ?_, hrest⟩
            rcases List.mem_cons.mp hlater with rfl | hlater
            · exact not_lt.mp hle
            · exact le_trans (not_lt.mp hle) ((List.pairwise_cons.mp hrest).1 later hlater)

theorem ordered_of_timesSorted {points : List RawTimeseriesPoint}
    (h : timesSorted (points.map RawTimeseriesPoint.time) = true) :
    Ordered RawTimeseriesPoint.time points :=
  List.pairwise_map.mp (pairwise_of_timesSorted h)

/-! ## The whole window -/

/-- The grid of a window. -/
def gridOf (data : WindowData) (interval : Int) : Grid where
  windowStart := data.windowStartTime
  windowEnd := data.windowEndTime
  interval := interval
  bucketCount := bucketCountOf data.windowStartTime data.windowEndTime interval

/-- The sample of a bucket. -/
def sampleAt (grid : Grid) (columns : List (SequenceId × BucketValues)) (bucket : Nat) :
    AlignedSample :=
  { time := startOf grid bucket, values := sampleValues columns bucket }

/-- A bucket has a start when it is a 64-bit number. -/
theorem bucketStart_eq_some {bucket : Nat} {time : Timestamp} :
    bucketStart grid bucket = some time ↔
      startOf grid bucket ≤ int64Max ∧ time = startOf grid bucket := by
  rw [bucketStart, addNonNegativeTimestampOffset]
  by_cases hover : int64Max < grid.windowStart + bucket * grid.interval
  · rw [if_pos hover]
    exact ⟨nofun, fun h => absurd h.1 (not_le.mpr hover)⟩
  · rw [if_neg hover, Option.some.injEq]
    exact ⟨fun h => ⟨not_lt.mp hover, h.symm⟩, fun h => h.2.symm⟩

/-- The samples are laid out when all starts are. -/
theorem samplesFrom_eq_some {columns : List (SequenceId × BucketValues)} {buckets : List Nat}
    {samples : List AlignedSample} :
    samplesFrom grid columns buckets = some samples ↔
      (∀ bucket ∈ buckets, startOf grid bucket ≤ int64Max) ∧
        samples = buckets.map (sampleAt grid columns) := by
  induction buckets generalizing samples with
  | nil =>
      rw [samplesFrom, Option.some.injEq]
      exact ⟨fun h => ⟨fun bucket hbucket => absurd hbucket List.not_mem_nil, h.symm⟩,
        fun h => h.2.symm⟩
  | cons bucket buckets ih =>
      rw [List.forall_mem_cons]
      simp only [samplesFrom]
      cases hstart : bucketStart grid bucket with
      | none =>
          have hstart' : addNonNegativeTimestampOffset grid.windowStart (bucket * grid.interval) =
            none := hstart
          simp only [hstart']
          refine ⟨nofun, fun h => ?_⟩
          rw [bucketStart_eq_some.mpr ⟨h.1.1, rfl⟩] at hstart
          cases hstart
      | some time =>
          have hstart' : addNonNegativeTimestampOffset grid.windowStart (bucket * grid.interval) =
            some time := hstart
          obtain ⟨hfits, rfl⟩ := bucketStart_eq_some.mp hstart
          cases hrest : samplesFrom grid columns buckets with
          | none =>
              simp only [hstart']
              refine ⟨nofun, fun h => ?_⟩
              rw [ih.mpr ⟨h.1.2, rfl⟩] at hrest
              cases hrest
          | some rest =>
              obtain ⟨hall, rfl⟩ := ih.mp hrest
              simp only [hstart', Option.some.injEq]
              exact ⟨fun h => ⟨⟨hfits, hall⟩, h.symm⟩, fun h => h.2.symm⟩

/-- All columns of an alignment, sequence by sequence. -/
theorem alignSequences_ok_iff {data : WindowData} {shift : SequenceId → Int}
    {strategies : List (SequenceId × BucketAggregation × GapFillMethod)}
    {columns : List (SequenceId × BucketValues)} :
    alignSequences grid data shift strategies = .ok columns ↔
      List.Forall₂ (fun strategy column => column.1 = strategy.1 ∧
        alignSequence grid data shift strategy.1 strategy.2.1 strategy.2.2 = .ok column.2)
        strategies columns := by
  induction strategies generalizing columns with
  | nil =>
      rw [alignSequences, Except.ok.injEq, List.forall₂_nil_left_iff]
      exact eq_comm
  | cons strategy strategies ih =>
      obtain ⟨sequenceId, aggregation, method⟩ := strategy
      rw [List.forall₂_cons_left_iff]
      simp only [alignSequences]
      cases hvalues : alignSequence grid data shift sequenceId aggregation method with
      | error error =>
          refine ⟨nofun, ?_⟩
          rintro ⟨column, rest, ⟨-, hno⟩, -, -⟩
          cases hno
      | ok values =>
          cases hrest : alignSequences grid data shift strategies with
          | error error =>
              refine ⟨nofun, ?_⟩
              rintro ⟨column, rest, -, hok, -⟩
              rw [ih.mpr hok] at hrest
              cases hrest
          | ok rest =>
              simp only [Except.ok.injEq]
              constructor
              · rintro rfl
                exact ⟨_, rest, ⟨rfl, rfl⟩, ih.mp hrest, rfl⟩
              · rintro ⟨⟨id, values'⟩, rest', ⟨hid, hok⟩, hothers, rfl⟩
                rw [ih.mpr hothers] at hrest
                cases hrest
                cases hok
                simp only at hid
                rw [hid]

/-- The strategies of a window's sequences. -/
def strategies (projectId : ProjectId) (registry : RuntimeConfigRegistry) (data : WindowData) :
    List (SequenceId × BucketAggregation × GapFillMethod) :=
  (allSequences data).map (resolveStrategy projectId registry)

theorem okResult_success (count : Nat) (message : String) :
    isSuccessful (okResult count message).code = true := rfl

/-- What a successful alignment has done. -/
structure Aligned (projectId : ProjectId) (registry : RuntimeConfigRegistry) (data : WindowData)
    (interval : Int) (columns : List (SequenceId × BucketValues)) (result : AlignmentResult) :
    Prop where
  success : isSuccessful result.operation.code = true
  aligned : alignSequences (gridOf data interval) data (fun _ => 0)
    (strategies projectId registry data) = .ok columns
  fits : ∀ bucket < (gridOf data interval).bucketCount,
    startOf (gridOf data interval) bucket ≤ int64Max
  samples : result.alignedData.samples =
    (List.range (gridOf data interval).bucketCount).map (sampleAt (gridOf data interval) columns)

/-- The request asks for all sequences of the window, and for buckets of `interval`. -/
structure AsksFor (data : WindowData) (requested : AlignmentConfig) (interval : Int) : Prop where
  sequences : (if requested.sequences.isEmpty then
    data.sequenceValues.keys.map fun sequenceId => { sequenceId := sequenceId }
    else requested.sequences) = allSequences data
  interval : requested.bucketInterval.or (inferBucketInterval data (allSequences data)) =
    some interval
  positive : (requested.bucketInterval.any fun interval => decide (interval ≤ 0)) = false

/-- The tests in front of an alignment. -/
structure Alignable (projectId : ProjectId) (data : WindowData) : Prop where
  valid : validateWindowData projectId data = none
  order : ¬ data.windowEndTime < data.windowStartTime
  nonempty : (allSequences data).isEmpty = false
  distinct : sequencesError (allSequences data) [] = none

/-- With its columns an alignment succeeds. -/
theorem aligned_of_columns {projectId : ProjectId} {registry : RuntimeConfigRegistry}
    {data : WindowData} {requested : AlignmentConfig} {interval : Int}
    (hasks : AsksFor data requested interval) (halignable : Alignable projectId data)
    {columns : List (SequenceId × BucketValues)}
    (hcolumns : alignSequences (gridOf data interval) data (fun _ => 0)
      (strategies projectId registry data) = .ok columns)
    (hfits : ∀ bucket < (gridOf data interval).bucketCount,
      startOf (gridOf data interval) bucket ≤ int64Max) :
    Aligned projectId registry data interval columns
      (alignWithConfig projectId registry data requested) := by
  have hsamples : samplesFrom (gridOf data interval) columns
      (List.range (gridOf data interval).bucketCount) = some
        ((List.range (gridOf data interval).bucketCount).map
          (sampleAt (gridOf data interval) columns)) :=
    samplesFrom_eq_some.mpr ⟨fun bucket hbucket => hfits bucket (List.mem_range.mp hbucket), rfl⟩
  have hgrid : gridOf data interval =
      { windowStart := data.windowStartTime
        windowEnd := data.windowEndTime
        interval := interval
        bucketCount := bucketCountOf data.windowStartTime data.windowEndTime interval } := rfl
  have hnonempty : ¬ (allSequences data).isEmpty = true := by
    rw [halignable.nonempty]
    exact Bool.false_ne_true
  have hpositive : ¬ (requested.bucketInterval.any fun interval => decide (interval ≤ 0)) = true := by
    rw [hasks.positive]
    exact Bool.false_ne_true
  rw [strategies, hgrid] at hcolumns
  rw [hgrid] at hsamples
  have hresult : alignWithConfig projectId registry data requested =
      alignWithConfig projectId registry data requested := rfl
  conv_rhs at hresult =>
    simp only [alignWithConfig, halignable.valid, if_neg halignable.order, hasks.sequences,
      if_neg hnonempty, halignable.distinct, if_neg hpositive, hasks.interval, hcolumns, hsamples]
  rw [hresult]
  refine ⟨?_, hcolumns, hfits, rfl⟩
  show isSuccessful (if _ then _ else _ : OperationResult).code = true
  split
  · rfl
  · rfl

/-- An alignment that succeeds has its columns. -/
theorem aligned_of_success {projectId : ProjectId} {registry : RuntimeConfigRegistry}
    {data : WindowData} {requested : AlignmentConfig} {interval : Int}
    (hasks : AsksFor data requested interval)
    (hsuccess : isSuccessful (alignWithConfig projectId registry data requested).operation.code =
      true) :
    Alignable projectId data ∧ ∃ columns, Aligned projectId registry data interval columns
      (alignWithConfig projectId registry data requested) := by
  have hraw := hsuccess
  simp only [alignWithConfig, hasks.sequences, hasks.interval] at hraw
  cases hvalid : validateWindowData projectId data with
  | some error =>
      simp only [hvalid] at hraw
      cases hraw
  | none =>
      simp only [hvalid] at hraw
      by_cases horder : data.windowEndTime < data.windowStartTime
      · rw [if_pos horder] at hraw
        cases hraw
      · rw [if_neg horder] at hraw
        cases hnonempty : (allSequences data).isEmpty with
        | true =>
            rw [hnonempty, if_pos rfl] at hraw
            cases hraw
        | false =>
            rw [hnonempty, if_neg Bool.false_ne_true] at hraw
            cases hdistinct : sequencesError (allSequences data) [] with
            | some error =>
                simp only [hdistinct] at hraw
                cases hraw
            | none =>
                have hpositive : ¬ (requested.bucketInterval.any fun interval =>
                    decide (interval ≤ 0)) = true := by
                  rw [hasks.positive]
                  exact Bool.false_ne_true
                simp only [hdistinct] at hraw
                rw [if_neg hpositive] at hraw
                have halignable : Alignable projectId data :=
                  ⟨hvalid, horder, hnonempty, hdistinct⟩
                refine ⟨halignable, ?_⟩
                cases hcolumns : alignSequences (gridOf data interval) data (fun _ => 0)
                    (strategies projectId registry data) with
                | error error =>
                    rw [gridOf, strategies] at hcolumns
                    simp only [hcolumns] at hraw
                    cases hraw
                | ok columns =>
                    cases hsamples : samplesFrom (gridOf data interval) columns
                        (List.range (gridOf data interval).bucketCount) with
                    | none =>
                        rw [gridOf, strategies] at hcolumns
                        rw [gridOf] at hsamples
                        simp only [hcolumns, hsamples] at hraw
                        cases hraw
                    | some samples =>
                        obtain ⟨hfits, -⟩ := samplesFrom_eq_some.mp hsamples
                        exact ⟨columns, aligned_of_columns hasks halignable hcolumns
                          fun bucket hbucket => hfits bucket (List.mem_range.mpr hbucket)⟩

/-! ## Cutting samples -/

/-- The samples with indices from `first` up to, and without, `last`. -/
def between (first last : Nat) (samples : List AlignedSample) : List AlignedSample :=
  (samples.drop first).take (last - first)

theorem between_length {first last : Nat} {samples : List AlignedSample}
    (h : last ≤ samples.length) : (between first last samples).length = last - first := by
  rw [between, List.length_take, List.length_drop]
  omega

theorem between_append {first middle last : Nat} (samples : List AlignedSample)
    (hle : first ≤ middle) (hle' : middle ≤ last) :
    between first middle samples ++ between middle last samples = between first last samples := by
  rw [between, between, between, show last - first = (middle - first) + (last - middle) by omega,
    List.take_add, List.drop_drop, Nat.add_sub_cancel' hle]

/-- The elements in front of a place that a test tells apart. -/
theorem takeWhile_eq_take {α : Type} {p : α → Bool} {l : List α} {n : Nat}
    (h : ∀ i (hi : i < l.length), p l[i] = decide (i < n)) : l.takeWhile p = l.take n := by
  induction l generalizing n with
  | nil => rw [List.takeWhile_nil, List.take_nil]
  | cons x xs ih =>
      have hx : p x = decide (0 < n) := h 0 (Nat.succ_pos _)
      cases n with
      | zero => rw [List.takeWhile_cons_of_neg (by simp [hx]), List.take_zero]
      | succ n =>
          rw [List.takeWhile_cons_of_pos (by simp [hx]), List.take_succ_cons, ih]
          intro i hi
          have hnext := h (i + 1) (Nat.succ_lt_succ hi)
          rw [List.getElem_cons_succ] at hnext
          rw [hnext]
          exact decide_eq_decide.mpr (Nat.add_lt_add_iff_right (n := i) (m := n) (k := 1))

theorem dropWhile_eq_drop {α : Type} {p : α → Bool} {l : List α} {n : Nat}
    (h : ∀ i (hi : i < l.length), p l[i] = decide (i < n)) : l.dropWhile p = l.drop n := by
  have hsplit := List.takeWhile_append_dropWhile (p := p) (l := l)
  rw [takeWhile_eq_take h] at hsplit
  exact List.append_cancel_left (hsplit.trans (List.take_append_drop n l).symm)

/-- How many buckets start before the range, and how many do not start behind it. -/
structure CropBounds (grid : Grid) (range : AlignmentRange) (first last : Nat) : Prop where
  before : ∀ bucket < grid.bucketCount, startOf grid bucket < range.startTime ↔ bucket < first
  upTo : ∀ bucket < grid.bucketCount, startOf grid bucket ≤ range.endTime ↔ bucket < last
  first_le : first ≤ grid.bucketCount
  last_le : last ≤ grid.bucketCount
  le : first ≤ last

/-- `cropFullResult` cuts between these bounds, less the prefix. -/
theorem cropFullResult_samples {range : AlignmentRange} {result : AlignmentResult}
    {columns : List (SequenceId × BucketValues)} {first last : Nat}
    (hbounds : CropBounds grid range first last)
    (hsuccess : isSuccessful result.operation.code = true)
    (hsamples : result.alignedData.samples =
      (List.range grid.bucketCount).map (sampleAt grid columns)) :
    isSuccessful (cropFullResult range result).operation.code = true ∧
      (cropFullResult range result).alignedData.samples =
        between (first - range.prefixSamples) last result.alignedData.samples := by
  have hlength : result.alignedData.samples.length = grid.bucketCount := by
    rw [hsamples, List.length_map, List.length_range]
  have htime : ∀ i (hi : i < result.alignedData.samples.length),
      (result.alignedData.samples[i]).time = startOf grid i := by
    intro i hi
    simp only [hsamples, List.getElem_map, List.getElem_range]
    rfl
  have hbelow : below AlignedSample.time range.startTime result.alignedData.samples =
      result.alignedData.samples.take first :=
    takeWhile_eq_take fun i hi => by
      rw [htime i hi]
      exact decide_eq_decide.mpr (hbounds.before i (by omega))
  have habove : atOrAbove AlignedSample.time range.startTime result.alignedData.samples =
      result.alignedData.samples.drop first :=
    dropWhile_eq_drop fun i hi => by
      rw [htime i hi]
      exact decide_eq_decide.mpr (hbounds.before i (by omega))
  have hinside : ((result.alignedData.samples.drop first).takeWhile
      fun sample => decide (sample.time ≤ range.endTime)) =
        between first last result.alignedData.samples := by
    refine takeWhile_eq_take fun i hi => ?_
    rw [List.length_drop] at hi
    rw [List.getElem_drop, htime (first + i) (by omega)]
    exact decide_eq_decide.mpr ((hbounds.upTo (first + i) (by omega)).trans (by omega))
  have hfront : lastN range.prefixSamples (result.alignedData.samples.take first) =
      between (first - range.prefixSamples) first result.alignedData.samples := by
    rw [lastN, List.length_take, hlength, Nat.min_eq_left hbounds.first_le, List.drop_take]
    rfl
  have hcropped : cropFullResult range result =
      { result with
        operation := okResult (between (first - range.prefixSamples) last
          result.alignedData.samples).length "affected window data aligned"
        alignedData := { result.alignedData with
          samples := between (first - range.prefixSamples) last result.alignedData.samples } } := by
    rw [cropFullResult, hsuccess, Bool.not_true, if_neg Bool.false_ne_true]
    simp only [hbelow, habove, hinside, hfront]
    rw [between_append _ (Nat.sub_le _ _) hbounds.le]
  rw [hcropped]
  exact ⟨okResult_success _ _, rfl⟩

end RangeAlignment
