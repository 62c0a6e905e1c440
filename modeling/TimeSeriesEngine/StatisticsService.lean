import Mathlib.Analysis.Real.Sqrt
import TimeSeriesEngine.Library.SampleMoments
import TimeSeriesEngine.ConstraintCheck
import TimeSeriesEngine.Registry
import TimeSeriesEngine.WindowService

/-!
# Basic statistics and correlations

`statistics_service.cpp`, over any field with an order and a `std::sqrt`; what is proved
about the results is proved for the real numbers.

* `computeBasicStatistics` — the metrics of the sequences of a window;
* `computeAlignedStatistics` — the metrics of aligned samples, and the correlation of the
  target of a relation with its sources;
* `statistics_exact` — what a result counts, and what its metrics say about the points.
-/

namespace StatisticsService

open TseTypes KeyedTable ConstraintCheck Registry HotWindow SampleMoments

/-! ## Results -/

/-- A metric: a `std::int64_t` or a `double`. -/
inductive Metric (K : Type) where
  | int64 (value : Int)
  | double (value : K)
  deriving DecidableEq

/-- The metrics of a sequence, by name. -/
abbrev Metrics (K : Type) := Table String (Metric K)

/-- A source and its coefficient. -/
structure SequenceCorrelation (K : Type) where
  independentSequenceId : SequenceId
  coefficient : K
  deriving DecidableEq

/-- The coefficients of the sources of a target. -/
structure CorrelationVector (K : Type) where
  dependentSequenceId : SequenceId
  correlations : List (SequenceCorrelation K) := []
  deriving DecidableEq

/-- What the statistics of a window come to. -/
structure StatisticsResult (K : Type) where
  operation : OperationResult := {}
  sequenceMetrics : Table SequenceId (Metrics K) := KeyedTable.empty
  correlationVector : Option (CorrelationVector K) := none
  projectId : ProjectId := ""

section Model

variable {K : Type} [Field K] [LinearOrder K]

/-! ## One sequence -/

/-- The times of `std::minmax_element`. -/
def minmaxTime : List RawTimeseriesPoint → Timestamp × Timestamp
  | [] => (0, 0)
  | point :: points =>
      (points.foldl (fun time other => min time other.time) point.time,
        points.foldl (fun time other => max time other.time) point.time)

/-- `addWindowMetadata`: how many points, and from when to when. -/
def addWindowMetadata (points : List RawTimeseriesPoint) (metrics : Metrics K) : Metrics K :=
  emplace "last_time" (.int64 (minmaxTime points).2)
    (emplace "first_time" (.int64 (minmaxTime points).1)
      (emplace "count" (.int64 points.length) metrics))

/-- The values of the points, unless one is not a number. -/
def numericValues : List RawTimeseriesPoint → Option (List ℚ)
  | [] => some []
  | point :: points =>
      match numericValue point.value with
      | none => none
      | some value => (numericValues points).map fun values => value :: values

/-- The two passes over the values. -/
def addStatistics (sqrt : K → K) (values : List K) (metrics : Metrics K) : Metrics K :=
  match values with
  | [] => metrics
  | front :: _ =>
      let sum := values.sum
      let mean := sum / values.length
      let squaredDeviation := (values.map fun value => (value - mean) * (value - mean)).sum
      let variance := max 0 (squaredDeviation / values.length)
      emplace "stddev" (.double (sqrt variance))
        (emplace "variance" (.double variance)
          (emplace "max" (.double (values.foldl max front))
            (emplace "min" (.double (values.foldl min front))
              (emplace "mean" (.double mean) (emplace "sum" (.double sum) metrics)))))

/-- The metrics so far, and how many sequences had numbers and how many had not. -/
structure Tally (K : Type) where
  sequenceMetrics : Table SequenceId (Metrics K) := KeyedTable.empty
  successfulCount : Nat := 0
  failedCount : Nat := 0

/-- One turn of the loop over the sequences. -/
def sequenceTurn (sqrt : K → K) (data : WindowData) (tally : Tally K) (sequenceId : SequenceId) :
    Tally K :=
  let points := (data.sequenceValues.find sequenceId).getD []
  if points.isEmpty then { tally with failedCount := tally.failedCount + 1 }
  else
    let metrics := addWindowMetadata points KeyedTable.empty
    match numericValues points with
    | none =>
        { tally with
          sequenceMetrics := emplace sequenceId metrics tally.sequenceMetrics
          failedCount := tally.failedCount + 1 }
    | some values =>
        { tally with
          sequenceMetrics :=
            emplace sequenceId
              (addStatistics sqrt (values.map fun value : ℚ => (value : K)) metrics)
              tally.sequenceMetrics
          successfulCount := tally.successfulCount + 1 }

/-- The result of the sequences that had numbers and those that had not. -/
def statisticsOperation (tally : Tally K) : OperationResult :=
  if tally.successfulCount = 0 then
    { code := .invalidArgument
      failedCount := tally.failedCount
      message := "no sequence contained usable statistics data" }
  else if tally.failedCount ≠ 0 then
    { code := .partialSuccess
      successCount := tally.successfulCount
      failedCount := tally.failedCount
      message := "statistics computed with partial sequence results" }
  else okResult tally.successfulCount "statistics computed"

/-- The metrics of all sequences of a window. -/
def tallyOf (sqrt : K → K) (data : WindowData) : Tally K :=
  data.sequenceValues.keys.foldl (sequenceTurn sqrt data) {}

/-- `computeBasicStatistics` of a window. -/
def computeBasicStatistics (sqrt : K → K) (projectId : ProjectId) (data : WindowData) :
    StatisticsResult K :=
  match validateWindowData projectId data with
  | some error => { operation := invalidArgument error, projectId := projectId }
  | none =>
      if data.windowEndTime < data.windowStartTime then
        { operation :=
            invalidArgument "statistics window start time must not be after end time"
          projectId := projectId }
      else if data.sequenceValues.keys.isEmpty then
        { operation := invalidArgument "statistics window must contain at least one sequence"
          projectId := projectId }
      else
        { operation := statisticsOperation (tallyOf sqrt data)
          sequenceMetrics := (tallyOf sqrt data).sequenceMetrics
          projectId := projectId }

/-- The overload that takes the project from the window. -/
def computeOwnStatistics (sqrt : K → K) (data : WindowData) : StatisticsResult K :=
  computeBasicStatistics sqrt (effectiveProject data.projectId) data

/-! ## Aligned samples -/

/-- `appendCorrelationPair`: the pair of a sample that has two numbers. -/
def correlationPair (target source : SequenceId) (sample : AlignedSample) : Option (ℚ × ℚ) :=
  match sample.values.find target, sample.values.find source with
  | some targetValue, some sourceValue =>
      match numericValue targetValue, numericValue sourceValue with
      | some targetNumber, some sourceNumber => some (targetNumber, sourceNumber)
      | _, _ => none
  | _, _ => none

/-- Both vectors of values, side by side. -/
def correlationPairs (target source : SequenceId) (samples : List AlignedSample) : List (ℚ × ℚ) :=
  samples.filterMap (correlationPair target source)

/-- The two passes over the vectors; `none` if they are too short or do not vary. -/
def pearsonCorrelation (sqrt : K → K) (pairs : List (K × K)) : Option K :=
  if pairs.length < 2 then none
  else
    let targetMean := (pairs.map Prod.fst).sum / pairs.length
    let sourceMean := (pairs.map Prod.snd).sum / pairs.length
    let covariance :=
      (pairs.map fun pair => (pair.1 - targetMean) * (pair.2 - sourceMean)).sum
    let targetSquared :=
      (pairs.map fun pair => (pair.1 - targetMean) * (pair.1 - targetMean)).sum
    let sourceSquared :=
      (pairs.map fun pair => (pair.2 - sourceMean) * (pair.2 - sourceMean)).sum
    if targetSquared ≤ 0 ∨ sourceSquared ≤ 0 then none
    else some (covariance / sqrt (targetSquared * sourceSquared))

/-- The check of the sources of a relation. -/
def sourcesError (target : SequenceId) :
    List RuntimeRelationSource → List SequenceId → Option String
  | [], _ => none
  | source :: rest, seen =>
      if source.sourceSequenceId.isEmpty || decide (source.sourceSequenceId = target) then
        some "statistics relation source sequence is invalid"
      else if source.sourceSequenceId ∈ seen then
        some "statistics relation contains duplicate source sequences"
      else sourcesError target rest (source.sourceSequenceId :: seen)

/-- Files the values of a sample under their sequences. -/
def fileSample (projectId : ProjectId) (table : Table SequenceId (List RawTimeseriesPoint))
    (sample : AlignedSample) : Table SequenceId (List RawTimeseriesPoint) :=
  sample.values.keys.foldl
    (fun table sequenceId =>
      match sample.values.find sequenceId with
      | none => table
      | some value =>
          put sequenceId
            ((table.find sequenceId).getD [] ++
              [{ time := sample.time, sequenceId := sequenceId, value := value,
                 projectId := projectId }])
            table)
    table

/-- The aligned samples as a window, for the metrics. -/
def metricWindow (projectId : ProjectId) (data : AlignedWindowData) : WindowData where
  windowStartTime := data.windowStartTime
  windowEndTime := data.windowEndTime
  sequenceValues := data.samples.foldl (fileSample projectId) KeyedTable.empty
  projectId := projectId

/-- The correlation of the target with one source. -/
def sourceCorrelation (sqrt : K → K) (target : SequenceId) (samples : List AlignedSample)
    (source : RuntimeRelationSource) : Option (SequenceCorrelation K) :=
  (pearsonCorrelation sqrt ((correlationPairs target source.sourceSequenceId samples).map
    fun pair => ((pair.1 : K), (pair.2 : K)))).map fun coefficient =>
      { independentSequenceId := source.sourceSequenceId, coefficient := coefficient }

/-- What is wrong with a relation, before the samples are read. -/
def relationError (relation : RuntimeRelationConfig) : Option OperationResult :=
  if !relation.enabled then some (failedPrecondition "statistics relation must be enabled")
  else if relation.targetSequenceId.isEmpty || relation.sources.isEmpty then
    some (invalidArgument "statistics relation must contain a target and sources")
  else if !relation.relationType.isEmpty && relation.relationType != "correlation" then
    some (failedPrecondition "statistics relation type must be correlation")
  else (sourcesError relation.targetSequenceId relation.sources []).map invalidArgument

/-- The result of the sources: one that fails without a correlation does not count the
    failures of the metrics. -/
def correlationOperation (successCount failedCount metricFailedCount : Nat) : OperationResult :=
  if successCount = 0 then
    { code := .invalidArgument
      failedCount := failedCount
      message := "no source sequence contained enough varying numeric pairs" }
  else if failedCount ≠ 0 ∨ metricFailedCount ≠ 0 then
    { code := .partialSuccess
      successCount := successCount
      failedCount := failedCount + metricFailedCount
      message := "aligned statistics and correlations computed with partial results" }
  else okResult successCount "aligned statistics and correlations computed"

/-- The overload for aligned samples and a relation. -/
def computeAlignedStatistics (sqrt : K → K) (projectId : ProjectId) (data : AlignedWindowData)
    (relation : RuntimeRelationConfig) : StatisticsResult K :=
  match validateAlignedWindowData projectId data with
  | some error => { operation := invalidArgument error, projectId := projectId }
  | none =>
      if data.windowEndTime < data.windowStartTime then
        { operation :=
            invalidArgument "statistics window start time must not be after end time"
          projectId := projectId }
      else if data.samples.isEmpty then
        { operation :=
            invalidArgument "aligned statistics window must contain at least one sample"
          projectId := projectId }
      else
        match relationError relation with
        | some error => { operation := error, projectId := projectId }
        | none =>
            let metrics := computeBasicStatistics sqrt projectId (metricWindow projectId data)
            let correlations :=
              relation.sources.filterMap
                (sourceCorrelation sqrt relation.targetSequenceId data.samples)
            { metrics with
              operation :=
                correlationOperation correlations.length
                  (relation.sources.countP fun source =>
                    (sourceCorrelation sqrt relation.targetSequenceId data.samples source).isNone)
                  metrics.operation.failedCount
              correlationVector :=
                some
                  { dependentSequenceId := relation.targetSequenceId
                    correlations := correlations } }

end Model

/-! ## The smallest and the largest -/

section Extremes

variable {α : Type} [LinearOrder α]

/-- A running minimum is the least value. -/
theorem foldl_min_isLeast (front : α) (values : List α) :
    IsLeast {value | value ∈ front :: values} (values.foldl min front) := by
  induction values generalizing front with
  | nil => exact ⟨List.mem_cons_self, fun value hvalue => (List.mem_singleton.mp hvalue).ge⟩
  | cons value values ih =>
      obtain ⟨hmem, hleast⟩ := ih (min front value)
      refine ⟨?_, fun other hother => ?_⟩
      · rcases List.mem_cons.mp hmem with heq | hmem
        · rw [List.foldl_cons, heq]
          rcases min_choice front value with h | h
          · rw [h]
            exact List.mem_cons_self
          · rw [h]
            exact List.mem_cons_of_mem _ List.mem_cons_self
        · exact List.mem_cons_of_mem _ (List.mem_cons_of_mem _ hmem)
      · have hfirst := hleast List.mem_cons_self
        rcases List.mem_cons.mp hother with rfl | hother
        · exact hfirst.trans (min_le_left _ _)
        · rcases List.mem_cons.mp hother with rfl | hother
          · exact hfirst.trans (min_le_right _ _)
          · exact hleast (List.mem_cons_of_mem _ hother)

theorem foldl_max_isGreatest (front : α) (values : List α) :
    IsGreatest {value | value ∈ front :: values} (values.foldl max front) :=
  @foldl_min_isLeast αᵒᵈ _ front values

omit [LinearOrder α] in
/-- The loops of the code start with a value and meet it again. -/
theorem mem_cons_cons_self (front : α) (values : List α) :
    {value | value ∈ front :: front :: values} = {value | value ∈ front :: values} := by
  ext value
  simp

end Extremes

/-- The first and the last time. -/
theorem minmaxTime_spec {points : List RawTimeseriesPoint} (h : points ≠ []) :
    IsLeast {time | time ∈ points.map RawTimeseriesPoint.time} (minmaxTime points).1 ∧
      IsGreatest {time | time ∈ points.map RawTimeseriesPoint.time} (minmaxTime points).2 := by
  cases points with
  | nil => exact absurd rfl h
  | cons point points =>
      have hmin := foldl_min_isLeast point.time (points.map RawTimeseriesPoint.time)
      have hmax := foldl_max_isGreatest point.time (points.map RawTimeseriesPoint.time)
      rw [List.foldl_map] at hmin hmax
      exact ⟨hmin, hmax⟩

/-! ## The metrics of a sequence -/

/-- What a table holds after `emplace`: the first value stays. -/
theorem find_emplaced {ν : Type} (key s : String) (value : ν) (table : Table String ν) :
    (emplace key value table).find s =
      if s = key then some ((table.find key).getD value) else table.find s := by
  rw [emplace]
  cases hfind : table.find key with
  | none => exact find_put key s value table
  | some found =>
      show table.find s = _
      by_cases hs : s = key
      · rw [if_pos hs, hs, hfind]
        rfl
      · rw [if_neg hs]

/-- What a summary says about the values. -/
structure Summary where
  sum : ℝ
  mean : ℝ
  minimum : ℝ
  maximum : ℝ
  variance : ℝ
  stddev : ℝ

/-- The summary is that of the values. -/
structure Summary.Sound (values : List ℝ) (summary : Summary) : Prop where
  sum : summary.sum = values.sum
  mean : summary.mean * values.length = summary.sum
  minimum : IsLeast {value | value ∈ values} summary.minimum
  maximum : IsGreatest {value | value ∈ values} summary.maximum
  between : summary.minimum ≤ summary.mean ∧ summary.mean ≤ summary.maximum
  variance : summary.variance * values.length =
    (values.map fun value => value * value).sum - values.length * (summary.mean * summary.mean)
  stddev : 0 ≤ summary.stddev ∧ summary.stddev * summary.stddev = summary.variance
  /-- It is at most half of the spread. -/
  spread : 2 * summary.stddev ≤ summary.maximum - summary.minimum
  constant : summary.stddev = 0 ↔ summary.minimum = summary.maximum

/-- The summary of the two passes. -/
noncomputable def summaryOf (front : ℝ) (values : List ℝ) : Summary where
  sum := (front :: values).sum
  mean := mean (front :: values)
  minimum := (front :: values).foldl min front
  maximum := (front :: values).foldl max front
  variance := max 0 (squares (front :: values) / (front :: values).length)
  stddev := Real.sqrt (max 0 (squares (front :: values) / (front :: values).length))

/-- A summary computed is sound. -/
theorem summaryOf_sound (front : ℝ) (values : List ℝ) :
    (summaryOf front values).Sound (front :: values) := by
  have hne : front :: values ≠ [] := List.cons_ne_nil _ _
  have hlength := length_pos (K := ℝ) hne
  have hmin := foldl_min_isLeast front (front :: values)
  have hmax := foldl_max_isGreatest front (front :: values)
  rw [mem_cons_cons_self] at hmin hmax
  have hbounds : ∀ value ∈ front :: values,
      (front :: values).foldl min front ≤ value ∧ value ≤ (front :: values).foldl max front :=
    fun value hvalue => ⟨hmin.2 hvalue, hmax.2 hvalue⟩
  have hvariance : max 0 (squares (front :: values) / (front :: values).length) =
      squares (front :: values) / (front :: values).length :=
    max_eq_right (div_nonneg (squares_nonneg _) hlength.le)
  have hnonneg : (0 : ℝ) ≤ max 0 (squares (front :: values) / (front :: values).length) :=
    le_max_left _ _
  refine ⟨rfl, mean_mul_length hne, hmin, hmax, mean_between hne hbounds, ?_,
    ⟨Real.sqrt_nonneg _, Real.mul_self_sqrt hnonneg⟩, ?_, ?_⟩
  · show max 0 (squares (front :: values) / (front :: values).length) * _ = _
    rw [hvariance, div_mul_cancel₀ _ hlength.ne', squares_eq]
    rfl
  · have hmean := mean_between hne hbounds
    have hhalf : squares (front :: values) / (front :: values).length ≤
        (((front :: values).foldl max front - (front :: values).foldl min front) / 2) ^ 2 := by
      rw [div_le_iff₀ hlength]
      refine (squares_le hbounds).trans ?_
      rw [mul_comm]
      refine mul_le_mul_of_nonneg_right ?_ hlength.le
      nlinarith [sq_nonneg ((front :: values).foldl max front +
        (front :: values).foldl min front - 2 * mean (front :: values))]
    have hroot := Real.sqrt_le_sqrt hhalf
    rw [Real.sqrt_sq (div_nonneg (sub_nonneg.mpr (hmean.1.trans hmean.2)) zero_le_two)] at hroot
    show 2 * Real.sqrt (max 0 (squares (front :: values) / (front :: values).length)) ≤
      (front :: values).foldl max front - (front :: values).foldl min front
    rw [hvariance]
    linarith
  · show Real.sqrt _ = 0 ↔ _
    rw [Real.sqrt_eq_zero hnonneg, hvariance, div_eq_zero_iff, or_iff_left hlength.ne',
      squares_eq_zero]
    constructor
    · exact fun hsame => hsame _ hmin.1 _ hmax.1
    · intro heq x hx y hy
      have hlow : (front :: values).foldl min front = (front :: values).foldl max front := heq
      exact le_antisymm ((hbounds x hx).2.trans (hlow ▸ (hbounds y hy).1))
        ((hbounds y hy).2.trans (hlow ▸ (hbounds x hx).1))

/-- What the metrics say about the points. -/
structure Described (points : List RawTimeseriesPoint) (metrics : Metrics ℝ) : Prop where
  count : metrics.find "count" = some (.int64 points.length)
  times : ∃ first last, metrics.find "first_time" = some (.int64 first) ∧
    metrics.find "last_time" = some (.int64 last) ∧
    IsLeast {time | time ∈ points.map RawTimeseriesPoint.time} first ∧
    IsGreatest {time | time ∈ points.map RawTimeseriesPoint.time} last
  numbers : ∀ values : List ℚ, numericValues points = some values →
    ∃ summary : Summary, summary.Sound (values.map fun value : ℚ => (value : ℝ)) ∧
      metrics.find "sum" = some (.double summary.sum) ∧
      metrics.find "mean" = some (.double summary.mean) ∧
      metrics.find "min" = some (.double summary.minimum) ∧
      metrics.find "max" = some (.double summary.maximum) ∧
      metrics.find "variance" = some (.double summary.variance) ∧
      metrics.find "stddev" = some (.double summary.stddev)
  others : numericValues points = none →
    ∀ name, name ∉ ["count", "first_time", "last_time"] → metrics.find name = none

/-- The metrics a turn files. -/
noncomputable def metricsOf (points : List RawTimeseriesPoint) : Metrics ℝ :=
  match numericValues points with
  | none => addWindowMetadata points KeyedTable.empty
  | some values =>
      addStatistics Real.sqrt (values.map fun value : ℚ => (value : ℝ))
        (addWindowMetadata points KeyedTable.empty)

theorem find_metadata (points : List RawTimeseriesPoint) (name : String) :
    (addWindowMetadata points KeyedTable.empty : Metrics ℝ).find name =
      if name = "last_time" then some (.int64 (minmaxTime points).2)
      else if name = "first_time" then some (.int64 (minmaxTime points).1)
      else if name = "count" then some (.int64 points.length) else none := by
  simp [addWindowMetadata, find_emplaced]

/-- The values of a sequence, point by point. -/
theorem numericValues_eq_some {points : List RawTimeseriesPoint} {values : List ℚ} :
    numericValues points = some values ↔
      points.map (fun point => numericValue point.value) = values.map some := by
  induction points generalizing values with
  | nil => cases values <;> simp [numericValues]
  | cons point points ih =>
      rw [numericValues]
      cases hvalue : numericValue point.value with
      | none => cases values <;> simp [hvalue]
      | some value =>
          cases values with
          | nil => simp
          | cons first rest => simp [hvalue, ih, and_comm]

theorem numericValues_length {points : List RawTimeseriesPoint} {values : List ℚ}
    (h : numericValues points = some values) : values.length = points.length := by
  have hlength := congrArg List.length (numericValues_eq_some.mp h)
  rw [List.length_map, List.length_map] at hlength
  exact hlength.symm

/-- The metrics describe their points. -/
theorem metricsOf_described {points : List RawTimeseriesPoint} (hne : points ≠ []) :
    Described points (metricsOf points) := by
  obtain ⟨hfirst, hlast⟩ := minmaxTime_spec hne
  rw [metricsOf]
  cases hnumbers : numericValues points with
  | none =>
      refine ⟨?_, ⟨_, _, ?_, ?_, hfirst, hlast⟩, fun values h => ?_, fun _ name hname => ?_⟩
      · rw [find_metadata]
        rfl
      · rw [find_metadata]
        rfl
      · rw [find_metadata]
        rfl
      · rw [hnumbers] at h
        cases h
      · simp only [List.mem_cons, List.not_mem_nil, or_false, not_or] at hname
        rw [find_metadata, if_neg hname.2.2, if_neg hname.2.1, if_neg hname.1]
  | some values =>
      cases values with
      | nil =>
          have hlength := numericValues_length hnumbers
          exact absurd (List.length_eq_zero_iff.mp hlength.symm) hne
      | cons front values =>
          refine ⟨?_, ⟨_, _, ?_, ?_, hfirst, hlast⟩, fun others h => ?_, fun h => ?_⟩
          · simp [addStatistics, find_emplaced, find_metadata]
          · simp [addStatistics, find_emplaced, find_metadata]
          · simp [addStatistics, find_emplaced, find_metadata]
          · rw [hnumbers] at h
            cases h
            refine ⟨summaryOf front (values.map fun value : ℚ => (value : ℝ)), summaryOf_sound _ _,
              ?_, ?_, ?_, ?_, ?_, ?_⟩
            all_goals
              simp [addStatistics, find_emplaced, find_metadata, summaryOf, mean, squares, cross]
          · rw [hnumbers] at h
            cases h

/-! ## The loop over the sequences -/

/-- The sequence has points, and all of them are numbers. -/
def usable (data : WindowData) (s : SequenceId) : Bool :=
  !((data.sequenceValues.find s).getD []).isEmpty &&
    (numericValues ((data.sequenceValues.find s).getD [])).isSome

/-- What a turn files for its sequence. -/
noncomputable def filed (data : WindowData) (s : SequenceId) : Option (Metrics ℝ) :=
  if ((data.sequenceValues.find s).getD []).isEmpty then none
  else some (metricsOf ((data.sequenceValues.find s).getD []))

/-- **One turn** counts its sequence once and files its metrics. -/
theorem sequenceTurn_spec (data : WindowData) (tally : Tally ℝ) (s : SequenceId) :
    (sequenceTurn Real.sqrt data tally s).successfulCount =
        tally.successfulCount + (if usable data s then 1 else 0) ∧
      (sequenceTurn Real.sqrt data tally s).failedCount =
        tally.failedCount + (if usable data s then 0 else 1) ∧
      ∀ t, (sequenceTurn Real.sqrt data tally s).sequenceMetrics.find t =
        (tally.sequenceMetrics.find t).or (if t = s then filed data s else none) := by
  rw [sequenceTurn, usable, filed]
  generalize (data.sequenceValues.find s).getD [] = points
  cases points with
  | nil =>
      refine ⟨rfl, rfl, fun t => ?_⟩
      show tally.sequenceMetrics.find t =
        (tally.sequenceMetrics.find t).or (if t = s then none else none)
      rw [ite_self, Option.or_none]
  | cons point points =>
      have hfile : ∀ t, (emplace s (metricsOf (point :: points)) tally.sequenceMetrics).find t =
          (tally.sequenceMetrics.find t).or
            (if t = s then some (metricsOf (point :: points)) else none) := by
        intro t
        rw [find_emplaced]
        by_cases ht : t = s
        · rw [if_pos ht, if_pos ht, ht]
          cases tally.sequenceMetrics.find s <;> rfl
        · rw [if_neg ht, if_neg ht, Option.or_none]
      rw [metricsOf] at hfile
      simp only [List.isEmpty_cons, Bool.false_eq_true, if_false, metricsOf, Bool.not_false,
        Bool.true_and]
      cases hnumbers : numericValues (point :: points) with
      | none =>
          rw [hnumbers] at hfile
          exact ⟨rfl, rfl, hfile⟩
      | some values =>
          rw [hnumbers] at hfile
          exact ⟨rfl, rfl, hfile⟩

/-- **The loop** counts the sequences and files the metrics of each. -/
theorem sequenceTurns_spec (data : WindowData) (ids : List SequenceId) (tally : Tally ℝ) :
    (ids.foldl (sequenceTurn Real.sqrt data) tally).successfulCount =
        tally.successfulCount + ids.countP (usable data) ∧
      (ids.foldl (sequenceTurn Real.sqrt data) tally).failedCount =
        tally.failedCount + ids.countP (fun s => !usable data s) ∧
      ∀ t, (ids.foldl (sequenceTurn Real.sqrt data) tally).sequenceMetrics.find t =
        (tally.sequenceMetrics.find t).or (if t ∈ ids then filed data t else none) := by
  induction ids generalizing tally with
  | nil => exact ⟨rfl, rfl, fun t => by simp⟩
  | cons s ids ih =>
      obtain ⟨hsuccess, hfailed, hfind⟩ := sequenceTurn_spec data tally s
      obtain ⟨hsuccess', hfailed', hfind'⟩ := ih (sequenceTurn Real.sqrt data tally s)
      refine ⟨?_, ?_, fun t => ?_⟩
      · rw [List.foldl_cons, hsuccess', hsuccess, List.countP_cons]
        omega
      · rw [List.foldl_cons, hfailed', hfailed, List.countP_cons]
        cases usable data s <;> simp
        omega
      · rw [List.foldl_cons, hfind', hfind, Option.or_assoc]
        refine congrArg _ ?_
        by_cases ht : t = s
        · subst ht
          rw [if_pos rfl, if_pos List.mem_cons_self]
          cases filed data t with
          | none => simp
          | some metrics => rfl
        · rw [if_neg ht, Option.none_or]
          simp [ht]

/-- What the loop over the sequences counts and files. -/
theorem tallyOf_spec (data : WindowData) :
    (tallyOf Real.sqrt data).successfulCount = data.sequenceValues.keys.countP (usable data) ∧
      (tallyOf Real.sqrt data).failedCount =
        data.sequenceValues.keys.countP (fun s => !usable data s) ∧
      ∀ t, (tallyOf Real.sqrt data).sequenceMetrics.find t =
        if t ∈ data.sequenceValues.keys then filed data t else none := by
  obtain ⟨hsuccess, hfailed, hfind⟩ := sequenceTurns_spec data data.sequenceValues.keys {}
  exact ⟨hsuccess.trans (Nat.zero_add _), hfailed.trans (Nat.zero_add _), fun t =>
    (hfind t).trans Option.none_or⟩

/-- The result of the counts of the loop. -/
theorem statisticsOperation_spec (tally : Tally ℝ) :
    (isSuccessful (statisticsOperation tally).code = true ↔ tally.successfulCount ≠ 0) ∧
      ((statisticsOperation tally).code = .ok ↔
        tally.successfulCount ≠ 0 ∧ tally.failedCount = 0) ∧
      (statisticsOperation tally).successCount = tally.successfulCount ∧
      (statisticsOperation tally).failedCount = tally.failedCount := by
  rw [statisticsOperation]
  by_cases hzero : tally.successfulCount = 0
  · simp [hzero, isSuccessful]
  · by_cases hfailed : tally.failedCount = 0
    · simp [hzero, hfailed, isSuccessful, okResult]
    · simp [hzero, hfailed, isSuccessful]

/-- A window that passes its checks; one without a sequence has counted nothing. -/
theorem computeBasicStatistics_valid {projectId : ProjectId} {data : WindowData}
    (hvalid : validateWindowData projectId data = none) :
    let result := computeBasicStatistics Real.sqrt projectId data
    let counted := statisticsOperation (tallyOf Real.sqrt data)
    (result.operation.code = counted.code ∧
        result.operation.successCount = counted.successCount ∧
        result.operation.failedCount = counted.failedCount) ∧
      result.sequenceMetrics = (tallyOf Real.sqrt data).sequenceMetrics := by
  have horder : ¬ data.windowEndTime < data.windowStartTime := by
    intro hlt
    rw [validateWindowData, if_pos hlt] at hvalid
    split at hvalid <;> cases hvalid
  rw [computeBasicStatistics, hvalid]
  by_cases hkeys : data.sequenceValues.keys = []
  · have hnothing : tallyOf Real.sqrt data = {} := by
      rw [tallyOf, hkeys]
      rfl
    have hempty : data.sequenceValues.keys.isEmpty = true := List.isEmpty_iff.mpr hkeys
    simp only [if_neg horder, if_pos hempty, hnothing]
    exact ⟨⟨rfl, rfl, rfl⟩, trivial⟩
  · have hsome : ¬ data.sequenceValues.keys.isEmpty = true := fun h =>
      hkeys (List.isEmpty_iff.mp h)
    simp only [if_neg horder, if_neg hsome, and_self]

/-- **Statistics are exact.**  A window that passes its checks is answered with a success
    exactly when some sequence is usable and with `OK` exactly when all are; every sequence
    is counted once; and the metrics of a sequence with points describe them. -/
theorem statistics_exact (projectId : ProjectId) (data : WindowData) :
    let result := computeBasicStatistics Real.sqrt projectId data
    (isSuccessful result.operation.code = true ↔
        validateWindowData projectId data = none ∧
          ∃ s ∈ data.sequenceValues.keys, usable data s = true) ∧
      (result.operation.code = .ok ↔
        validateWindowData projectId data = none ∧ data.sequenceValues.keys ≠ [] ∧
          ∀ s ∈ data.sequenceValues.keys, usable data s = true) ∧
      (validateWindowData projectId data = none →
        result.operation.successCount = data.sequenceValues.keys.countP (usable data) ∧
          result.operation.successCount + result.operation.failedCount =
            data.sequenceValues.keys.length ∧
          ∀ s points, data.sequenceValues.find s = some points →
            (points = [] → result.sequenceMetrics.find s = none) ∧
              (points ≠ [] → ∃ metrics, result.sequenceMetrics.find s = some metrics ∧
                Described points metrics)) := by
  cases hvalid : validateWindowData projectId data with
  | some error =>
      have hrejected : (computeBasicStatistics Real.sqrt projectId data).operation =
          invalidArgument error := by
        rw [computeBasicStatistics, hvalid]
      refine ⟨iff_of_false ?_ (fun h => nomatch h.1), iff_of_false ?_ (fun h => nomatch h.1),
        fun h => nomatch h⟩
      · rw [hrejected]
        exact Bool.false_ne_true
      · rw [hrejected]
        exact fun h => nomatch h
  | none =>
      obtain ⟨hsuccess, hfailed, hfind⟩ := tallyOf_spec data
      obtain ⟨⟨hcode, hcount, hcount'⟩, hmetrics⟩ := computeBasicStatistics_valid hvalid
      obtain ⟨hsome, hok, hreported, hreported'⟩ :=
        statisticsOperation_spec (tallyOf Real.sqrt data)
      have hsplit : data.sequenceValues.keys.length =
          data.sequenceValues.keys.countP (usable data) +
            data.sequenceValues.keys.countP (fun s => !usable data s) := by
        rw [List.length_eq_countP_add_countP (usable data)]
        congr 1
        exact List.countP_congr fun s _ => by simp
      rw [hsuccess] at hsome hok hreported
      rw [hfailed] at hok hreported'
      simp only [hcode, hcount, hcount', hmetrics, hsome, hok, hreported, hreported', true_and,
        forall_const]
      refine ⟨?_, ?_, ?_, fun s points hs => ?_⟩
      · rw [← Nat.pos_iff_ne_zero, List.countP_pos_iff]
      · rw [← Nat.pos_iff_ne_zero, List.countP_pos_iff, List.countP_eq_zero]
        constructor
        · rintro ⟨⟨s, hs, -⟩, hall⟩
          exact ⟨List.ne_nil_of_mem hs, fun t ht => by simpa using hall t ht⟩
        · rintro ⟨hkeys, hall⟩
          obtain ⟨s, hs⟩ := List.exists_mem_of_ne_nil _ hkeys
          exact ⟨⟨s, hs, hall s hs⟩, fun t ht => by simp [hall t ht]⟩
      · exact hsplit.symm
      · have hkey : s ∈ data.sequenceValues.keys := by
          rw [data.sequenceValues.mem_keys, hs]
          rfl
        rw [hfind, if_pos hkey, filed, hs]
        refine ⟨?_, fun hne => ?_⟩
        · rintro rfl
          rfl
        · refine ⟨metricsOf points, ?_, metricsOf_described hne⟩
          show (if points.isEmpty = true then none else some (metricsOf points)) = _
          rw [if_neg fun hempty => hne (List.isEmpty_iff.mp hempty)]

end StatisticsService
