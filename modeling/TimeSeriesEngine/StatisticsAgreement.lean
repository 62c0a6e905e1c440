import Mathlib.Data.Rat.BigOperators
import TimeSeriesEngine.ServedWindows
import TimeSeriesEngine.StatisticsService
import TimeSeriesEngine.WindowStatistics

/-!
# Two ways to the statistics of a window

`queryWindowStatistics` keeps sums and deques up to date and reads no points.
`computeBasicStatistics` is given the points.  When it is given all the points that a query
of the whole window reads, both say the same.
-/

namespace StatisticsAgreement

open TseTypes KeyedTable OrderedSeries HotWindow WindowContent WindowUpdate WindowRefinement
open WindowRuns UpdateRange StoredPoints ServedWindows StatisticsService WindowStatistics Transition

/-! ## The whole window -/

/-- A query of every retained point: the points before the largest time, and one more. -/
def wholeWindow (ids : List SequenceId) : WindowQuery where
  sequenceIds := ids
  startTime := some int64Min
  endTime := some int64Max
  followingPoints := 1

/-- The widest range is the whole sequence. -/
theorem sliceOf_whole {xs : List RawTimeseriesPoint} (h : Ascending RawTimeseriesPoint.time xs)
    (hr : ∀ q ∈ xs, int64Min ≤ q.time ∧ q.time ≤ int64Max) :
    sliceOf int64Min int64Max 0 1 xs = xs := by
  have hfront : atOrAbove RawTimeseriesPoint.time int64Min xs = xs := by
    rw [h.atOrAbove_eq]
    exact List.filter_eq_self.mpr fun q hq => decide_eq_true (hr q hq).1
  have hlast : (atOrAbove RawTimeseriesPoint.time int64Max xs).length ≤ 1 := by
    rw [h.atOrAbove_eq]
    have hascending := h.filter RawTimeseriesPoint.time fun q => decide (int64Max ≤ q.time)
    have hmax : ∀ q ∈ xs.filter fun q => decide (int64Max ≤ q.time), q.time = int64Max :=
      fun q hq => le_antisymm (hr q (List.mem_of_mem_filter hq)).2
        (of_decide_eq_true (List.mem_filter.mp hq).2)
    generalize xs.filter (fun q => decide (int64Max ≤ q.time)) = last at hascending hmax
    match last with
    | [] => exact Nat.zero_le 1
    | [q] => exact le_refl 1
    | q :: r :: rest =>
        have hlt := ((ascending_cons _).mp hascending).1 r List.mem_cons_self
        rw [hmax q List.mem_cons_self, hmax r (List.mem_cons_of_mem _ List.mem_cons_self)] at hlt
        exact absurd hlt (lt_irrefl _)
  have hnone : lastN 0 (below RawTimeseriesPoint.time int64Min xs) = [] := by simp [lastN]
  rw [sliceOf, hfront, hnone, List.nil_append, List.take_of_length_le hlast,
    below_append_atOrAbove]

/-- **The query reads everything**, and its window passes the checks. -/
theorem wholeWindow_read {p : ProjectId} {calls : List ServiceCall}
    (hr : ∀ call ∈ calls, InRange call.op) (hapart : Apart p calls) {ids : List SequenceId}
    (hids : ids ≠ []) (hne : ∀ s ∈ ids, s ≠ "") (hnd : ids.Nodup)
    (hwatermark : ((run callStep {} calls).watermarks.find (effectiveProject p)).isSome)
    (capacity : Nat) :
    ∃ read, queryWindowData capacity p (wholeWindow ids) (run callStep {} calls) = .ok read ∧
      validateWindowData (effectiveProject p) read.data = none ∧
      ∀ s, read.data.sequenceValues.find s =
        if s ∈ ids ∧ retained p s (run callStep {} calls) ≠ []
        then some (retained p s (run callStep {} calls)) else none := by
  obtain ⟨watermark, hwm⟩ := Option.isSome_iff_exists.mp hwatermark
  have hstores := run_stored hr
  obtain ⟨read, hread, hcode, -, -, hfind⟩ := queryWindowData_spec capacity (p := p)
    (wholeWindow ids) hstores.valid hids hne hnd hwm (hstores.windowSize_pos p)
    (show int64Min ≤ int64Max by decide) (Nat.zero_le _)
  refine ⟨read, hread, ?_, fun s => ?_⟩
  · refine (served_of_success hstores.valid (fun _ => run_watermark_ge hr) hread ?_).valid hr hapart
    rw [hcode]
    rfl
  · have hslice : sliceOf int64Min int64Max 0 1 (retained p s (run callStep {} calls)) =
        retained p s (run callStep {} calls) :=
      sliceOf_whole (hstores.valid.ascending _) fun q hq =>
        (retained_points hr hapart s q hq).inRange
    refine (hfind s).trans ?_
    show (if s ∈ ids then (if sliceOf int64Min int64Max 0 1
      (retained p s (run callStep {} calls)) = [] then none else some (sliceOf int64Min int64Max 0 1
        (retained p s (run callStep {} calls)))) else none) = _
    rw [hslice]
    by_cases hs : s ∈ ids <;> by_cases hnil : retained p s (run callStep {} calls) = [] <;>
      simp [hs, hnil]

/-! ## The same numbers -/

/-- The values of a sequence of numbers. -/
theorem numericValues_numbers {points : List RawTimeseriesPoint} (h : AllNumbers points) :
    numericValues points = some (numbers points) := by
  induction points with
  | nil => rfl
  | cons q points ih =>
      obtain ⟨value, hvalue⟩ := Option.isSome_iff_exists.mp (h q List.mem_cons_self)
      rw [numericValues, hvalue, ih fun r hr => h r (List.mem_cons_of_mem _ hr), numbers, numbers,
        List.filterMap_cons, hvalue]
      rfl

/-- A sequence has values when all its points are numbers. -/
theorem numericValues_isSome {points : List RawTimeseriesPoint} :
    (numericValues points).isSome = true ↔ AllNumbers points := by
  constructor
  · intro h
    obtain ⟨values, hvalues⟩ := Option.isSome_iff_exists.mp h
    intro q hq
    have hmem := List.mem_map_of_mem (f := fun q => numericValue q.value) hq
    rw [numericValues_eq_some.mp hvalues] at hmem
    obtain ⟨value, -, hvalue⟩ := List.mem_map.mp hmem
    rw [← hvalue]
    rfl
  · intro h
    rw [numericValues_numbers h]
    rfl

/-- A nonempty list has a summary. -/
theorem exists_summary {values : List ℚ} (h : values ≠ []) :
    ∃ statistics, Summarises values statistics := by
  cases values with
  | nil => exact absurd rfl h
  | cons front values =>
      have hleast := foldl_min_isLeast front values
      have hgreatest := foldl_max_isGreatest front values
      exact ⟨{ count := _, average := _, maximum := _, minimum := _ }, rfl, rfl,
        ⟨hleast.1, fun _ hvalue => hleast.2 hvalue⟩,
        ⟨hgreatest.1, fun _ hvalue => hgreatest.2 hvalue⟩⟩

/-- The summary of a window and the metrics of its points say the same. -/
structure Agrees (statistics : SequenceWindowStatistics) (metrics : Metrics ℝ) : Prop where
  count : metrics.find "count" = some (.int64 statistics.count)
  mean : metrics.find "mean" = some (.double (statistics.average : ℝ))
  minimum : metrics.find "min" = some (.double (statistics.minimum : ℝ))
  maximum : metrics.find "max" = some (.double (statistics.maximum : ℝ))

/-- **Both describe the same points.** -/
theorem agrees_of_described {points : List RawTimeseriesPoint} {metrics : Metrics ℝ}
    {statistics : SequenceWindowStatistics} (hne : points ≠ []) (hnumbers : AllNumbers points)
    (hmetrics : Described points metrics)
    (hstatistics : Summarises (numbers points) statistics) : Agrees statistics metrics := by
  have hvalues := numericValues_numbers hnumbers
  have hlength := numericValues_length hvalues
  obtain ⟨summary, hsound, hsum, hmean, hminimum, hmaximum, -, -⟩ :=
    hmetrics.numbers _ hvalues
  have hpositive : ((numbers points).length : ℝ) ≠ 0 := by
    rw [hlength]
    exact Nat.cast_ne_zero.mpr (List.length_pos_iff.mpr hne).ne'
  refine ⟨?_, ?_, ?_, ?_⟩
  · rw [hmetrics.count, hstatistics.count, hlength]
  · have hmul := hsound.mean.trans hsound.sum
    rw [List.length_map] at hmul
    have heq : summary.mean = (statistics.average : ℝ) := by
      rw [hstatistics.average, eq_div_of_mul_eq hpositive hmul, Rat.cast_div, Rat.cast_natCast,
        Rat.cast_list_sum]
    rw [hmean, heq]
  · have hleast : IsLeast {value | value ∈ (numbers points).map fun number : ℚ => (number : ℝ)}
        (statistics.minimum : ℝ) := by
      refine ⟨List.mem_map_of_mem hstatistics.minimum.1, fun value hvalue => ?_⟩
      obtain ⟨number, hnumber, rfl⟩ := List.mem_map.mp hvalue
      exact Rat.cast_le.mpr (hstatistics.minimum.2 number hnumber)
    rw [hminimum, hsound.minimum.unique hleast]
  · have hgreatest :
        IsGreatest {value | value ∈ (numbers points).map fun number : ℚ => (number : ℝ)}
          (statistics.maximum : ℝ) := by
      refine ⟨List.mem_map_of_mem hstatistics.maximum.1, fun value hvalue => ?_⟩
      obtain ⟨number, hnumber, rfl⟩ := List.mem_map.mp hvalue
      exact Rat.cast_le.mpr (hstatistics.maximum.2 number hnumber)
    rw [hmaximum, hsound.maximum.unique hgreatest]

/-- What is kept of a sequence, and what is computed of it. -/
def AgreeAt : Option SequenceWindowStatistics → Option (Metrics ℝ) → Prop
  | some statistics, some metrics => Agrees statistics metrics
  | none, none => True
  | _, _ => False

/-- The kept statistics are refused where the computed ones count a failure, and otherwise
    both are of the same sequences and say the same of each. -/
structure ResultsAgree (kept : WindowStatisticsResult) (plain : StatisticsResult ℝ) : Prop where
  rejected : kept.operation.code = .invalidArgument ↔ plain.operation.failedCount ≠ 0
  reported : kept.operation.code ≠ .invalidArgument →
    ∀ s, AgreeAt (kept.data.sequenceStatistics.find s) (plain.sequenceMetrics.find s)

/-- Of a window without sequences nothing is computed, and no failure is counted. -/
theorem computeBasicStatistics_empty {p : ProjectId} {data : WindowData}
    (hnone : ∀ s, data.sequenceValues.find s = none) :
    (computeBasicStatistics Real.sqrt p data).operation.failedCount = 0 ∧
      ∀ s, (computeBasicStatistics Real.sqrt p data).sequenceMetrics.find s = none := by
  have hkeys : data.sequenceValues.keys.isEmpty = true := by
    refine List.isEmpty_iff.mpr (List.eq_nil_iff_forall_not_mem.mpr fun s hs => ?_)
    have hsome := (data.sequenceValues.mem_keys s).mp hs
    rw [hnone s] at hsome
    cases hsome
  simp only [computeBasicStatistics, hkeys, if_true]
  cases validateWindowData p data with
  | some error => exact ⟨rfl, fun _ => rfl⟩
  | none =>
      by_cases horder : data.windowEndTime < data.windowStartTime
      · simp only [if_pos horder]
        exact ⟨rfl, fun _ => rfl⟩
      · simp only [if_neg horder]
        exact ⟨rfl, fun _ => rfl⟩

/-- In front of the first accepted update both ways find nothing. -/
theorem agree_without_watermark {p : ProjectId} {service : WindowService} {ids : List SequenceId}
    (hids : ids ≠ []) (hne : ∀ s ∈ ids, s ≠ "")
    (hwm : service.watermarks.find (effectiveProject p) = none) (capacity : Nat) :
    ∃ read, queryWindowData capacity p (wholeWindow ids) service = .ok read ∧
      ResultsAgree (queryWindowStatistics p ids service).2
        (computeBasicStatistics Real.sqrt (effectiveProject p) read.data) := by
  obtain ⟨read, hread, hnothing⟩ := queryWindowData_no_watermark capacity (wholeWindow ids) hwm
  obtain ⟨hfailed, hmetrics⟩ := @computeBasicStatistics_empty (effectiveProject p) _ hnothing
  have hkept : (queryWindowStatistics p ids service).2 =
      { operation := okResult 0 "window statistics are empty"
        data := { projectId := effectiveProject p } } := by
    rw [queryWindowStatistics]
    simp only
    rw [if_neg fun h => hids (List.isEmpty_iff.mp h), findSequences_ok hne]
    simp only [hwm]
  refine ⟨read, hread, ?_, fun _ s => ?_⟩
  · rw [hkept, hfailed]
    exact iff_of_false (fun h => by cases h) (not_not.mpr rfl)
  · rw [hkept, hmetrics s]
    trivial

/-- Behind the first accepted update both ways look at the same points. -/
theorem agree_with_watermark {p : ProjectId} {calls : List ServiceCall}
    (hr : ∀ call ∈ calls, InRange call.op) (hapart : Apart p calls) {ids : List SequenceId}
    (hids : ids ≠ []) (hne : ∀ s ∈ ids, s ≠ "") (hnd : ids.Nodup) {watermark : Timestamp}
    (hwm : (run callStep {} calls).watermarks.find (effectiveProject p) = some watermark)
    (capacity : Nat) :
    ∃ read, queryWindowData capacity p (wholeWindow ids) (run callStep {} calls) = .ok read ∧
      ResultsAgree (queryWindowStatistics p ids (run callStep {} calls)).2
        (computeBasicStatistics Real.sqrt (effectiveProject p) read.data) := by
  have hwatermark : ((run callStep {} calls).watermarks.find (effectiveProject p)).isSome := by
    rw [hwm]
    rfl
  obtain ⟨read, hread, hvalid, hfind⟩ := wholeWindow_read hr hapart hids hne hnd hwatermark capacity
  refine ⟨read, hread, ?_⟩
  have hreported := statisticsReported (kept_sound.run calls) hids hne hwm (windowSize_pos calls p)
  generalize run callStep {} calls = service at hfind hreported
  obtain ⟨-, hfailed, hmetrics⟩ := tallyOf_spec read.data
  obtain ⟨⟨-, -, hcount⟩, htable⟩ := computeBasicStatistics_valid hvalid
  have hkey : ∀ s, s ∈ read.data.sequenceValues.keys ↔ s ∈ ids ∧ retained p s service ≠ [] := by
    intro s
    rw [read.data.sequenceValues.mem_keys, hfind]
    split <;> simp_all
  have hpoints : ∀ s ∈ read.data.sequenceValues.keys,
      (read.data.sequenceValues.find s).getD [] = retained p s service := by
    intro s hs
    rw [hfind, if_pos ((hkey s).mp hs)]
    rfl
  have husable : ∀ s ∈ read.data.sequenceValues.keys,
      usable read.data s = true ↔ AllNumbers (retained p s service) := by
    intro s hs
    rw [usable, hpoints s hs, Bool.and_eq_true, numericValues_isSome]
    have hsome := ((hkey s).mp hs).2
    simp [hsome]
  refine ⟨?_, fun hok s => ?_⟩
  · rw [hreported.rejected, hcount, (statisticsOperation_spec _).2.2.2, hfailed,
      ← Nat.pos_iff_ne_zero, List.countP_pos_iff]
    constructor
    · rintro ⟨s, hs, hbad⟩
      have hin := (hkey s).mpr ⟨hs, fun hnil => by simp [hnil] at hbad⟩
      refine ⟨s, hin, ?_⟩
      rw [Bool.not_eq_true', ← Bool.not_eq_true, husable s hin]
      exact not_allNumbers.mpr hbad
    · rintro ⟨s, hs, hbad⟩
      rw [Bool.not_eq_true', ← Bool.not_eq_true, husable s hs] at hbad
      exact ⟨s, ((hkey s).mp hs).1, not_allNumbers.mp hbad⟩
  · have hstatistics := hreported.reported (hreported.accepted.resolve_left hok) s
    rw [htable, hmetrics]
    by_cases hs : s ∈ read.data.sequenceValues.keys
    · obtain ⟨hin, hnonempty⟩ := (hkey s).mp hs
      have hall : AllNumbers (retained p s service) := by
        by_contra hbad
        exact hok (hreported.rejected.mpr ⟨s, hin, not_allNumbers.mp hbad⟩)
      obtain ⟨statistics, hsummary⟩ := exists_summary
        fun hnil => hnonempty ((numbers_eq_nil hall).mp hnil)
      rw [(hstatistics statistics).mpr ⟨hin, hnonempty, hsummary⟩, if_pos hs, filed, hpoints s hs,
        if_neg fun hempty => hnonempty (List.isEmpty_iff.mp hempty)]
      exact agrees_of_described hnonempty hall (metricsOf_described hnonempty) hsummary
    · have hnone : (queryWindowStatistics p ids service).2.data.sequenceStatistics.find s =
          none := by
        refine Option.eq_none_iff_forall_not_mem.mpr fun statistics hsome => hs ((hkey s).mpr ?_)
        obtain ⟨hin, hnonempty, -⟩ := (hstatistics statistics).mp hsome
        exact ⟨hin, hnonempty⟩
      rw [hnone, if_neg hs]
      trivial

/-- **The fast way agrees with the plain one.**  After every run of operations of any
    projects whose keys do not run into those of `p`: the whole window can be read, and a
    statistics query of the same sequences is rejected exactly when the statistics of the
    points that were read count a failure, and otherwise reports the same sequences, with
    the same count, mean, minimum and maximum. -/
theorem statistics_agree {p : ProjectId} {calls : List ServiceCall}
    (hr : ∀ call ∈ calls, InRange call.op) (hapart : Apart p calls) (ids : List SequenceId)
    (hids : ids ≠ []) (hne : ∀ s ∈ ids, s ≠ "") (hnd : ids.Nodup) (capacity : Nat) :
    ∃ read, queryWindowData capacity p (wholeWindow ids) (run callStep {} calls) = .ok read ∧
      ResultsAgree (queryWindowStatistics p ids (run callStep {} calls)).2
        (computeBasicStatistics Real.sqrt (effectiveProject p) read.data) := by
  cases hwm : (run callStep {} calls).watermarks.find (effectiveProject p) with
  | none => exact agree_without_watermark hids hne hwm capacity
  | some watermark => exact agree_with_watermark hr hapart hids hne hnd hwm capacity

/-- Both ways, over the sample run. -/
theorem statistics_agree_two_meters :
    (queryWindowStatistics "p" ["s"] (run callStep {} twoMeters)).2.operation.code = .ok ∧
      ∃ read, queryWindowData 0 "p" (wholeWindow ["s"]) (run callStep {} twoMeters) = .ok read ∧
        (computeBasicStatistics Real.sqrt (effectiveProject "p")
          read.data).operation.failedCount = 0 ∧
        ∃ statistics metrics,
          (queryWindowStatistics "p" ["s"]
            (run callStep {} twoMeters)).2.data.sequenceStatistics.find "s" = some statistics ∧
          (computeBasicStatistics Real.sqrt (effectiveProject "p")
            read.data).sequenceMetrics.find "s" = some metrics ∧
          Agrees statistics metrics := by
  have hok : (queryWindowStatistics "p" ["s"] (run callStep {} twoMeters)).2.operation.code =
      .ok := by decide +kernel
  have hkept : ((queryWindowStatistics "p" ["s"]
      (run callStep {} twoMeters)).2.data.sequenceStatistics.find "s").isSome = true := by
    decide +kernel
  have hfine : (queryWindowStatistics "p" ["s"] (run callStep {} twoMeters)).2.operation.code ≠
      .invalidArgument := by
    rw [hok]
    exact OperationCode.noConfusion
  obtain ⟨read, hread, hagree⟩ := statistics_agree twoMeters_inRange twoMeters_apart ["s"]
    (by decide) (by decide) (by decide) 0
  obtain ⟨statistics, hstatistics⟩ := Option.isSome_iff_exists.mp hkept
  have hat := hagree.reported hfine "s"
  rw [hstatistics] at hat
  refine ⟨hok, read, hread, not_not.mp fun h => hfine (hagree.rejected.mpr h), ?_⟩
  cases hmetrics : (computeBasicStatistics Real.sqrt (effectiveProject "p")
      read.data).sequenceMetrics.find "s" with
  | none =>
      rw [hmetrics] at hat
      exact hat.elim
  | some metrics =>
      rw [hmetrics] at hat
      exact ⟨statistics, metrics, hstatistics, rfl, hat⟩

end StatisticsAgreement
