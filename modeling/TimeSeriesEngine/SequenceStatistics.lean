import Mathlib.Algebra.BigOperators.Group.List.Basic
import TimeSeriesEngine.SequenceContent
import TimeSeriesEngine.Library.MonotoneDeque

/-!
# The statistics cache of one sequence

While `statisticsValid` is set the cache describes the live vector, and there
are no late points: two counters, a sum and two monotone deques, kept up by
appends at the end and evictions at the front.  Everything else that changes
the storage clears the flag, and the next statistics query rebuilds.

* `StatisticsOf` — the cache of a list of points;
* `StatisticsOf.append`, `StatisticsOf.remove` — one step of the upkeep;
* `Exact` — the invariant, kept by every operation on a window.
-/

namespace SeqStatistics

open TseTypes OrderedSeries SeqWindow SeqContent MonotoneDeque

/-- The time and the number of each numeric point. -/
def numericEntries (points : List RawTimeseriesPoint) : List (Timestamp × ℚ) :=
  points.filterMap fun p => (numericValue p.value).map fun value => (p.time, value)

/-- How many points are not numbers. -/
def nonNumericCount (points : List RawTimeseriesPoint) : Nat :=
  points.countP fun p => (numericValue p.value).isNone

/-- The cache describes these points. -/
structure StatisticsOf (points : List RawTimeseriesPoint) (w : SequenceWindow) : Prop where
  count : w.statisticsCount = (numericEntries points).length
  nonNumeric : w.statisticsNonNumericCount = nonNumericCount points
  sum : w.statisticsSum = ((numericEntries points).map Prod.snd).sum
  minimum : w.statisticsMinimum = survivors (· ≤ ·) (numericEntries points)
  maximum : w.statisticsMaximum = survivors (· ≥ ·) (numericEntries points)

/-- The invariant: a cache marked valid describes the whole sequence. -/
def Exact (w : SequenceWindow) : Prop :=
  w.statisticsValid = true → w.latePoints = [] ∧ StatisticsOf (active w) w

theorem exact_of_invalid {w : SequenceWindow} (h : w.statisticsValid = false) : Exact w :=
  fun hv => absurd (h.symm.trans hv) Bool.false_ne_true

/-! ## Reading a list of points -/

theorem numericEntries_append (xs ys : List RawTimeseriesPoint) :
    numericEntries (xs ++ ys) = numericEntries xs ++ numericEntries ys :=
  List.filterMap_append

theorem numericEntries_some {p : RawTimeseriesPoint} {value : ℚ}
    (h : numericValue p.value = some value) (ps : List RawTimeseriesPoint) :
    numericEntries (p :: ps) = (p.time, value) :: numericEntries ps :=
  List.filterMap_cons_some (by rw [h]; rfl)

theorem numericEntries_none {p : RawTimeseriesPoint} (h : numericValue p.value = none)
    (ps : List RawTimeseriesPoint) : numericEntries (p :: ps) = numericEntries ps :=
  List.filterMap_cons_none (by rw [h]; rfl)

theorem nonNumericCount_some {p : RawTimeseriesPoint} {value : ℚ}
    (h : numericValue p.value = some value) (ps : List RawTimeseriesPoint) :
    nonNumericCount (p :: ps) = nonNumericCount ps :=
  List.countP_cons_of_neg (by rw [h]; exact Bool.false_ne_true)

theorem nonNumericCount_none {p : RawTimeseriesPoint} (h : numericValue p.value = none)
    (ps : List RawTimeseriesPoint) : nonNumericCount (p :: ps) = nonNumericCount ps + 1 :=
  List.countP_cons_of_pos (by rw [h]; rfl)

/-- The numbers of some points. -/
theorem mem_numericEntries {e : Timestamp × ℚ} {points : List RawTimeseriesPoint} :
    e ∈ numericEntries points ↔
      ∃ p ∈ points, p.time = e.1 ∧ numericValue p.value = some e.2 := by
  rw [numericEntries, List.mem_filterMap]
  constructor
  · rintro ⟨p, hp, he⟩
    obtain ⟨value, hvalue, rfl⟩ := Option.map_eq_some_iff.mp he
    exact ⟨p, hp, rfl, hvalue⟩
  · rintro ⟨p, hp, htime, hvalue⟩
    exact ⟨p, hp, by rw [hvalue, Option.map_some, htime]⟩

theorem nonNumericCount_eq_zero {points : List RawTimeseriesPoint} :
    nonNumericCount points = 0 ↔ ∀ p ∈ points, (numericValue p.value).isSome = true := by
  rw [nonNumericCount, List.countP_eq_zero]
  refine forall₂_congr fun p _ => ?_
  cases numericValue p.value <;> simp

/-! ## Upkeep -/

@[simp] theorem appendStatistic_valid (w : SequenceWindow) (p : RawTimeseriesPoint) :
    (appendStatistic w p).statisticsValid = w.statisticsValid := by
  unfold appendStatistic
  split
  · rfl
  · split <;> rfl

@[simp] theorem removeStatistic_valid (w : SequenceWindow) (p : RawTimeseriesPoint) :
    (removeStatistic w p).statisticsValid = w.statisticsValid := by
  unfold removeStatistic
  split
  · rfl
  · split <;> rfl

theorem foldl_statisticsValid {f : SequenceWindow → RawTimeseriesPoint → SequenceWindow}
    (hf : ∀ w p, (f w p).statisticsValid = w.statisticsValid) (ps : List RawTimeseriesPoint)
    (w : SequenceWindow) : (ps.foldl f w).statisticsValid = w.statisticsValid := by
  induction ps generalizing w with
  | nil => rfl
  | cons p ps ih => exact (ih (f w p)).trans (hf w p)

theorem popFrontAt_eq (time : Timestamp) (deque : List (Timestamp × ℚ)) :
    popFrontAt time deque = popFront time deque := by
  cases deque with
  | nil => rfl
  | cons e es => rfl

theorem statisticsOf_reset (w : SequenceWindow) : StatisticsOf [] (resetStatistics w) :=
  ⟨rfl, rfl, rfl, rfl, rfl⟩

/-- Appending a point extends the list. -/
theorem StatisticsOf.append {points : List RawTimeseriesPoint} {w : SequenceWindow}
    (h : StatisticsOf points w) (hv : w.statisticsValid = true) (p : RawTimeseriesPoint) :
    StatisticsOf (points ++ [p]) (appendStatistic w p) := by
  have hnn : nonNumericCount (points ++ [p]) = nonNumericCount points + nonNumericCount [p] :=
    List.countP_append
  rw [appendStatistic, hv, if_neg (by simp)]
  cases hvalue : numericValue p.value with
  | none =>
      have hentries : numericEntries (points ++ [p]) = numericEntries points := by
        rw [numericEntries_append, numericEntries_none hvalue]
        exact List.append_nil _
      refine ⟨?_, ?_, ?_, ?_, ?_⟩
      · rw [hentries]
        exact h.count
      · rw [hnn, nonNumericCount_none hvalue, ← h.nonNumeric]
        rfl
      · rw [hentries]
        exact h.sum
      · rw [hentries]
        exact h.minimum
      · rw [hentries]
        exact h.maximum
  | some value =>
      have hentries : numericEntries (points ++ [p]) =
          numericEntries points ++ [(p.time, value)] := by
        rw [numericEntries_append, numericEntries_some hvalue]
        rfl
      refine ⟨?_, ?_, ?_, ?_, ?_⟩
      · rw [hentries, List.length_append, ← h.count]
        rfl
      · rw [hnn, nonNumericCount_some hvalue, ← h.nonNumeric]
        rfl
      · rw [hentries, List.map_append, List.sum_append, ← h.sum]
        simp
      · rw [hentries, ← push_survivors, ← h.minimum]
        rfl
      · rw [hentries, ← push_survivors, ← h.maximum]
        rfl

/-- Adding points one by one. -/
theorem StatisticsOf.appendAll {points : List RawTimeseriesPoint} {w : SequenceWindow}
    (h : StatisticsOf points w) (hv : w.statisticsValid = true) (ps : List RawTimeseriesPoint) :
    StatisticsOf (points ++ ps) (ps.foldl appendStatistic w) := by
  induction ps generalizing points w with
  | nil => rwa [List.append_nil]
  | cons p ps ih =>
      have hstep := ih (h.append hv p) ((appendStatistic_valid w p).trans hv)
      rwa [List.append_assoc] at hstep

/-- Removing the oldest point leaves the rest. -/
theorem StatisticsOf.remove {p : RawTimeseriesPoint} {points : List RawTimeseriesPoint}
    {w : SequenceWindow} (h : StatisticsOf (p :: points) w) (hv : w.statisticsValid = true)
    (hnew : ∀ q ∈ points, p.time < q.time) : StatisticsOf points (removeStatistic w p) := by
  rw [removeStatistic, hv, if_neg (by simp)]
  cases hvalue : numericValue p.value with
  | none =>
      have hentries := numericEntries_none hvalue points
      refine ⟨?_, ?_, ?_, ?_, ?_⟩
      · rw [← hentries]
        exact h.count
      · have hcount := h.nonNumeric
        rw [nonNumericCount_none hvalue] at hcount
        show w.statisticsNonNumericCount - 1 = _
        omega
      · rw [← hentries]
        exact h.sum
      · rw [← hentries]
        exact h.minimum
      · rw [← hentries]
        exact h.maximum
  | some value =>
      have hentries := numericEntries_some hvalue points
      -- the popped key belongs to this entry alone
      have hkeys : ∀ e ∈ numericEntries points, e.1 ≠ ((p.time, value) : Timestamp × ℚ).1 := by
        intro e he heq
        obtain ⟨q, hq, hqt, _⟩ := mem_numericEntries.mp he
        exact absurd (hnew q hq) (by rw [hqt, heq]; exact lt_irrefl _)
      refine ⟨?_, ?_, ?_, ?_, ?_⟩
      · have hcount := h.count
        rw [hentries, List.length_cons] at hcount
        show w.statisticsCount - 1 = _
        omega
      · rw [← nonNumericCount_some hvalue points]
        exact h.nonNumeric
      · have hsum := h.sum
        rw [hentries, List.map_cons, List.sum_cons] at hsum
        show w.statisticsSum - value = _
        rw [hsum]
        exact add_sub_cancel_left _ _
      · rw [← popFront_survivors _ hkeys, ← hentries, ← h.minimum]
        exact popFrontAt_eq p.time w.statisticsMinimum
      · rw [← popFront_survivors _ hkeys, ← hentries, ← h.maximum]
        exact popFrontAt_eq p.time w.statisticsMaximum

/-- Removing points one by one. -/
theorem StatisticsOf.removeAll {ps points : List RawTimeseriesPoint} {w : SequenceWindow}
    (h : StatisticsOf (ps ++ points) w) (hv : w.statisticsValid = true)
    (hasc : Ascending RawTimeseriesPoint.time (ps ++ points)) :
    StatisticsOf points (ps.foldl removeStatistic w) := by
  induction ps generalizing w with
  | nil => exact h
  | cons p ps ih =>
      obtain ⟨hp, hps⟩ := (ascending_cons _).mp hasc
      exact ih (h.remove hv hp) ((removeStatistic_valid w p).trans hv) hps

/-- Only the cache fields matter. -/
theorem StatisticsOf.congr {points : List RawTimeseriesPoint} {w w' : SequenceWindow}
    (h : StatisticsOf points w) (hcount : w'.statisticsCount = w.statisticsCount)
    (hnon : w'.statisticsNonNumericCount = w.statisticsNonNumericCount)
    (hsum : w'.statisticsSum = w.statisticsSum)
    (hmin : w'.statisticsMinimum = w.statisticsMinimum)
    (hmax : w'.statisticsMaximum = w.statisticsMaximum) : StatisticsOf points w' :=
  ⟨hcount.trans h.count, hnon.trans h.nonNumeric, hsum.trans h.sum, hmin.trans h.minimum,
    hmax.trans h.maximum⟩

/-! ## The invariant -/

theorem exact_new : Exact {} := fun _ => ⟨rfl, rfl, rfl, rfl, rfl, rfl⟩

/-- Appending points counts them. -/
theorem foldl_appendPoint_statistics {points : List RawTimeseriesPoint} {w : SequenceWindow}
    (h : StatisticsOf points w) (hv : w.statisticsValid = true) (ps : List RawTimeseriesPoint) :
    StatisticsOf (points ++ ps) (ps.foldl appendPoint w) := by
  induction ps generalizing points w with
  | nil => rwa [List.append_nil]
  | cons p ps ih =>
      have hmoved : StatisticsOf points
          { w with points := w.points ++ [p], latestTime := some p.time } :=
        h.congr rfl rfl rfl rfl rfl
      have hstep := ih (hmoved.append hv p) ((appendStatistic_valid _ p).trans hv)
      rwa [List.append_assoc] at hstep

/-- Appending keeps the statistics exact. -/
theorem appendPath_exact {w : SequenceWindow} (hv : Valid w) (he : Exact w)
    (ps : List RawTimeseriesPoint) : Exact (ps.foldl appendPoint w) := by
  intro hvalid
  have hkept : (ps.foldl appendPoint w).statisticsValid = w.statisticsValid :=
    foldl_statisticsValid (f := appendPoint) (fun _ p => appendStatistic_valid _ p) ps w
  have hold := hkept.symm.trans hvalid
  obtain ⟨hlate, hstat⟩ := he hold
  refine ⟨(foldl_appendPoint ps w).latePoints.trans hlate, ?_⟩
  rw [appendPath_active hv]
  exact foldl_appendPoint_statistics hstat hold ps

/-- Compaction keeps the statistics exact. -/
theorem compactSequence_exact {w : SequenceWindow} (h : Exact w) : Exact (compactSequence w) := by
  intro hvalid
  have hold : w.statisticsValid = true := by
    unfold compactSequence at hvalid
    split at hvalid
    · exact hvalid
    · split at hvalid
      · exact hvalid
      · exact hvalid
  obtain ⟨hlate, hstat⟩ := h hold
  rw [compactSequence_latePoints, compactSequence_active]
  refine ⟨hlate, ?_⟩
  unfold compactSequence
  split
  · exact hstat
  · split
    · exact hstat.congr rfl rfl rfl rfl rfl
    · exact hstat.congr rfl rfl rfl rfl rfl

/-- A merge marks the statistics invalid. -/
theorem mergeSortedPoints_invalid (w : SequenceWindow) (incoming : List RawTimeseriesPoint) :
    (mergeSortedPoints w incoming).statisticsValid = false := by
  have hcompact : (compactSequence { w with statisticsValid := false }).statisticsValid =
      false := by
    unfold compactSequence
    split
    · rfl
    · split <;> rfl
  cases incoming with
  | nil => exact hcompact
  | cons p ps => exact hcompact

theorem flushLatePoints_exact {w : SequenceWindow} (h : Exact w) : Exact (flushLatePoints w) := by
  unfold flushLatePoints
  split
  · exact h
  · exact exact_of_invalid (mergeSortedPoints_invalid _ _)

/-- An update keeps the statistics exact. -/
theorem updateSequence_exact {w : SequenceWindow} (hv : Valid w) (he : Exact w)
    (prepared : PreparedSequenceUpdate) : Exact (updateSequence w prepared).1 := by
  unfold updateSequence
  by_cases ha : appendOnly w prepared = true
  · rw [if_pos ha]
    exact appendPath_exact hv he prepared.incoming
  · rw [if_neg ha]
    by_cases hempty : (isEmpty w && w.latePoints.isEmpty) = true
    · rw [if_pos hempty]
      exact exact_of_invalid (mergeSortedPoints_invalid _ _)
    · rw [if_neg hempty]
      -- late points are only ever held with the cache switched off
      have hlate : Exact (prepared.incoming.foldl addLatePoint
          { w with statisticsValid := false }) :=
        exact_of_invalid (foldl_statisticsValid (f := addLatePoint) (fun _ _ => rfl) prepared.incoming _)
      show Exact (if _ then _ else _)
      split
      · exact flushLatePoints_exact hlate
      · exact hlate

/-- A prune keeps the statistics exact. -/
theorem pruneOne_exact {w : SequenceWindow} (hv : Valid w) (he : Exact w) (start : Timestamp) :
    Exact (pruneOne start w).1 := by
  have hremoved : ((below RawTimeseriesPoint.time start (active w)).foldl removeStatistic
      w).statisticsValid = w.statisticsValid :=
    foldl_statisticsValid (fun _ p => removeStatistic_valid _ p) _ w
  have hsame := foldl_same removeStatistic_same (below RawTimeseriesPoint.time start (active w)) w
  have hpruned : Exact
      { (below RawTimeseriesPoint.time start (active w)).foldl removeStatistic w with
        statisticsValid :=
          ((below RawTimeseriesPoint.time start (active w)).foldl removeStatistic
            w).statisticsValid && (below RawTimeseriesPoint.time start w.latePoints).isEmpty
        activeBegin :=
          w.activeBegin + (below RawTimeseriesPoint.time start (active w)).length
        latePoints := atOrAbove RawTimeseriesPoint.time start w.latePoints } := by
    intro hvalid
    have hold : w.statisticsValid = true :=
      hremoved.symm.trans (Bool.and_eq_true_iff.mp hvalid).1
    obtain ⟨hlate, hstat⟩ := he hold
    have hdrop : ((below RawTimeseriesPoint.time start (active w)).foldl removeStatistic
        w).points.drop (w.activeBegin + (below RawTimeseriesPoint.time start (active w)).length) =
          atOrAbove RawTimeseriesPoint.time start (active w) := by
      rw [hsame.points, ← drop_length_below, active, List.drop_drop]
    refine ⟨?_, ?_⟩
    · show atOrAbove RawTimeseriesPoint.time start w.latePoints = []
      rw [hlate]
      rfl
    · -- the expired points are the front of the described list
      rw [active, hdrop]
      have hsplit := below_append_atOrAbove RawTimeseriesPoint.time start (active w)
      exact StatisticsOf.congr
        (StatisticsOf.removeAll (hsplit.symm ▸ hstat) hold (hsplit.symm ▸ hv.activeSorted))
        rfl rfl rfl rfl rfl
  unfold pruneOne
  simp only
  split
  · exact compactSequence_exact hpruned
  · exact hpruned

/-- After a rebuild the cache is valid and describes the whole content. -/
theorem rebuildStatistics_spec {w : SequenceWindow} (hv : Valid w) :
    (rebuildStatistics w).statisticsValid = true ∧ (rebuildStatistics w).latePoints = [] ∧
      StatisticsOf (content w) (rebuildStatistics w) := by
  have hflat := flushLatePoints_active hv.flushable
  refine ⟨foldl_statisticsValid (fun _ p => appendStatistic_valid _ p) _ _,
    (rebuildStatistics_same w).latePoints.trans (flushLatePoints_latePoints w), ?_⟩
  have hall := (statisticsOf_reset (flushLatePoints w)).appendAll rfl
    (active (resetStatistics (flushLatePoints w)))
  have hsame : active (resetStatistics (flushLatePoints w)) = content w := hflat
  rw [List.nil_append] at hall
  exact hsame ▸ hall

/-- Rebuilt statistics are exact. -/
theorem rebuildStatistics_exact {w : SequenceWindow} (hv : Valid w) :
    Exact (rebuildStatistics w) := by
  intro _
  obtain ⟨_, hlate, hstat⟩ := rebuildStatistics_spec hv
  refine ⟨hlate, ?_⟩
  have hcontent : active (rebuildStatistics w) = content (rebuildStatistics w) := by
    rw [content, hlate, assignAll_nil]
  rwa [hcontent, rebuildStatistics_content hv]

theorem replaceSequence_exact (w : SequenceWindow) (data : TimeseriesBatch) :
    Exact (replaceSequence w data) := by
  intro _
  have hsame := replaceSequence_same w data
  refine ⟨hsame.latePoints, ?_⟩
  rw [hsame.active]
  have hall := (statisticsOf_reset
    { w with
      points := sortUnique RawTimeseriesPoint.time data.points
      activeBegin := 0
      latePoints := []
      latestTime :=
        (sortUnique RawTimeseriesPoint.time data.points).getLast?.map
          RawTimeseriesPoint.time }).appendAll rfl
    (sortUnique RawTimeseriesPoint.time data.points)
  exact hall

theorem patchSequence_exact (w : SequenceWindow) (startTime endTime : Timestamp)
    (data : TimeseriesBatch) : Exact (patchSequence w startTime endTime data) :=
  exact_of_invalid (mergeSortedPoints_invalid _ _)

end SeqStatistics
