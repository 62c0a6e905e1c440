import TimeSeriesEngine.Library.BinarySearch
import TimeSeriesEngine.WindowRuns

/-!
# Side structures of a sequence stay bounded

A sequence keeps its points in a vector whose first `active_begin` elements are
evicted but still there, and late points in a side map.  `Valid` speaks of the
live part; here the dead prefix is included.

* `Stored` — the whole vector increases, and nothing stored or late lies behind
  `latest_time`;
* `kept_stored` — every operation on a window restores it: a window without a
  dead prefix has nothing to show (`stored_of_flat`), and the operations that keep
  the prefix only append behind `latest_time`, fill the side map, or move
  `active_begin`;
* `insertSorted_search` — the insertion loop of `mergeSortedPoints` with the index
  and the binary searches of the code is the loop on lists;
* `side_structures_bounded` — the bounds after every run.
-/

namespace StoredBounds

open TseTypes KeyedTable OrderedSeries SeqWindow SeqContent HotWindow
open WindowRuns BinarySearch

/-- What holds of a whole vector, the dead prefix included. -/
structure Stored (w : SequenceWindow) : Prop where
  valid : Valid w
  increasing : Ascending RawTimeseriesPoint.time w.points
  latestBound : ∀ p, p ∈ w.points ∨ p ∈ w.latePoints →
    ∃ t, w.latestTime = some t ∧ p.time ≤ t

/-- Without a dead prefix the vector is its live part. -/
theorem stored_of_flat {w : SequenceWindow} (hv : Valid w) (hzero : w.activeBegin = 0) :
    Stored w where
  valid := hv
  increasing := by
    have hsorted := hv.activeSorted
    rwa [active, hzero, List.drop_zero] at hsorted
  latestBound := by
    have hbound := hv.latestBound
    rwa [active, hzero, List.drop_zero] at hbound

/-- A valid window with the vector and the latest time of one whose vector is in
    order, and no more late points. -/
theorem Stored.of_points {w w' : SequenceWindow} (h : Stored w) (hv : Valid w')
    (hpoints : w'.points = w.points) (hlatest : w'.latestTime = w.latestTime)
    (hlate : ∀ p ∈ w'.latePoints, p ∈ w.latePoints) : Stored w' where
  valid := hv
  increasing := by rw [hpoints]; exact h.increasing
  latestBound := by
    intro p hp
    rw [hpoints] at hp
    rw [hlatest]
    exact h.latestBound p (hp.imp id (hlate p))

/-! ## Every operation restores it -/

/-- Appending keeps the bounds. -/
theorem stored_append {w : SequenceWindow} (h : Stored w) {prepared : PreparedSequenceUpdate}
    (hi : Ascending RawTimeseriesPoint.time prepared.incoming)
    (ha : appendOnly w prepared = true) : Stored (prepared.incoming.foldl appendPoint w) := by
  have hs := foldl_appendPoint prepared.incoming w
  refine ⟨appendPath_valid h.valid hi ha, ?_, fun p hp => appendPath_latest hi ha ?_⟩
  · rw [hs.points]
    exact (ascending_append _).mpr ⟨h.increasing, hi, fun p hp q hq =>
      appendOnly_after hi ha (h.latestBound p (Or.inl hp)) hq⟩
  · rw [hs.points, hs.latePoints, List.mem_append] at hp
    rcases hp with (hp | hp) | hp
    · exact Or.inl (h.latestBound p (Or.inl hp))
    · exact Or.inr hp
    · exact Or.inl (h.latestBound p (Or.inr hp))

/-- Flushing rewrites the vector or does nothing. -/
theorem flushLatePoints_cases (w : SequenceWindow) :
    flushLatePoints w = w ∨ (flushLatePoints w).activeBegin = 0 := by
  unfold flushLatePoints
  by_cases he : w.latePoints.isEmpty = true
  · exact Or.inl (if_pos he)
  · rw [if_neg he]
    exact Or.inr (mergeSortedPoints_activeBegin _ _)

/-- Filling the side map moves `latest_time` along. -/
theorem stored_late {w : SequenceWindow} (h : Stored w) (ps : List RawTimeseriesPoint)
    (hv : Valid (ps.foldl addLatePoint { w with statisticsValid := false })) :
    Stored (ps.foldl addLatePoint { w with statisticsValid := false }) := by
  obtain ⟨hpoints, _, hlate⟩ := foldl_addLatePoint ps { w with statisticsValid := false }
  refine ⟨hv, ?_, fun p hp => foldl_addLatePoint_latest _ _ _ ?_⟩
  · rw [hpoints]
    exact h.increasing
  · rw [hpoints, hlate, mem_assignAll _ h.valid.lateSorted] at hp
    rcases hp with hp | hp | ⟨_, hp⟩
    · exact Or.inr (h.latestBound p (Or.inl hp))
    · exact Or.inl ⟨p, (lastAt_some _ hp).1, rfl⟩
    · exact Or.inr (h.latestBound p (Or.inr hp))

/-- An update keeps the bounds. -/
theorem stored_update {w : SequenceWindow} (h : Stored w) {prepared : PreparedSequenceUpdate}
    (hi : Ascending RawTimeseriesPoint.time prepared.incoming) :
    Stored (updateSequence w prepared).1 := by
  have hvalid := updateSequence_valid h.valid hi
  have hlate := stored_late h prepared.incoming
  unfold updateSequence at hvalid ⊢
  by_cases ha : appendOnly w prepared = true
  · rw [if_pos ha]
    exact stored_append h hi ha
  · rw [if_neg ha] at hvalid ⊢
    by_cases he : (isEmpty w && w.latePoints.isEmpty) = true
    · rw [if_pos he] at hvalid ⊢
      exact stored_of_flat hvalid (mergeSortedPoints_activeBegin _ _)
    · rw [if_neg he] at hvalid ⊢
      simp only at hvalid ⊢
      generalize prepared.incoming.foldl addLatePoint { w with statisticsValid := false } =
        buffered at hvalid hlate ⊢
      by_cases hfull : kLatePointFlushThreshold ≤ buffered.latePoints.length
      · rw [if_pos hfull] at hvalid ⊢
        rcases flushLatePoints_cases buffered with hsame | hzero
        · -- a full buffer is not empty, so the flush does something
          rw [hsame] at hvalid ⊢
          exact absurd hvalid.lateFew (not_lt.mpr hfull)
        · exact stored_of_flat hvalid hzero
      · rw [if_neg hfull] at hvalid ⊢
        exact hlate hvalid

/-- A prune gives the dead prefix back, or leaves the vector as it is. -/
theorem pruneOne_cases (start : Timestamp) (w : SequenceWindow) :
    (pruneOne start w).1.activeBegin = 0 ∨ (pruneOne start w).1.points = w.points := by
  have hr := foldl_same removeStatistic_same
    (below RawTimeseriesPoint.time start (active w)) w
  unfold pruneOne
  simp only
  split
  · exact Or.inl (compactSequence_activeBegin _)
  · exact Or.inr hr.points

theorem stored_prune {w : SequenceWindow} (h : Stored w) (start : Timestamp) :
    Stored (pruneOne start w).1 := by
  have hvalid := pruneOne_valid h.valid start
  rcases pruneOne_cases start w with hzero | hpoints
  · exact stored_of_flat hvalid hzero
  · obtain ⟨_, hlate, hlatest⟩ := pruneOne_storage start w
    refine h.of_points hvalid hpoints hlatest fun p hp => ?_
    rw [hlate] at hp
    exact (List.dropWhile_sublist _).mem hp

theorem stored_replace (w : SequenceWindow) (data : TimeseriesBatch) :
    Stored (replaceSequence w data) :=
  stored_of_flat (replaceSequence_valid w data) (replaceSequence_same w data).activeBegin

theorem stored_patch {w : SequenceWindow} (h : Stored w) {startTime endTime : Timestamp}
    (hle : startTime ≤ endTime) (data : TimeseriesBatch) :
    Stored (patchSequence w startTime endTime data) :=
  stored_of_flat (patchSequence_valid h.valid hle data) (mergeSortedPoints_activeBegin _ _)

theorem stored_rebuild {w : SequenceWindow} (h : Stored w) : Stored (rebuildStatistics w) := by
  have hvalid := rebuildStatistics_valid h.valid
  have hs := rebuildStatistics_same w
  rcases flushLatePoints_cases w with hsame | hzero
  · rw [hsame] at hs
    exact h.of_points hvalid hs.points hs.latestTime fun p hp => hs.latePoints ▸ hp
  · exact stored_of_flat hvalid (hs.activeBegin.trans hzero)

/-- **Step.**  What every operation on a window restores. -/
theorem kept_stored : Kept Stored where
  new := stored_of_flat valid_new rfl
  update := fun _ _ hi h => stored_update h hi
  prune := fun _ start h => stored_prune h start
  replace := fun w data _ => stored_replace w data
  patch := fun _ _ _ data hle h => stored_patch h hle data
  rebuild := fun _ h => stored_rebuild h

/-! ## The searches -/

/-- The insertion loop of `mergeSortedPoints` with its index: every search starts
    where the previous insertion ended. -/
def insertFrom (points : List RawTimeseriesPoint) (searchBegin : Nat) :
    List RawTimeseriesPoint → List RawTimeseriesPoint
  | [] => points
  | point :: incoming =>
      let index := lowerBound RawTimeseriesPoint.time point.time points searchBegin
      let points :=
        if (points[index]?).any (fun found => decide (found.time = point.time)) then
          points.set index point
        else points.take index ++ point :: points.drop index
      insertFrom points (index + 1) incoming

/-- Behind a sorted tail every search of the loop is valid. -/
theorem insertFrom_eq {front tail incoming : List RawTimeseriesPoint}
    (htail : Ascending RawTimeseriesPoint.time tail) :
    insertFrom (front ++ tail) front.length incoming = front ++ insertSorted tail incoming := by
  induction incoming generalizing front tail with
  | nil => rw [insertFrom, insertSorted]
  | cons point incoming ih =>
      have hsearch : lowerBound RawTimeseriesPoint.time point.time (front ++ tail) front.length =
          (front ++ below RawTimeseriesPoint.time point.time tail).length := by
        rw [lowerBound_eq _ (by rw [List.drop_left]; exact htail.ordered) (by simp),
          List.drop_left, List.length_append]
      have hsplit : front ++ tail = (front ++ below RawTimeseriesPoint.time point.time tail) ++
          atOrAbove RawTimeseriesPoint.time point.time tail := by
        rw [List.append_assoc, below_append_atOrAbove]
      have hup := htail.atOrAbove RawTimeseriesPoint.time point.time
      rw [insertFrom, insertSorted, ← List.append_assoc, hsearch, hsplit]
      generalize front ++ below RawTimeseriesPoint.time point.time tail = before
      -- the loop goes on behind the point it has just placed
      have hnext : ∀ {rest : List RawTimeseriesPoint},
          Ascending RawTimeseriesPoint.time rest →
            insertFrom (before ++ point :: rest) (before.length + 1) incoming =
              before ++ point :: insertSorted rest incoming := fun {rest} hrest => by
        have hplaced : insertFrom ((before ++ [point]) ++ rest) (before ++ [point]).length incoming =
            (before ++ [point]) ++ insertSorted rest incoming := ih hrest
        rwa [List.length_append, List.length_singleton, List.append_assoc, List.append_assoc]
          at hplaced
      cases hat : atOrAbove RawTimeseriesPoint.time point.time tail with
      | nil =>
          rw [List.append_nil]
          simpa using hnext (ascending_nil _)
      | cons found rest =>
          rw [hat] at hup
          have hget : (before ++ found :: rest)[before.length]? = some found := by simp
          simp only [hget, Option.any_some, decide_eq_true_eq]
          by_cases htime : found.time = point.time
          · rw [if_pos htime, if_pos htime, List.set_append_right _ _ (le_refl _),
              Nat.sub_self, List.set_cons_zero]
            exact hnext ((ascending_cons _).mp hup).2
          · rw [if_neg htime, if_neg htime, List.take_left, List.drop_left]
            exact hnext hup

/-- On a live vector in order the loop over lists is the loop of the code. -/
theorem insertSorted_search {points incoming : List RawTimeseriesPoint}
    (h : Ascending RawTimeseriesPoint.time points) :
    insertSorted points incoming = insertFrom points 0 incoming := by
  have hloop : insertFrom ([] ++ points) ([] : List RawTimeseriesPoint).length incoming =
      [] ++ insertSorted points incoming := insertFrom_eq h
  exact hloop.symm

/-- A search from `first` to the end separates the times. -/
structure SearchesValid (points : List RawTimeseriesPoint) : Prop where
  lower : ∀ t first, first ≤ points.length → ∀ i p, first ≤ i → points[i]? = some p →
    (i < lowerBound RawTimeseriesPoint.time t points first ↔ p.time < t)
  upper : ∀ t first, first ≤ points.length → ∀ i p, first ≤ i → points[i]? = some p →
    (i < upperBound RawTimeseriesPoint.time t points first ↔ p.time ≤ t)

theorem searchesValid {points : List RawTimeseriesPoint}
    (h : Ascending RawTimeseriesPoint.time points) : SearchesValid points where
  lower := fun t first hfirst _ _ hi hp =>
    lt_lowerBound_iff _ (h.sublist _ (List.drop_sublist first points)).ordered hfirst t hi hp
  upper := fun t first hfirst _ _ hi hp =>
    lt_upperBound_iff _ (h.sublist _ (List.drop_sublist first points)).ordered hfirst t hi hp

/-! ## After every run -/

/-- The bounds on the side structures of one sequence. -/
structure Bounded (w : SequenceWindow) : Prop where
  lateFew : w.latePoints.length < kLatePointFlushThreshold
  beginLe : w.activeBegin ≤ w.points.length
  headShort : w.activeBegin < 4096 ∨ 2 * w.activeBegin < w.points.length
  increasing : Ascending RawTimeseriesPoint.time w.points
  searches : SearchesValid w.points
  latestBound : ∀ latest, w.latestTime = some latest →
    ∀ p, p ∈ w.points ∨ p ∈ w.latePoints → p.time ≤ latest

/-- The side structures are bounded. -/
theorem Stored.bounded {w : SequenceWindow} (h : Stored w) : Bounded w where
  lateFew := h.valid.lateFew
  beginLe := h.valid.beginLe
  headShort := h.valid.headShort.imp id fun hlt => by omega
  increasing := h.increasing
  searches := searchesValid h.increasing
  latestBound := by
    intro latest hlatest p hp
    obtain ⟨t, ht, hle⟩ := h.latestBound p hp
    rw [hlatest] at ht
    exact Option.some.inj ht ▸ hle

/-- **Side structures stay bounded.**  After every run of window operations every
    sequence has few late points and a short dead prefix, its whole vector
    increases so that every search over it is valid, and `latest_time` is not below
    anything stored or late. -/
theorem side_structures_bounded (calls : List ServiceCall) :
    EachWindow Bounded (Transition.run callStep {} calls).sequenceWindows :=
  fun key w hw => (kept_stored.run calls key w hw).bounded

end StoredBounds
