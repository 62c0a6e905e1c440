import TimeSeriesEngine.Types
import TimeSeriesEngine.Library.OrderedSeries

/-!
# One hot sequence — append buffer, late points, lazily advanced head

A `SequenceWindow` keeps the points of one sequence in three places: a vector
whose dead prefix ends at `activeBegin`, an ordered side map of late
corrections, and a `latestTime` hint that may be stale.  This file is the code
of `window_service.cpp` on that representation: the statistics cache, the merge
and flush machinery, `update_sequence`, `pruneOne`, and the three loops of a
query.
-/

namespace SeqWindow

open TseTypes OrderedSeries

/-- `late_points` is keyed by the time of the point it stores, so the map is the
    list of its points in time order. -/
structure SequenceWindow where
  points : List RawTimeseriesPoint := []
  latePoints : List RawTimeseriesPoint := []
  activeBegin : Nat := 0
  latestTime : Option Timestamp := none
  statisticsValid : Bool := true
  statisticsCount : Nat := 0
  statisticsNonNumericCount : Nat := 0
  statisticsSum : ℚ := 0
  statisticsMinimum : List (Timestamp × ℚ) := []
  statisticsMaximum : List (Timestamp × ℚ) := []

/-- Late points are folded back into the vector at this many. -/
def kLatePointFlushThreshold : Nat := 64

/-- The live part of the vector: `[points.begin() + active_begin, points.end())`. -/
def active (w : SequenceWindow) : List RawTimeseriesPoint := w.points.drop w.activeBegin

/-- `SequenceWindow::empty`. -/
def isEmpty (w : SequenceWindow) : Bool :=
  decide (w.points.length ≤ w.activeBegin) && w.latePoints.isEmpty

/-! ## Statistics -/

/-- `resetStatistics`: the statistics of no points. -/
def resetStatistics (w : SequenceWindow) : SequenceWindow :=
  { w with
    statisticsValid := true
    statisticsCount := 0
    statisticsNonNumericCount := 0
    statisticsSum := 0
    statisticsMinimum := []
    statisticsMaximum := [] }

/-- Drop from the back while `drop` holds, then push. -/
def pushMonotone (drop : ℚ → Bool) (entry : Timestamp × ℚ) (deque : List (Timestamp × ℚ)) :
    List (Timestamp × ℚ) :=
  (deque.reverse.dropWhile (fun e => drop e.2)).reverse ++ [entry]

/-- `appendStatistic`: a newest point joins. -/
def appendStatistic (w : SequenceWindow) (point : RawTimeseriesPoint) : SequenceWindow :=
  if !w.statisticsValid then w
  else
    match numericValue point.value with
    | none => { w with statisticsNonNumericCount := w.statisticsNonNumericCount + 1 }
    | some value =>
        { w with
          statisticsCount := w.statisticsCount + 1
          statisticsSum := w.statisticsSum + value
          statisticsMinimum :=
            pushMonotone (fun back => decide (value ≤ back)) (point.time, value)
              w.statisticsMinimum
          statisticsMaximum :=
            pushMonotone (fun back => decide (back ≤ value)) (point.time, value)
              w.statisticsMaximum }

/-- `pop_front` when the front entry carries this time. -/
def popFrontAt (time : Timestamp) : List (Timestamp × ℚ) → List (Timestamp × ℚ)
  | [] => []
  | e :: es => if e.1 = time then es else e :: es

/-- `removeStatistic`: the oldest point leaves. -/
def removeStatistic (w : SequenceWindow) (point : RawTimeseriesPoint) : SequenceWindow :=
  if !w.statisticsValid then w
  else
    match numericValue point.value with
    | none => { w with statisticsNonNumericCount := w.statisticsNonNumericCount - 1 }
    | some value =>
        { w with
          statisticsCount := w.statisticsCount - 1
          statisticsSum := w.statisticsSum - value
          statisticsMinimum := popFrontAt point.time w.statisticsMinimum
          statisticsMaximum := popFrontAt point.time w.statisticsMaximum }

/-! ## The vector and the late points -/

/-- Physical removal of the dead prefix. -/
def compactSequence (w : SequenceWindow) : SequenceWindow :=
  if w.activeBegin = 0 then w
  else if w.points.length ≤ w.activeBegin then { w with points := [], activeBegin := 0 }
  else { w with points := w.points.drop w.activeBegin, activeBegin := 0 }

/-- The insertion loop of `mergeSortedPoints`: `tail` is the vector from
    `search_begin` on, which never moves back. -/
def insertSorted : List RawTimeseriesPoint → List RawTimeseriesPoint → List RawTimeseriesPoint
  | tail, [] => tail
  | tail, point :: incoming =>
      below RawTimeseriesPoint.time point.time tail ++
        match atOrAbove RawTimeseriesPoint.time point.time tail with
        | [] => point :: insertSorted [] incoming
        | found :: rest =>
            if found.time = point.time then point :: insertSorted rest incoming
            else point :: insertSorted (found :: rest) incoming

/-- `mergeSortedPoints`. -/
def mergeSortedPoints (w : SequenceWindow) (incoming : List RawTimeseriesPoint) :
    SequenceWindow :=
  let w := compactSequence { w with statisticsValid := false }
  match incoming with
  | [] => w
  | front :: rest =>
      let points :=
        match w.points.getLast? with
        | none => w.points ++ front :: rest
        | some back =>
            if back.time < front.time then w.points ++ front :: rest
            else insertSorted w.points (front :: rest)
      { w with
        points := points
        activeBegin := 0
        latestTime :=
          match points.getLast? with
          | some back => some back.time
          | none => if w.latePoints.isEmpty then none else w.latestTime }

/-- `flushLatePoints`: the late points join the vector. -/
def flushLatePoints (w : SequenceWindow) : SequenceWindow :=
  if w.latePoints.isEmpty then w
  else mergeSortedPoints { w with latePoints := [] } w.latePoints

/-- `rebuildStatistics`, from all points. -/
def rebuildStatistics (w : SequenceWindow) : SequenceWindow :=
  let w := resetStatistics (flushLatePoints w)
  (active w).foldl appendStatistic w

/-- A derived series is written anew. -/
def replaceSequence (w : SequenceWindow) (data : TimeseriesBatch) : SequenceWindow :=
  let points := sortUnique RawTimeseriesPoint.time data.points
  points.foldl appendStatistic
    (resetStatistics
      { w with
        points := points
        activeBegin := 0
        latePoints := []
        latestTime := points.getLast?.map RawTimeseriesPoint.time })

/-- The body of `patchDerivedSequence` on the output sequence. -/
def patchSequence (w : SequenceWindow) (startTime endTime : Timestamp)
    (data : TimeseriesBatch) : SequenceWindow :=
  let w := compactSequence (flushLatePoints w)
  let before := below RawTimeseriesPoint.time startTime w.points
  let after :=
    if endTime = int64Max then []
    else w.points.dropWhile (fun point => decide (point.time ≤ endTime))
  mergeSortedPoints { w with points := before ++ after }
    (sortUnique RawTimeseriesPoint.time data.points)

/-! ## Updating and pruning -/

/-- The scan for `incoming[index].time <= incoming[index - 1].time`. -/
def strictlyIncreasing : List RawTimeseriesPoint → Bool
  | first :: second :: rest =>
      if second.time ≤ first.time then false else strictlyIncreasing (second :: rest)
  | _ => true

/-- The points a batch has for one sequence. -/
structure PreparedSequenceUpdate where
  sequenceId : SequenceId
  incoming : List RawTimeseriesPoint
  strictlyIncreasing : Bool

/-- Sorting and duplicate removal, done before the sequence lock is taken. -/
def prepareUpdate (sequenceId : SequenceId) (incoming : List RawTimeseriesPoint) :
    PreparedSequenceUpdate :=
  if strictlyIncreasing incoming then ⟨sequenceId, incoming, true⟩
  else ⟨sequenceId, sortUnique RawTimeseriesPoint.time incoming, false⟩

/-- The append path of `update_sequence`, one point. -/
def appendPoint (w : SequenceWindow) (point : RawTimeseriesPoint) : SequenceWindow :=
  appendStatistic { w with points := w.points ++ [point], latestTime := some point.time } point

/-- The late path of `update_sequence`, one point. -/
def addLatePoint (w : SequenceWindow) (point : RawTimeseriesPoint) : SequenceWindow :=
  { w with
    latePoints := assign RawTimeseriesPoint.time point w.latePoints
    latestTime :=
      match w.latestTime with
      | none => some point.time
      | some latest => if latest < point.time then some point.time else some latest }

/-- `prepared.incoming.front().time > *latest_time`, when both exist. -/
def appendOnly (w : SequenceWindow) (prepared : PreparedSequenceUpdate) : Bool :=
  prepared.strictlyIncreasing &&
    match prepared.incoming with
    | [] => false
    | front :: _ =>
        match w.latestTime with
        | none => true
        | some latest => decide (latest < front.time)

/-- `update_sequence`: the new window, and whether the update only appended. -/
def updateSequence (w : SequenceWindow) (prepared : PreparedSequenceUpdate) :
    SequenceWindow × Bool :=
  if appendOnly w prepared then (prepared.incoming.foldl appendPoint w, true)
  else if isEmpty w && w.latePoints.isEmpty then (mergeSortedPoints w prepared.incoming, false)
  else
    let w := prepared.incoming.foldl addLatePoint { w with statisticsValid := false }
    (if kLatePointFlushThreshold ≤ w.latePoints.length then flushLatePoints w else w, false)

/-- `pruneOne`: drop everything older than `start`, and say whether that was
    anything. -/
def pruneOne (start : Timestamp) (w : SequenceWindow) : SequenceWindow × Bool :=
  let expired := below RawTimeseriesPoint.time start (active w)
  let lateExpired := below RawTimeseriesPoint.time start w.latePoints
  let removed := expired.foldl removeStatistic w
  let pruned :=
    { removed with
      statisticsValid := removed.statisticsValid && lateExpired.isEmpty
      activeBegin := w.activeBegin + expired.length
      latePoints := atOrAbove RawTimeseriesPoint.time start w.latePoints }
  -- physical memory is reclaimed only once the dead prefix is long
  (if 4096 ≤ pruned.activeBegin ∧ pruned.points.length ≤ pruned.activeBegin * 2 then
      compactSequence pruned
    else pruned,
   !expired.isEmpty || !lateExpired.isEmpty)

/-! ## Reading -/

/-- The loop over `preceding_points`; both lists are read backwards, and a late
    point wins on equal times. -/
def takePreceding : Nat → List RawTimeseriesPoint → List RawTimeseriesPoint →
    List RawTimeseriesPoint
  | 0, _, _ => []
  | _ + 1, [], [] => []
  | n + 1, v :: vs, [] => v :: takePreceding n vs []
  | n + 1, [], l :: ls => l :: takePreceding n [] ls
  | n + 1, v :: vs, l :: ls =>
      if v.time ≤ l.time then
        l :: (if v.time = l.time then takePreceding n vs ls else takePreceding n (v :: vs) ls)
      else v :: takePreceding n vs (l :: ls)

/-- The loop over the requested range; the first argument bounds its turns. -/
def mergeRange : Nat → List RawTimeseriesPoint → List RawTimeseriesPoint →
    List RawTimeseriesPoint
  | 0, _, _ => []
  | _ + 1, [], [] => []
  | n + 1, [], l :: ls => l :: mergeRange n [] ls
  | n + 1, v :: vs, [] => v :: mergeRange n vs []
  | n + 1, v :: vs, l :: ls =>
      if v.time < l.time then v :: mergeRange n vs (l :: ls)
      else if l.time < v.time then l :: mergeRange n (v :: vs) ls
      else l :: mergeRange n vs ls

/-- The loop over `following_points`. -/
def takeFollowing : Nat → List RawTimeseriesPoint → List RawTimeseriesPoint →
    List RawTimeseriesPoint
  | 0, _, _ => []
  | _ + 1, [], [] => []
  | n + 1, v :: vs, [] => v :: takeFollowing n vs []
  | n + 1, [], l :: ls => l :: takeFollowing n [] ls
  | n + 1, v :: vs, l :: ls =>
      if l.time ≤ v.time then
        l :: (if v.time = l.time then takeFollowing n vs ls else takeFollowing n (v :: vs) ls)
      else v :: takeFollowing n vs (l :: ls)

/-- What `queryWindowData` appends to the output of one sequence. -/
def querySequence (w : SequenceWindow) (start finish : Timestamp)
    (precedingPoints followingPoints : Nat) : List RawTimeseriesPoint :=
  let vectorBefore := below RawTimeseriesPoint.time start (active w)
  let vectorRest := atOrAbove RawTimeseriesPoint.time start (active w)
  let vectorRange := below RawTimeseriesPoint.time finish vectorRest
  let vectorAfter := atOrAbove RawTimeseriesPoint.time finish vectorRest
  let lateBefore := below RawTimeseriesPoint.time start w.latePoints
  let lateRest := atOrAbove RawTimeseriesPoint.time start w.latePoints
  let lateRange := below RawTimeseriesPoint.time finish lateRest
  let lateAfter := atOrAbove RawTimeseriesPoint.time finish lateRest
  (takePreceding precedingPoints vectorBefore.reverse lateBefore.reverse).reverse ++
    mergeRange (vectorRange.length + lateRange.length) vectorRange lateRange ++
    takeFollowing followingPoints vectorAfter lateAfter

end SeqWindow
