import TimeSeriesEngine.WindowUpdate
import TimeSeriesEngine.Library.Transition

/-!
# The window service refines a plain map

`HotModel` is the statement of what the service is for: per sequence, a map from
time to the last written point, plus the watermark and the window size that
decide what is dropped.  It has no vectors, no late buffer, no flush threshold
and no compaction.  Its watermark is the service's, also after the first batch,
whose last point decides it; the differential test of the service takes the
newest time there.

The result is `query_refines`: after every run of operations of one project, a
query without context points returns exactly the model's points of the range.
The one side condition is the code's own: before the first accepted update the
project has no watermark, and queries are answered as empty.
-/

namespace WindowRefinement

open TseTypes KeyedTable OrderedSeries SeqWindow SeqContent HotWindow WindowContent WindowUpdate
open Transition

/-! ## The abstract model -/

/-- The map, the watermark that the service keeps, and the window size. -/
structure HotModel where
  points : SequenceId → Timestamp → Option RawTimeseriesPoint
  watermark : Option Timestamp
  size : Int

/-- Nothing written, the default window size. -/
def emptyModel : HotModel := ⟨fun _ _ => none, none, kDefaultWindowSizeMs⟩

/-- Write one point. -/
def write (m : SequenceId → Timestamp → Option RawTimeseriesPoint) (q : RawTimeseriesPoint) :
    SequenceId → Timestamp → Option RawTimeseriesPoint :=
  Function.update m q.sequenceId (Function.update (m q.sequenceId) q.time (some q))

/-- Drop every time below `start`, in every sequence. -/
def dropBelow (start : Timestamp) (m : SequenceId → Timestamp → Option RawTimeseriesPoint) :
    SequenceId → Timestamp → Option RawTimeseriesPoint :=
  fun s t => if t < start then none else m s t

/-- The oldest time the model keeps. -/
def keepFrom (watermark size : Int) : Timestamp := max int64Min (watermark - size)

/-- The watermark after a batch, as the service keeps it: the first batch leaves the
    time of its last point, which need not be the newest one; every later batch can
    only raise it. -/
def modelWatermark (found : Option Timestamp) (points : List RawTimeseriesPoint) : Timestamp :=
  match found with
  | none => (points.getLast?.map RawTimeseriesPoint.time).getD 0
  | some watermark => points.foldl (fun acc q => max acc q.time) watermark

/-- The operations of the service. -/
inductive WindowOp where
  | configure (size : Int)
  | update (data : TimeseriesBatch) (override : Option Int)
  | replace (sequenceId : SequenceId) (data : TimeseriesBatch)
  | patch (sequenceId : SequenceId) (startTime endTime : Timestamp) (data : TimeseriesBatch)
  | query (query : WindowQuery)
  | statistics (sequenceIds : List SequenceId)

/-- The points an operation carries. -/
def carried : WindowOp → List RawTimeseriesPoint
  | .update data _ => data.points
  | .replace _ data => data.points
  | .patch _ _ _ data => data.points
  | _ => []

/-- Times are 64-bit. -/
def InRange (op : WindowOp) : Prop := ∀ q ∈ carried op, int64Min ≤ q.time ∧ q.time ≤ int64Max

/-- One operation on the model; rejected operations and queries do nothing. -/
def modelStep (p : ProjectId) (m : HotModel) : WindowOp → HotModel
  | .configure size =>
      if size ≤ 0 then m
      else
        { m with
          size := size
          points :=
            match m.watermark with
            | none => m.points
            | some watermark => dropBelow (keepFrom watermark size) m.points }
  | .update data override =>
      if (readBatch p data override).2.isSome then m
      else
        let watermark := modelWatermark m.watermark data.points
        let size := override.getD m.size
        { points := dropBelow (keepFrom watermark size) (data.points.foldl write m.points)
          watermark := some watermark
          size := size }
  | .replace sequenceId data =>
      if (validateReplace p sequenceId data).isSome then m
      else
        let written :=
          data.points.foldl write (Function.update m.points sequenceId fun _ => none)
        { m with
          points :=
            match m.watermark with
            | none => written
            | some watermark => dropBelow (keepFrom watermark m.size) written }
  | .patch sequenceId startTime endTime data =>
      if (validatePatch p sequenceId startTime endTime data).isSome then m
      else
        { m with
          points := data.points.foldl write (Function.update m.points sequenceId fun t =>
            if startTime ≤ t ∧ t ≤ endTime then none else m.points sequenceId t) }
  | .query _ => m
  | .statistics _ => m

/-- The same operation on the service. -/
def serviceStep (p : ProjectId) (service : WindowService) : WindowOp → WindowService
  | .configure size => (configureWindowSize p size service).1
  | .update data override => (updateWindowIncremental p data override service).1
  | .replace sequenceId data => (replaceDerivedSequence p sequenceId data service).1
  | .patch sequenceId startTime endTime data =>
      (patchDerivedSequence p sequenceId startTime endTime data service).1
  | .query _ => service
  | .statistics sequenceIds => (queryWindowStatistics p sequenceIds service).1

/-! ## Reading a series as a map -/

/-- The point of a series at a time. -/
def pointAt (t : Timestamp) (xs : List RawTimeseriesPoint) : Option RawTimeseriesPoint :=
  lastAt RawTimeseriesPoint.time t xs

theorem pointAt_eq_some {xs : List RawTimeseriesPoint}
    (h : Ascending RawTimeseriesPoint.time xs) {t : Timestamp} {q : RawTimeseriesPoint} :
    pointAt t xs = some q ↔ q ∈ xs ∧ q.time = t :=
  h.lastAt_iff _

/-- The point at a time after a merge. -/
theorem pointAt_assignAll {base : List RawTimeseriesPoint}
    (hb : Ascending RawTimeseriesPoint.time base) (xs : List RawTimeseriesPoint) (t : Timestamp) :
    pointAt t (assignAll RawTimeseriesPoint.time xs base) =
      (lastAt RawTimeseriesPoint.time t xs).or (pointAt t base) := by
  apply Option.ext
  intro q
  rw [pointAt_eq_some (hb.assignAll _ xs), mem_assignAll _ hb]
  cases hl : lastAt RawTimeseriesPoint.time t xs with
  | none =>
      rw [Option.none_or, pointAt_eq_some hb]
      constructor
      · rintro ⟨h, rfl⟩
        rw [hl] at h
        simpa using h
      · rintro ⟨h, rfl⟩
        exact ⟨Or.inr ⟨hl, h⟩, rfl⟩
  | some z =>
      rw [Option.some_or]
      constructor
      · rintro ⟨h, rfl⟩
        rw [hl] at h
        simpa using h
      · intro h
        cases h
        have hk := (lastAt_some _ hl).2
        exact ⟨Or.inl (by rw [hk]; exact hl), hk⟩

/-- The point at a time after a filter. -/
theorem pointAt_filter {xs : List RawTimeseriesPoint} (h : Ascending RawTimeseriesPoint.time xs)
    (keep : Timestamp → Bool) (t : Timestamp) :
    pointAt t (xs.filter fun q => keep q.time) = if keep t then pointAt t xs else none := by
  apply Option.ext
  intro q
  rw [pointAt_eq_some (h.filter _ _), List.mem_filter]
  by_cases hk : keep t = true
  · rw [if_pos hk, pointAt_eq_some h]
    constructor
    · rintro ⟨⟨h1, _⟩, h2⟩
      exact ⟨h1, h2⟩
    · rintro ⟨h1, rfl⟩
      exact ⟨⟨h1, hk⟩, rfl⟩
  · rw [if_neg hk]
    constructor
    · rintro ⟨⟨_, h1⟩, rfl⟩
      exact absurd h1 hk
    · intro h1
      exact nomatch h1

/-- Writing a batch into the map, seen at one place. -/
theorem foldl_write (points : List RawTimeseriesPoint)
    (m : SequenceId → Timestamp → Option RawTimeseriesPoint) (s : SequenceId) (t : Timestamp) :
    points.foldl write m s t =
      (lastAt RawTimeseriesPoint.time t (incomingFor s points)).or (m s t) := by
  induction points generalizing m with
  | nil => rfl
  | cons q qs ih =>
      rw [List.foldl_cons, ih]
      by_cases hs : q.sequenceId = s
      · have hin : incomingFor s (q :: qs) = q :: incomingFor s qs := by simp [incomingFor, hs]
        rw [hin, lastAt_cons, Option.or_assoc]
        refine congrArg _ ?_
        subst hs
        rw [write, Function.update_self]
        by_cases ht : q.time = t
        · subst ht
          simp
        · rw [Function.update_of_ne fun e => ht e.symm, if_neg ht, Option.none_or]
      · have hin : incomingFor s (q :: qs) = incomingFor s qs := by simp [incomingFor, hs]
        rw [hin, write, Function.update_of_ne fun e => hs e.symm]

/-- Both levels compute one start. -/
theorem windowStart_eq (watermark size : Int) :
    windowStart watermark size = keepFrom watermark size := by
  unfold windowStart keepFrom
  split
  · rename_i h
    have hle : watermark - size ≤ int64Min := by omega
    exact (max_eq_left hle).symm
  · rename_i h
    have hle : int64Min ≤ watermark - size := by omega
    exact (max_eq_right hle).symm

/-- The code's watermark loop computes the model's watermark. -/
theorem advanceWatermark_eq (found : Option Timestamp) (points : List RawTimeseriesPoint) :
    advanceWatermark found points = modelWatermark found points := by
  unfold advanceWatermark modelWatermark
  cases found with
  | none =>
      simp only [Option.isNone_none, Bool.true_or, if_true, Option.getD_none]
      generalize (0 : Int) = start
      induction points generalizing start with
      | nil => rfl
      | cons q qs ih =>
          rw [List.foldl_cons, ih, List.getLast?_cons]
          cases qs.getLast? <;> rfl
  | some watermark =>
      simp only [Option.isNone_some, Bool.false_or, Option.getD_some, decide_eq_true_eq]
      induction points generalizing watermark with
      | nil => rfl
      | cons q qs ih =>
          rw [List.foldl_cons, List.foldl_cons, ih]
          congr 1
          split
          · rename_i h
            exact (max_eq_right (le_of_lt h)).symm
          · rename_i h
            exact (max_eq_left (not_lt.mp h)).symm

/-! ## The refinement relation -/

/-- The service represents the model for project `p`. -/
structure Refines (p : ProjectId) (service : WindowService) (m : HotModel) : Prop where
  valid : AllValid service.sequenceWindows
  points : ∀ s t, m.points s t =
    pointAt t (contentOf (scopedSequenceKey p s) service.sequenceWindows)
  watermark : m.watermark = service.watermarks.find (effectiveProject p)
  size : m.size = windowSize p service
  sizePos : 0 < m.size
  inRange : ∀ s q, q ∈ contentOf (scopedSequenceKey p s) service.sequenceWindows →
    q.time ≤ int64Max

/-- Before the first operation. -/
theorem refines_init (p : ProjectId) : Refines p {} emptyModel where
  valid := allValid_empty
  points := fun _ _ => rfl
  watermark := rfl
  size := rfl
  sizePos := by decide
  inRange := fun _ _ h => absurd h (by simp [contentOf])

theorem mem_content_scoped {p : ProjectId} {windows : Table String SequenceWindow}
    (hv : AllValid windows) {s : SequenceId} {q : RawTimeseriesPoint} :
    q ∈ contentOf (scopedSequenceKey p s) windows ↔
      pointAt q.time (contentOf (scopedSequenceKey p s) windows) = some q := by
  rw [pointAt_eq_some (hv.ascending _)]
  exact ⟨fun h => ⟨h, rfl⟩, fun h => h.1⟩

/-- Pruning the project's sequences drops the old times. -/
theorem prune_project_contentOf (service : WindowService)
    (hv : AllValid service.sequenceWindows) (p : ProjectId) (start : Timestamp) (s : SequenceId) :
    contentOf (scopedSequenceKey p s)
        (pruneExpiredPoints start (projectKeys (effectiveProject p) service)
          service.sequenceWindows).1 =
      (contentOf (scopedSequenceKey p s) service.sequenceWindows).filter
        (fun q => decide (start ≤ q.time)) := by
  rw [pruneExpiredPoints_contentOf hv]
  split
  · rfl
  · rename_i h
    have hnot : scopedSequenceKey p s ∉ service.sequenceWindows.keys := fun hin =>
      h (List.mem_filter.mpr ⟨hin, hasPrefix_scopedSequenceKey p s⟩)
    rw [contentOf_of_not_mem hnot, List.filter_nil]

/-- The point at a time after older ones have been dropped. -/
theorem pointAt_dropBelow {xs : List RawTimeseriesPoint}
    (h : Ascending RawTimeseriesPoint.time xs) (start t : Timestamp) :
    pointAt t (xs.filter fun q => decide (start ≤ q.time)) =
      if t < start then none else pointAt t xs := by
  rw [pointAt_filter h (fun t => decide (start ≤ t))]
  by_cases hlt : t < start
  · rw [if_pos hlt, if_neg (by simpa using hlt)]
  · rw [if_neg hlt, if_pos (by simpa using hlt)]

/-- A change of the size. -/
theorem configure_refines {p : ProjectId} {service : WindowService} {m : HotModel}
    (h : Refines p service m) (size : Int) :
    Refines p (configureWindowSize p size service).1 (modelStep p m (.configure size)) := by
  unfold configureWindowSize modelStep
  by_cases hs : size ≤ 0
  · simpa only [if_pos hs] using h
  · simp only [if_neg hs]
    have hsize : windowSize p
        { service with windowSizes := put (effectiveProject p) size service.windowSizes } = size := by
      simp [windowSize]
    rw [h.watermark]
    cases hw : service.watermarks.find (effectiveProject p) with
    | none =>
        exact ⟨h.valid, h.points, hw.symm, hsize.symm, not_le.mp hs, h.inRange⟩
    | some watermark =>
        have hc := prune_project_contentOf
          ({ service with
            windowSizes := put (effectiveProject p) size service.windowSizes })
          h.valid p (windowStart watermark size)
        refine ⟨pruneExpiredPoints_allValid h.valid _ _, fun s t => ?_, hw.symm,
          hsize.symm, not_le.mp hs, fun s q hq => ?_⟩
        · refine Eq.trans ?_ (congrArg (pointAt t) (hc s)).symm
          rw [pointAt_dropBelow (h.valid.ascending _), windowStart_eq]
          show (if t < keepFrom watermark size then none else m.points s t) = _
          rw [h.points]
        · rw [hc s] at hq
          exact h.inRange s q (List.mem_of_mem_filter hq)

/-- An update. -/
theorem update_refines {p : ProjectId} {service : WindowService} {m : HotModel}
    (h : Refines p service m) (data : TimeseriesBatch) (override : Option Int)
    (hr : InRange (.update data override)) :
    Refines p (updateWindowIncremental p data override service).1
      (modelStep p m (.update data override)) := by
  unfold modelStep
  rcases readBatch_cases p data override with ⟨hacc, heq⟩ | ⟨hrej, result, error, heq⟩
  · simp only [heq, Option.isSome_none, Bool.false_eq_true, if_false]
    have hwm : modelWatermark m.watermark data.points = watermarkAfter p data service := by
      rw [watermarkAfter, advanceWatermark_eq, h.watermark]
    have hsz : override.getD m.size = windowSizeAfter p override service := by
      rw [windowSizeAfter, h.size]
    have hc : ∀ s, contentOf (scopedSequenceKey p s)
        (updateWindowIncremental p data override service).1.sequenceWindows =
        (assignAll RawTimeseriesPoint.time (incomingFor s data.points)
          (contentOf (scopedSequenceKey p s) service.sequenceWindows)).filter
            (fun q => decide (startAfter p data override service ≤ q.time)) := by
      intro s
      rw [update_contentOf hacc h.valid, if_pos (hasPrefix_scopedSequenceKey p s)]
      have hb := batchAt_scoped (effectiveProject p) s data.points
      rw [scopedSequenceKey_effective] at hb
      rw [hb]
    refine ⟨update_valid hacc h.valid, fun s t => ?_, ?_, ?_, ?_, fun s q hq => ?_⟩
    · rw [hc, pointAt_dropBelow ((h.valid.ascending _).assignAll _ _),
        pointAt_assignAll (h.valid.ascending _), startAfter, windowStart_eq, ← hwm, ← hsz,
        ← h.points]
      show (if t < keepFrom _ _ then none else data.points.foldl write m.points s t) = _
      rw [foldl_write]
    · rw [update_watermarks hacc, find_put_self, hwm]
    · rw [update_windowSize hacc, ← hsz]
    · show 0 < override.getD m.size
      cases override with
      | none => exact h.sizePos
      | some size => exact hacc.size size rfl
    · rw [hc] at hq
      have hq' := List.mem_of_mem_filter hq
      rw [mem_assignAll _ (h.valid.ascending _)] at hq'
      rcases hq' with hq' | ⟨_, hq'⟩
      · exact (hr q (mem_incomingFor.mp (lastAt_some _ hq').1).1).2
      · exact h.inRange s q hq'
  · simp only [heq, Option.isSome_some, if_true]
    rw [(update_rejected hrej service).1]
    exact h

/-- Derived points belong to their sequence. -/
theorem validateDerivedPoints_sequence {p : ProjectId} {s : SequenceId}
    {extra : RawTimeseriesPoint → Option String} {data : TimeseriesBatch}
    (h : validateDerivedPoints p s extra data = none) {q : RawTimeseriesPoint}
    (hq : q ∈ data.points) : q.sequenceId = s ∧ extra q = none := by
  have hn := List.findSome?_eq_none_iff.mp h q hq
  cases hv : validateRawPoint (effectiveProject p) q with
  | some error => rw [hv] at hn; exact nomatch hn
  | none =>
      rw [hv] at hn
      by_cases hs : q.sequenceId = s
      · exact ⟨hs, by simpa [hs] using hn⟩
      · simp [hs] at hn

theorem validateReplace_ids {p : ProjectId} {s : SequenceId} {data : TimeseriesBatch}
    (h : validateReplace p s data = none) : ∀ q ∈ data.points, q.sequenceId = s := by
  unfold validateReplace at h
  split at h
  · cases h
  · split at h
    · cases h
    · exact fun q hq => (validateDerivedPoints_sequence h hq).1

/-- An accepted patch has a range and points of its sequence only. -/
theorem validatePatch_ordered {p : ProjectId} {s : SequenceId} {startTime endTime : Timestamp}
    {data : TimeseriesBatch} (h : validatePatch p s startTime endTime data = none) :
    startTime ≤ endTime ∧ ∀ q ∈ data.points, q.sequenceId = s := by
  unfold validatePatch at h
  split at h
  · exact nomatch h
  · split at h
    · exact nomatch h
    · rename_i hle
      split at h
      · exact nomatch h
      · exact ⟨not_lt.mp hle, fun q hq => (validateDerivedPoints_sequence h hq).1⟩

/-- What a patch leaves of a window with 64-bit times. -/
theorem patchSequence_inside {w : SequenceWindow} (hv : Valid w) {startTime endTime : Timestamp}
    (hse : startTime ≤ endTime) (data : TimeseriesBatch)
    (hrange : ∀ q ∈ content w, q.time ≤ int64Max) :
    content (patchSequence w startTime endTime data) =
      assignAll RawTimeseriesPoint.time data.points
        ((content w).filter fun q => decide (q.time < startTime) || decide (endTime < q.time)) := by
  refine (patchSequence_content hv hse data).trans (congrArg _ ?_)
  -- no stored time is behind the largest timestamp
  refine List.filter_congr fun q hq => ?_
  have hle := hrange q hq
  by_cases he : endTime = int64Max
  · simp [outsidePatch, he, not_lt.mpr hle]
  · simp [outsidePatch, he]

theorem incomingFor_all {s : SequenceId} {points : List RawTimeseriesPoint}
    (h : ∀ q ∈ points, q.sequenceId = s) : incomingFor s points = points :=
  List.filter_eq_self.mpr fun q hq => by simpa using h q hq

theorem incomingFor_none {s t : SequenceId} (hne : t ≠ s) {points : List RawTimeseriesPoint}
    (h : ∀ q ∈ points, q.sequenceId = s) : incomingFor t points = [] :=
  List.filter_eq_nil_iff.mpr fun q hq => by simpa [h q hq] using fun e => hne e.symm

/-- The points written into one sequence, seen at one place. -/
theorem foldl_write_one {s : SequenceId} {points : List RawTimeseriesPoint}
    (h : ∀ q ∈ points, q.sequenceId = s)
    (m : SequenceId → Timestamp → Option RawTimeseriesPoint)
    (g : Timestamp → Option RawTimeseriesPoint) (u : SequenceId) (t : Timestamp) :
    points.foldl write (Function.update m s g) u t =
      if u = s then (lastAt RawTimeseriesPoint.time t points).or (g t) else m u t := by
  rw [foldl_write]
  by_cases hu : u = s
  · subst hu
    rw [if_pos rfl, incomingFor_all h, Function.update_self]
  · rw [if_neg hu, incomingFor_none hu h, Function.update_of_ne hu]
    rfl

/-- A replacement. -/
theorem replace_refines {p : ProjectId} {service : WindowService} {m : HotModel}
    (h : Refines p service m) (s : SequenceId) (data : TimeseriesBatch)
    (hr : InRange (.replace s data)) :
    Refines p (replaceDerivedSequence p s data service).1 (modelStep p m (.replace s data)) := by
  unfold replaceDerivedSequence modelStep
  cases hval : validateReplace p s data with
  | some error =>
      simp only [hval, Option.isSome_some, if_true]
      exact h
  | none =>
      simp only [hval, Option.isSome_none, Bool.false_eq_true, if_false]
      have hids := validateReplace_ids hval
      have hwv := writeSequence_allValid h.valid p s
        (fun w => replaceSequence w data) fun w _ _ => replaceSequence_valid w data
      have hwc := writeSequence_contentOf h.valid p s
        (fun w => replaceSequence w data)
        (fun _ => assignAll RawTimeseriesPoint.time data.points [])
        fun w _ _ => replaceSequence_content w data
      have hpoints : ∀ u t,
          data.points.foldl write (Function.update m.points s fun _ => none) u t =
            pointAt t (contentOf (scopedSequenceKey p u)
              (writeSequence p s (fun w => replaceSequence w data) service.sequenceWindows)) := by
        intro u t
        rw [foldl_write_one hids, hwc]
        by_cases hu : u = s
        · subst hu
          rw [if_pos rfl, if_pos rfl, pointAt_assignAll (ascending_nil _)]
          rfl
        · rw [if_neg hu, if_neg fun e => hu (scopedSequenceKey_inj.mp e), h.points]
      have hrange : ∀ u q, q ∈ contentOf (scopedSequenceKey p u)
          (writeSequence p s (fun w => replaceSequence w data) service.sequenceWindows) →
            q.time ≤ int64Max := by
        intro u q hq
        rw [hwc] at hq
        split at hq
        · rw [mem_assignAll _ (ascending_nil _)] at hq
          rcases hq with hq | ⟨_, hq⟩
          · exact (hr q (lastAt_some _ hq).1).2
          · exact absurd hq (by simp)
        · exact h.inRange u q hq
      rw [h.watermark]
      cases hw : service.watermarks.find (effectiveProject p) with
      | none =>
          exact ⟨hwv, hpoints, hw.symm, h.size, h.sizePos, hrange⟩
      | some watermark =>
          have hc := prune_project_contentOf
            ({ service with
              sequenceWindows :=
                writeSequence p s (fun w => replaceSequence w data) service.sequenceWindows })
            hwv p (windowStart watermark (windowSize p service))
          refine ⟨pruneExpiredPoints_allValid hwv _ _, fun u t => ?_, hw.symm, h.size,
            h.sizePos, fun u q hq => ?_⟩
          · refine Eq.trans ?_ (congrArg (pointAt t) (hc u)).symm
            rw [pointAt_dropBelow (hwv.ascending _), windowStart_eq, ← h.size, ← hpoints]
            rfl
          · exact hrange u q (List.mem_of_mem_filter ((hc u) ▸ hq))

/-- A patch. -/
theorem patch_refines {p : ProjectId} {service : WindowService} {m : HotModel}
    (h : Refines p service m) (s : SequenceId) (startTime endTime : Timestamp)
    (data : TimeseriesBatch) (hr : InRange (.patch s startTime endTime data)) :
    Refines p (patchDerivedSequence p s startTime endTime data service).1
      (modelStep p m (.patch s startTime endTime data)) := by
  unfold patchDerivedSequence modelStep
  cases hval : validatePatch p s startTime endTime data with
  | some error =>
      simp only [hval, Option.isSome_some, if_true]
      exact h
  | none =>
      simp only [hval, Option.isSome_none, Bool.false_eq_true, if_false]
      obtain ⟨hse, hids⟩ := validatePatch_ordered hval
      have hwv := writeSequence_allValid h.valid p s
        (fun w => patchSequence w startTime endTime data)
        fun w hv _ => patchSequence_valid hv hse data
      have hwc := writeSequence_contentOf h.valid p s
        (fun w => patchSequence w startTime endTime data)
        (fun c => assignAll RawTimeseriesPoint.time data.points
          (c.filter fun q => decide (q.time < startTime) || decide (endTime < q.time)))
        fun w hv hw => patchSequence_inside hv hse data fun q hq => h.inRange s q (hw ▸ hq)
      refine ⟨hwv, fun u t => ?_, h.watermark, h.size, h.sizePos, fun u q hq => ?_⟩
      · show data.points.foldl write (Function.update m.points s fun t =>
          if startTime ≤ t ∧ t ≤ endTime then none else m.points s t) u t = _
        rw [foldl_write_one hids, hwc]
        by_cases hu : u = s
        · subst hu
          rw [if_pos rfl, if_pos rfl, pointAt_assignAll ((h.valid.ascending _).filter _ _),
            pointAt_filter (h.valid.ascending _)
              (fun t => decide (t < startTime) || decide (endTime < t)), ← h.points]
          refine congrArg _ ?_
          by_cases hin : startTime ≤ t ∧ t ≤ endTime
          · rw [if_pos hin, if_neg (by simpa using hin)]
          · rw [if_neg hin, if_pos]
            simp only [Bool.or_eq_true, decide_eq_true_eq]
            exact (not_and_or.mp hin).imp not_le.mp not_le.mp
        · rw [if_neg hu, if_neg fun e => hu (scopedSequenceKey_inj.mp e), h.points]
      · rw [hwc] at hq
        split at hq
        · rw [mem_assignAll _ ((h.valid.ascending _).filter _ _)] at hq
          rcases hq with hq | ⟨_, hq⟩
          · exact (hr q (lastAt_some _ hq).1).2
          · exact h.inRange u q (List.mem_of_mem_filter hq)
        · exact h.inRange u q hq

/-! ## A statistics query only reorganises -/

/-- Rebuilding the statistics changes no content. -/
theorem rebuild_spec {windows : Table String SequenceWindow} (hv : AllValid windows)
    {key : String} {w : SequenceWindow} (hw : windows.find key = some w) :
    AllValid (adjust key
        (fun _ => if w.statisticsValid then w else rebuildStatistics w) windows) ∧
      ∀ key', contentOf key' (adjust key
        (fun _ => if w.statisticsValid then w else rebuildStatistics w) windows) =
          contentOf key' windows := by
  have hwv := hv key w hw
  constructor
  · intro key' w' hw'
    by_cases hk : key' = key
    · subst hk
      rw [find_adjust_self, hw] at hw'
      have := Option.some.inj hw'
      rw [← this]
      split
      · exact hwv
      · exact rebuildStatistics_valid hwv
    · rw [find_adjust_of_ne hk] at hw'
      exact hv key' w' hw'
  · intro key'
    by_cases hk : key' = key
    · subst hk
      rw [contentOf_some hw, contentOf_some (by rw [find_adjust_self, hw]; rfl)]
      split
      · rfl
      · exact rebuildStatistics_content hwv
    · exact adjust_contentOf_of_ne hk _ windows

/-- The loop over the sequences changes no content. -/
theorem statisticsLoop_spec (project : ProjectId) (ids : List SequenceId)
    {windows : Table String SequenceWindow} (hv : AllValid windows)
    (statistics : Table SequenceId SequenceWindowStatistics) (count : Nat) :
    AllValid (statisticsLoop project ids windows statistics count).1 ∧
      ∀ key, contentOf key (statisticsLoop project ids windows statistics count).1 =
        contentOf key windows := by
  induction ids generalizing windows statistics count with
  | nil => exact ⟨hv, fun _ => rfl⟩
  | cons s ids ih =>
      rw [statisticsLoop]
      cases hf : windows.find (scopedSequenceKey project s) with
      | none => exact ih hv statistics count
      | some w =>
          obtain ⟨h1, h2⟩ := rebuild_spec hv hf
          simp only
          generalize (if w.statisticsValid = true then w else rebuildStatistics w) = v at h1 h2 ⊢
          split
          · exact ⟨h1, h2⟩
          · split
            · obtain ⟨h3, h4⟩ := ih h1 statistics count
              exact ⟨h3, fun key => (h4 key).trans (h2 key)⟩
            · split
              · obtain ⟨h3, h4⟩ := ih h1 _ _
                exact ⟨h3, fun key => (h4 key).trans (h2 key)⟩
              · exact ⟨h1, h2⟩

/-- The query leaves every content, the watermarks and the sizes. -/
theorem statistics_contents {service : WindowService} (hv : AllValid service.sequenceWindows)
    (p : ProjectId) (ids : List SequenceId) :
    AllValid (queryWindowStatistics p ids service).1.sequenceWindows ∧
      (∀ key, contentOf key (queryWindowStatistics p ids service).1.sequenceWindows =
        contentOf key service.sequenceWindows) ∧
      (queryWindowStatistics p ids service).1.watermarks = service.watermarks ∧
      (queryWindowStatistics p ids service).1.windowSizes = service.windowSizes := by
  rcases queryWindowStatistics_service p ids service with hsame | hread
  · rw [hsame]
    exact ⟨hv, fun _ => rfl, rfl, rfl⟩
  · rw [hread]
    obtain ⟨hvalid, hcontents⟩ :=
      statisticsLoop_spec (effectiveProject p) ids hv KeyedTable.empty 0
    exact ⟨hvalid, hcontents, rfl, rfl⟩

/-- A query for statistics. -/
theorem statistics_refines {p : ProjectId} {service : WindowService} {m : HotModel}
    (h : Refines p service m) (ids : List SequenceId) :
    Refines p (queryWindowStatistics p ids service).1 m := by
  obtain ⟨hv, hcontents, hwatermarks, hsizes⟩ := statistics_contents h.valid p ids
  refine ⟨hv, fun s t => by rw [hcontents, h.points], by rw [hwatermarks, h.watermark], ?_,
    h.sizePos, fun s q hq => h.inRange s q (hcontents _ ▸ hq)⟩
  rw [windowSize, hsizes, h.size]
  rfl

/-- Every operation keeps the refinement. -/
theorem step_refines {p : ProjectId} {service : WindowService} {m : HotModel}
    {op : WindowOp} (hr : InRange op) (h : Refines p service m) :
    Refines p (serviceStep p service op) (modelStep p m op) := by
  cases op with
  | configure size => exact configure_refines h size
  | update data override => exact update_refines h data override hr
  | replace s data => exact replace_refines h s data hr
  | patch s startTime endTime data => exact patch_refines h s startTime endTime data hr
  | query query => exact h
  | statistics ids => exact statistics_refines h ids

theorem run_refines (p : ProjectId) {ops : List WindowOp} (hr : ∀ op ∈ ops, InRange op) :
    Refines p (run (serviceStep p) {} ops) (run (modelStep p) emptyModel ops) := by
  have hstep : ∀ service m op, InRange op → Refines p service m →
      Refines p (serviceStep p service op) (modelStep p m op) :=
    fun _ _ _ hop h => step_refines hop h
  exact run_simulation hstep (refines_init p) hr

/-! ## What a query returns -/

/-- `xs` lists the model's points of one sequence in `[start, finish)`, in time
    order. -/
structure ModelRange (m : HotModel) (s : SequenceId) (start finish : Timestamp)
    (xs : List RawTimeseriesPoint) : Prop where
  increasing : Ascending RawTimeseriesPoint.time xs
  exact : ∀ q, q ∈ xs ↔ m.points s q.time = some q ∧ start ≤ q.time ∧ q.time < finish

/-- A query for a range, without context points. -/
def rangeQuery (ids : List SequenceId) (start finish : Timestamp) (bounds : Bool) : WindowQuery :=
  { sequenceIds := ids
    startTime := some start
    endTime := some finish
    preserveWindowBounds := bounds }

/-- What a range query reads. -/
theorem Refines.range {p : ProjectId} {service : WindowService} {m : HotModel}
    (h : Refines p service m) (s : SequenceId) (start finish : Timestamp) :
    ModelRange m s start finish
      (sliceOf start finish 0 0
        (contentOf (scopedSequenceKey p s) service.sequenceWindows)) := by
  have hasc := h.valid.ascending (scopedSequenceKey p s)
  rw [sliceOf_range hasc]
  refine ⟨hasc.filter _ _, fun q => ?_⟩
  rw [List.mem_filter, mem_content_scoped h.valid, ← h.points]
  simp

theorem ModelRange.unique {m : HotModel} {s : SequenceId} {start finish : Timestamp}
    {xs ys : List RawTimeseriesPoint} (hx : ModelRange m s start finish xs)
    (hy : ModelRange m s start finish ys) : xs = ys :=
  ascending_ext _ hx.increasing hy.increasing fun q => by rw [hx.exact, hy.exact]

/-- **The window service refines the map.**  After every run of operations, for
    distinct nonempty ids and `start ≤ finish`, the query returns for each
    sequence the model's points of `[start, finish)` in time order, with no entry
    for a sequence that has none; before the first accepted update it returns no
    entry at all. -/
theorem query_refines (capacity : Nat) (p : ProjectId) (ops : List WindowOp)
    (hr : ∀ op ∈ ops, InRange op) (ids : List SequenceId) (hne : ∀ s ∈ ids, s ≠ "")
    (hnd : ids.Nodup) (start finish : Timestamp) (hle : start ≤ finish) (bounds : Bool) :
    ∃ r, queryWindowData capacity p (rangeQuery ids start finish bounds)
        (run (serviceStep p) {} ops) = .ok r ∧
      ∀ s xs, r.data.sequenceValues.find s = some xs ↔
        s ∈ ids ∧ (run (modelStep p) emptyModel ops).watermark.isSome ∧ xs ≠ [] ∧
          ModelRange (run (modelStep p) emptyModel ops) s start finish xs := by
  have h := run_refines p hr
  generalize run (serviceStep p) {} ops = service at h ⊢
  generalize run (modelStep p) emptyModel ops = m at h ⊢
  cases hwm : service.watermarks.find (effectiveProject p) with
  | none =>
      obtain ⟨r, hr, hnone⟩ := queryWindowData_no_watermark capacity
        (rangeQuery ids start finish bounds) hwm
      refine ⟨r, hr, fun s xs => ?_⟩
      simp [hnone, h.watermark, hwm]
  | some watermark =>
      by_cases hids : ids = []
      · subst hids
        refine ⟨_, rfl, fun s xs => ?_⟩
        simp
      · obtain ⟨r, hr, _, _, _, hfind⟩ := queryWindowData_spec capacity
          (rangeQuery ids start finish bounds) h.valid hids hne hnd hwm
          (h.size ▸ h.sizePos) hle (Nat.zero_le _)
        refine ⟨r, hr, fun s xs => ?_⟩
        have hrange := h.range s start finish
        rw [hfind]
        show (if s ∈ ids then
          (if sliceOf start finish 0 0 (contentOf (scopedSequenceKey p s) service.sequenceWindows) =
            [] then none
          else some (sliceOf start finish 0 0
            (contentOf (scopedSequenceKey p s) service.sequenceWindows))) else none) = some xs ↔ _
        rw [h.watermark, hwm]
        by_cases hs : s ∈ ids
        · rw [if_pos hs]
          by_cases hnil : sliceOf start finish 0 0
              (contentOf (scopedSequenceKey p s) service.sequenceWindows) = []
          · rw [if_pos hnil]
            rw [hnil] at hrange
            constructor
            · intro hx
              exact nomatch hx
            · rintro ⟨_, _, hx, hxs⟩
              exact absurd (hxs.unique hrange) hx
          · rw [if_neg hnil]
            constructor
            · intro hx
              cases hx
              exact ⟨hs, rfl, hnil, hrange⟩
            · rintro ⟨_, _, _, hxs⟩
              rw [hxs.unique hrange]
        · simp [hs]

/-- A whole number at a time. -/
private def sample (s : SequenceId) (t : Timestamp) (n : Int) : RawTimeseriesPoint :=
  { time := t, sequenceId := s, value := .int64 n }

/-- An update, a replacement and a patch, and a query of both sequences. -/
theorem query_refines_three_operations :
    ∃ r, queryWindowData 0 "p" (rangeQuery ["s", "d"] 0 100 false)
        (run (serviceStep "p") {}
          [.update { points := [sample "s" 5 1, sample "s" 3 2, sample "s" 5 3] } (some 10),
            .replace "d" { points := [sample "d" 4 7] },
            .patch "d" 0 4 { points := [sample "d" 2 8] }]) = .ok r ∧
      ∀ s xs, r.data.sequenceValues.find s = some xs ↔
        s ∈ ["s", "d"] ∧
          (run (modelStep "p") emptyModel
            [.update { points := [sample "s" 5 1, sample "s" 3 2, sample "s" 5 3] } (some 10),
              .replace "d" { points := [sample "d" 4 7] },
              .patch "d" 0 4 { points := [sample "d" 2 8] }]).watermark.isSome ∧ xs ≠ [] ∧
          ModelRange (run (modelStep "p") emptyModel
            [.update { points := [sample "s" 5 1, sample "s" 3 2, sample "s" 5 3] } (some 10),
              .replace "d" { points := [sample "d" 4 7] },
              .patch "d" 0 4 { points := [sample "d" 2 8] }]) s 0 100 xs :=
  query_refines 0 "p" _ (by simp [InRange, carried, sample, int64Min, int64Max]) _
    (by decide) (by decide) 0 100 (by decide) false

/-- A derived write in front of the first update is in the map, but a query does
    not return it: the project has no watermark yet. -/
theorem derived_write_before_update_not_returned :
    (run (modelStep "p") emptyModel [.replace "d" { points := [sample "d" 5 1] }]).points "d" 5 =
        some (sample "d" 5 1) ∧
      ∃ r, queryWindowData 0 "p" (rangeQuery ["d"] 0 10 false)
          (run (serviceStep "p") {} [.replace "d" { points := [sample "d" 5 1] }]) = .ok r ∧
        r.operation.code = .ok ∧ r.data.sequenceValues.find "d" = none :=
  ⟨by decide, _, rfl, rfl, rfl⟩

end WindowRefinement
