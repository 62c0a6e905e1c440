import TimeSeriesEngine.WindowRuns

/-!
# The window service of all projects as one map

`StoredModel` says what the service keeps for all projects together: under each stored
key a map from time to the last written point, and the watermark and the window size of
each project.  An operation of a project writes under the keys of its sequences and drops
old times under every key with its prefix.

`run_stored`: after every run of operations of any projects the service holds the points
of the model.
-/

namespace StoredPoints

open TseTypes KeyedTable OrderedSeries SeqWindow SeqContent HotWindow WindowContent WindowUpdate
open WindowRefinement WindowRuns Transition

/-! ## The model -/

/-- The points of all projects, by key and time, with their watermarks and sizes. -/
structure StoredModel where
  points : String → Timestamp → Option RawTimeseriesPoint
  watermark : ProjectId → Option Timestamp
  size : ProjectId → Int

/-- Nothing stored, and the default sizes. -/
def emptyStored : StoredModel := ⟨fun _ _ => none, fun _ => none, fun _ => kDefaultWindowSizeMs⟩

/-- Write one point under the key of its sequence. -/
def writeStored (project : ProjectId) (m : String → Timestamp → Option RawTimeseriesPoint)
    (q : RawTimeseriesPoint) : String → Timestamp → Option RawTimeseriesPoint :=
  Function.update m (scopedSequenceKey project q.sequenceId)
    (Function.update (m (scopedSequenceKey project q.sequenceId)) q.time (some q))

/-- Drop every time below `start` under the keys of a project. -/
def dropStored (project : ProjectId) (start : Timestamp)
    (m : String → Timestamp → Option RawTimeseriesPoint) :
    String → Timestamp → Option RawTimeseriesPoint :=
  fun key t => if hasPrefix (scopePrefix project) key = true ∧ t < start then none else m key t

/-- The points after an eviction, if the project has a watermark. -/
def evictStored (project : ProjectId) (watermark : Option Timestamp) (size : Int)
    (m : String → Timestamp → Option RawTimeseriesPoint) :
    String → Timestamp → Option RawTimeseriesPoint :=
  match watermark with
  | none => m
  | some watermark => dropStored project (keepFrom watermark size) m

/-- One operation of one project; rejected operations and queries do nothing. -/
def storedStep (m : StoredModel) (call : ServiceCall) : StoredModel :=
  let project := effectiveProject call.projectId
  match call.op with
  | .configure size =>
      if size ≤ 0 then m
      else
        { m with
          size := Function.update m.size project size
          points := evictStored project (m.watermark project) size m.points }
  | .update data override =>
      if (readBatch call.projectId data override).2.isSome then m
      else
        let watermark := modelWatermark (m.watermark project) data.points
        let size := override.getD (m.size project)
        { points :=
            dropStored project (keepFrom watermark size)
              (data.points.foldl (writeStored project) m.points)
          watermark := Function.update m.watermark project (some watermark)
          size := Function.update m.size project size }
  | .replace sequenceId data =>
      if (validateReplace call.projectId sequenceId data).isSome then m
      else
        { m with
          points :=
            evictStored project (m.watermark project) (m.size project)
              (data.points.foldl (writeStored project)
                (Function.update m.points (scopedSequenceKey project sequenceId) fun _ => none)) }
  | .patch sequenceId startTime endTime data =>
      if (validatePatch call.projectId sequenceId startTime endTime data).isSome then m
      else
        { m with
          points :=
            data.points.foldl (writeStored project)
              (Function.update m.points (scopedSequenceKey project sequenceId) fun t =>
                if startTime ≤ t ∧ t ≤ endTime then none
                else m.points (scopedSequenceKey project sequenceId) t) }
  | .query _ => m
  | .statistics _ => m

/-- Writing a batch, seen at one place. -/
theorem foldl_writeStored (project : ProjectId) (points : List RawTimeseriesPoint)
    (m : String → Timestamp → Option RawTimeseriesPoint) (key : String) (t : Timestamp) :
    points.foldl (writeStored project) m key t =
      (lastAt RawTimeseriesPoint.time t (batchAt project key points)).or (m key t) := by
  induction points generalizing m with
  | nil => rfl
  | cons q qs ih =>
      rw [List.foldl_cons, ih]
      by_cases hkey : scopedSequenceKey project q.sequenceId = key
      · have hin : batchAt project key (q :: qs) = q :: batchAt project key qs := by
          simp [batchAt, hkey]
        rw [hin, lastAt_cons, Option.or_assoc]
        refine congrArg _ ?_
        subst hkey
        rw [writeStored, Function.update_self]
        by_cases ht : q.time = t
        · subst ht
          simp
        · rw [Function.update_of_ne fun e => ht e.symm, if_neg ht, Option.none_or]
      · have hin : batchAt project key (q :: qs) = batchAt project key qs := by
          simp [batchAt, hkey]
        rw [hin, writeStored, Function.update_of_ne fun e => hkey e.symm]

/-- Writing a batch of one sequence, seen at one place. -/
theorem foldl_writeStored_one {project : ProjectId} {s : SequenceId}
    {points : List RawTimeseriesPoint} (h : ∀ q ∈ points, q.sequenceId = s)
    (m : String → Timestamp → Option RawTimeseriesPoint)
    (g : Timestamp → Option RawTimeseriesPoint) (key : String) (t : Timestamp) :
    points.foldl (writeStored project) (Function.update m (scopedSequenceKey project s) g) key t =
      if key = scopedSequenceKey project s then (lastAt RawTimeseriesPoint.time t points).or (g t)
      else m key t := by
  rw [foldl_writeStored]
  by_cases hkey : key = scopedSequenceKey project s
  · subst hkey
    rw [if_pos rfl, batchAt_scoped, incomingFor_all h, Function.update_self]
  · have hnone : batchAt project key points = [] := by
      refine List.filter_eq_nil_iff.mpr fun q hq e => hkey ?_
      rw [← of_decide_eq_true e, h q hq]
    rw [if_neg hkey, hnone, Function.update_of_ne hkey]
    rfl

/-! ## The refinement -/

/-- The service holds the points of the model. -/
structure Stores (service : WindowService) (m : StoredModel) : Prop where
  valid : AllValid service.sequenceWindows
  points : ∀ key t, m.points key t = pointAt t (contentOf key service.sequenceWindows)
  watermark : ∀ project, m.watermark project = service.watermarks.find project
  size : ∀ project,
    m.size project = (service.windowSizes.find project).getD kDefaultWindowSizeMs
  sizePos : ∀ project, 0 < m.size project
  inRange : ∀ key q, q ∈ contentOf key service.sequenceWindows → q.time ≤ int64Max

theorem Stores.windowSize_pos {service : WindowService} {m : StoredModel} (h : Stores service m)
    (p : ProjectId) : 0 < windowSize p service := by
  have hpos := h.sizePos (effectiveProject p)
  rw [h.size] at hpos
  exact hpos

/-- Before the first call nothing is stored. -/
theorem stores_init : Stores {} emptyStored where
  valid := allValid_empty
  points := fun _ _ => rfl
  watermark := fun _ => rfl
  size := fun _ => rfl
  sizePos := fun _ => show 0 < kDefaultWindowSizeMs by decide
  inRange := fun _ _ h => absurd h (by simp [contentOf])

section Steps

variable {service : WindowService} {m : StoredModel} {p : ProjectId}

/-- Pruning the keys of a project drops their old times. -/
theorem prune_points (hv : AllValid service.sequenceWindows) (start : Timestamp) (key : String) :
    contentOf key
        (pruneExpiredPoints start (projectKeys (effectiveProject p) service)
          service.sequenceWindows).1 =
      if hasPrefix (scopePrefix (effectiveProject p)) key = true then
        (contentOf key service.sequenceWindows).filter fun q => decide (start ≤ q.time)
      else contentOf key service.sequenceWindows := by
  rw [pruneExpiredPoints_contentOf hv]
  by_cases hpre : hasPrefix (scopePrefix (effectiveProject p)) key = true
  · rw [if_pos hpre]
    split
    · rfl
    · rename_i hno
      have hnot : key ∉ service.sequenceWindows.keys := fun hin =>
        hno (List.mem_filter.mpr ⟨hin, hpre⟩)
      rw [contentOf_of_not_mem hnot, List.filter_nil]
  · have hnot : key ∉ projectKeys (effectiveProject p) service := fun hin =>
      hpre (List.mem_filter.mp hin).2
    rw [if_neg hpre, if_neg hnot]

/-- The kept points under the keys of a project, seen at one place. -/
theorem pointAt_dropStored {xs : List RawTimeseriesPoint}
    (h : Ascending RawTimeseriesPoint.time xs) (project : ProjectId) (start : Timestamp)
    (key : String) (t : Timestamp) :
    pointAt t (if hasPrefix (scopePrefix project) key = true then
        xs.filter fun q => decide (start ≤ q.time) else xs) =
      if hasPrefix (scopePrefix project) key = true ∧ t < start then none else pointAt t xs := by
  by_cases hpre : hasPrefix (scopePrefix project) key = true
  · rw [if_pos hpre, pointAt_dropBelow h]
    simp only [hpre, true_and]
  · rw [if_neg hpre, if_neg fun hand => hpre hand.1]

/-- Writing one sequence and evicting its project. -/
theorem Stores.evicted (h : Stores service m) {windows : Table String SequenceWindow}
    {written : String → Timestamp → Option RawTimeseriesPoint} (hv : AllValid windows)
    (hpoints : ∀ key t, written key t = pointAt t (contentOf key windows))
    (hrange : ∀ key q, q ∈ contentOf key windows → q.time ≤ int64Max)
    (sizes : Table ProjectId Int) (size : Int) :
    let kept : Table String SequenceWindow :=
      match service.watermarks.find (effectiveProject p) with
      | none => windows
      | some watermark =>
          (pruneExpiredPoints (windowStart watermark size)
            (projectKeys (effectiveProject p)
              { service with sequenceWindows := windows, windowSizes := sizes }) windows).1
    AllValid kept ∧
      (∀ key t, evictStored (effectiveProject p) (m.watermark (effectiveProject p)) size written
        key t = pointAt t (contentOf key kept)) ∧
      ∀ key q, q ∈ contentOf key kept → q.time ≤ int64Max := by
  rw [h.watermark]
  cases hw : service.watermarks.find (effectiveProject p) with
  | none => exact ⟨hv, hpoints, hrange⟩
  | some watermark =>
      have hkept := fun key => @prune_points
        { service with sequenceWindows := windows, windowSizes := sizes } p hv
        (windowStart watermark size) key
      refine ⟨pruneExpiredPoints_allValid hv _ _, fun key t => ?_, fun key q hq => ?_⟩
      · refine Eq.trans ?_ (congrArg (pointAt t) (hkept key)).symm
        rw [pointAt_dropStored (hv.ascending _), windowStart_eq, ← hpoints]
        rfl
      · rw [hkept key] at hq
        split at hq
        · exact hrange key q (List.mem_of_mem_filter hq)
        · exact hrange key q hq

/-- A change of the size, on the stored points. -/
theorem configure_stored (h : Stores service m) (size : Int) :
    Stores (configureWindowSize p size service).1 (storedStep m ⟨p, .configure size⟩) := by
  unfold configureWindowSize storedStep
  by_cases hs : size ≤ 0
  · simpa only [if_pos hs] using h
  · simp only [if_neg hs]
    obtain ⟨hv, hpoints, hrange⟩ := h.evicted (p := p) h.valid h.points h.inRange
      (put (effectiveProject p) size service.windowSizes) size
    refine ⟨hv, hpoints, h.watermark, fun project => ?_, fun project => ?_, hrange⟩
    · show Function.update m.size (effectiveProject p) size project =
        ((put (effectiveProject p) size service.windowSizes).find project).getD _
      rw [find_put, Function.update_apply]
      split
      · rfl
      · exact h.size project
    · show 0 < Function.update m.size (effectiveProject p) size project
      rw [Function.update_apply]
      split
      · exact not_le.mp hs
      · exact h.sizePos project

/-- An update, on the stored points. -/
theorem update_stored (h : Stores service m) (data : TimeseriesBatch) (override : Option Int)
    (hr : InRange (.update data override)) :
    Stores (updateWindowIncremental p data override service).1
      (storedStep m ⟨p, .update data override⟩) := by
  unfold storedStep
  rcases readBatch_cases p data override with ⟨hacc, heq⟩ | ⟨hrej, result, error, heq⟩
  · simp only [heq, Option.isSome_none, Bool.false_eq_true, if_false]
    have hwm : modelWatermark (m.watermark (effectiveProject p)) data.points =
        watermarkAfter p data service := by
      rw [watermarkAfter, advanceWatermark_eq, h.watermark]
    have hsz : override.getD (m.size (effectiveProject p)) =
        windowSizeAfter p override service := by
      rw [windowSizeAfter, h.size]
      rfl
    refine ⟨update_valid hacc h.valid, fun key t => ?_, fun project => ?_, fun project => ?_,
      fun project => ?_, fun key q hq => ?_⟩
    · have hcontent := update_contentOf hacc h.valid key
      by_cases hpre : hasPrefix (scopePrefix (effectiveProject p)) key = true
      · rw [if_pos hpre] at hcontent
        rw [hcontent, pointAt_dropBelow ((h.valid.ascending _).assignAll _ _),
          pointAt_assignAll (h.valid.ascending _), startAfter, windowStart_eq, ← hwm, ← hsz,
          ← h.points]
        show dropStored _ _ (data.points.foldl (writeStored (effectiveProject p)) m.points) key t = _
        rw [dropStored, foldl_writeStored]
        simp only [hpre, true_and]
      · rw [if_neg hpre] at hcontent
        have hnone : batchAt (effectiveProject p) key data.points = [] := by
          refine List.filter_eq_nil_iff.mpr fun q _ e => hpre ?_
          have hscoped := hasPrefix_scopedSequenceKey (effectiveProject p) q.sequenceId
          rw [effectiveProject_idem] at hscoped
          rw [← of_decide_eq_true e]
          exact hscoped
        rw [hcontent, ← h.points]
        show dropStored _ _ (data.points.foldl (writeStored (effectiveProject p)) m.points) key t = _
        rw [dropStored, if_neg fun hand => hpre hand.1, foldl_writeStored, hnone]
        rfl
    · rw [update_watermarks hacc, find_put, hwm]
      show Function.update m.watermark _ _ project = _
      rw [Function.update_apply, h.watermark]
    · rw [update_windowSizes hacc]
      show Function.update m.size _ _ project = _
      rw [Function.update_apply]
      cases override with
      | none =>
          simp only [Option.getD_none, applyOverride]
          split
          · rename_i heqp
            rw [heqp, h.size]
          · exact h.size project
      | some size =>
          simp only [Option.getD_some, applyOverride, find_put]
          split
          · rfl
          · exact h.size project
    · show 0 < Function.update m.size _ _ project
      rw [Function.update_apply]
      split
      · cases override with
        | none => exact h.sizePos _
        | some size => exact hacc.size size rfl
      · exact h.sizePos project
    · rw [update_contentOf hacc h.valid] at hq
      split at hq
      · rcases (mem_assignAll _ (h.valid.ascending _) _ q).mp (List.mem_of_mem_filter hq) with
          hnew | ⟨-, hold⟩
        · exact (hr q (List.mem_of_mem_filter (lastAt_some _ hnew).1)).2
        · exact h.inRange key q hold
      · exact h.inRange key q hq
  · simp only [heq, Option.isSome_some, if_true]
    rw [(update_rejected hrej service).1]
    exact h

/-- A replacement, on the stored points. -/
theorem replace_stored (h : Stores service m) (s : SequenceId) (data : TimeseriesBatch)
    (hr : InRange (.replace s data)) :
    Stores (replaceDerivedSequence p s data service).1 (storedStep m ⟨p, .replace s data⟩) := by
  unfold replaceDerivedSequence storedStep
  cases hval : validateReplace p s data with
  | some error =>
      simp only [hval, Option.isSome_some, if_true]
      exact h
  | none =>
      simp only [hval, Option.isSome_none, Bool.false_eq_true, if_false]
      have hids := validateReplace_ids hval
      have hwv := writeSequence_allValid h.valid p s
        (fun w => replaceSequence w data) fun w _ _ => replaceSequence_valid w data
      have hwc := writeSequence_contentOf h.valid p s
        (fun w => replaceSequence w data)
        (fun _ => assignAll RawTimeseriesPoint.time data.points [])
        fun w _ _ => replaceSequence_content w data
      obtain ⟨hv, hpoints, hrange⟩ := @Stores.evicted service m p h _
        (data.points.foldl (writeStored (effectiveProject p))
          (Function.update m.points (scopedSequenceKey (effectiveProject p) s) fun _ => none))
        hwv (fun key t => by
          rw [foldl_writeStored_one hids, hwc, scopedSequenceKey_effective]
          by_cases hkey : key = scopedSequenceKey p s
          · rw [if_pos hkey, if_pos hkey, pointAt_assignAll (ascending_nil _)]
            rfl
          · rw [if_neg hkey, if_neg hkey, h.points])
        (fun key q hq => by
          rw [hwc] at hq
          split at hq
          · rw [mem_assignAll _ (ascending_nil _)] at hq
            rcases hq with hnew | ⟨-, hold⟩
            · exact (hr q (lastAt_some _ hnew).1).2
            · exact absurd hold List.not_mem_nil
          · exact h.inRange key q hq)
        service.windowSizes (windowSize p service)
      have hsize : m.size (effectiveProject p) = windowSize p service := h.size _
      rw [hsize]
      exact ⟨hv, hpoints, h.watermark, h.size, h.sizePos, hrange⟩

/-- A patch, on the stored points. -/
theorem patch_stored (h : Stores service m) (s : SequenceId) (startTime endTime : Timestamp)
    (data : TimeseriesBatch) (hr : InRange (.patch s startTime endTime data)) :
    Stores (patchDerivedSequence p s startTime endTime data service).1
      (storedStep m ⟨p, .patch s startTime endTime data⟩) := by
  unfold patchDerivedSequence storedStep
  cases hval : validatePatch p s startTime endTime data with
  | some error =>
      simp only [hval, Option.isSome_some, if_true]
      exact h
  | none =>
      simp only [hval, Option.isSome_none, Bool.false_eq_true, if_false]
      obtain ⟨hse, hids⟩ := validatePatch_ordered hval
      have hwv := writeSequence_allValid h.valid p s
        (fun w => patchSequence w startTime endTime data)
        fun w hv _ => patchSequence_valid hv hse data
      have hwc := writeSequence_contentOf h.valid p s
        (fun w => patchSequence w startTime endTime data)
        (fun c => assignAll RawTimeseriesPoint.time data.points
          (c.filter fun q => decide (q.time < startTime) || decide (endTime < q.time)))
        fun w hv hw => patchSequence_inside hv hse data fun q hq =>
          h.inRange (scopedSequenceKey p s) q (hw ▸ hq)
      refine ⟨hwv, fun key t => ?_, h.watermark, h.size, h.sizePos, fun key q hq => ?_⟩
      · show data.points.foldl (writeStored (effectiveProject p)) (Function.update m.points
          (scopedSequenceKey (effectiveProject p) s) fun t =>
            if startTime ≤ t ∧ t ≤ endTime then none
            else m.points (scopedSequenceKey (effectiveProject p) s) t) key t = _
        rw [foldl_writeStored_one hids, hwc, scopedSequenceKey_effective]
        by_cases hkey : key = scopedSequenceKey p s
        · subst hkey
          rw [if_pos rfl, if_pos rfl, pointAt_assignAll ((h.valid.ascending _).filter _ _),
            pointAt_filter (h.valid.ascending _)
              (fun t => decide (t < startTime) || decide (endTime < t)), ← h.points]
          refine congrArg _ ?_
          by_cases hin : startTime ≤ t ∧ t ≤ endTime
          · rw [if_pos hin, if_neg (by simpa using hin)]
          · rw [if_neg hin, if_pos]
            simp only [Bool.or_eq_true, decide_eq_true_eq]
            exact (not_and_or.mp hin).imp not_le.mp not_le.mp
        · rw [if_neg hkey, if_neg hkey, h.points]
      · rw [hwc] at hq
        split at hq
        · rw [mem_assignAll _ ((h.valid.ascending _).filter _ _)] at hq
          rcases hq with hnew | ⟨-, hold⟩
          · exact (hr q (lastAt_some _ hnew).1).2
          · exact h.inRange key q (List.mem_of_mem_filter hold)
        · exact h.inRange key q hq

theorem statistics_stored (h : Stores service m) (ids : List SequenceId) :
    Stores (queryWindowStatistics p ids service).1 m := by
  obtain ⟨hv, hpoints, hw, hs⟩ := statistics_contents h.valid p ids
  exact ⟨hv, fun key t => by rw [hpoints, h.points], fun project => by rw [hw, h.watermark],
    fun project => by rw [hs, h.size], h.sizePos, fun key q hq => h.inRange key q (hpoints key ▸ hq)⟩

/-- Every operation of every project keeps the refinement. -/
theorem step_stored (h : Stores service m) (call : ServiceCall) (hr : InRange call.op) :
    Stores (callStep service call) (storedStep m call) := by
  obtain ⟨p, op⟩ := call
  cases op with
  | configure size => exact configure_stored h size
  | update data override => exact update_stored h data override hr
  | replace s data => exact replace_stored h s data hr
  | patch s startTime endTime data => exact patch_stored h s startTime endTime data hr
  | query query => exact h
  | statistics ids => exact statistics_stored h ids

end Steps

/-- **Run.**  After every run of operations of any projects the service holds the points
    of the model. -/
theorem run_stored {calls : List ServiceCall} (hr : ∀ call ∈ calls, InRange call.op) :
    Stores (run callStep {} calls) (run storedStep emptyStored calls) := by
  have hstep : ∀ service m (call : ServiceCall), InRange call.op → Stores service m →
      Stores (callStep service call) (storedStep m call) :=
    fun _ _ call hop h => step_stored h call hop
  exact run_simulation hstep stores_init hr

end StoredPoints
