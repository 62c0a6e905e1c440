import TimeSeriesEngine.WindowUpdate

/-!
# The range an update affects

`incrementalRangeFor`, which the constraint path and the derived path each keep a
copy of: the union of the affected ranges of the changed sequences, or nothing
as soon as one of them was not updated by a plain append.

`update_report` is what an accepted update says about one sequence; with it the
range of a single sequence is `rangeOf_update`.
-/

namespace UpdateRange

open TseTypes KeyedTable OrderedSeries SeqWindow SeqContent HotWindow WindowContent WindowUpdate

/-- The anchors a rule is checked at again. -/
structure IncrementalRange where
  startTime : Timestamp
  endTime : Timestamp
  windowEvicted : Bool := false
  deriving DecidableEq

/-- The range of one report entry, when it is safe and complete. -/
def safeRange (update : SequenceWindowUpdate) : Option IncrementalRange :=
  match update.incrementalSafe, update.affectedStartTime, update.affectedEndTime with
  | true, some start, some finish => some ⟨start, finish, update.windowEvicted⟩
  | _, _, _ => none

/-- The smallest range around two. -/
def joinRange (old : Option IncrementalRange) (new : IncrementalRange) : IncrementalRange :=
  match old with
  | none => new
  | some old =>
      { startTime := min old.startTime new.startTime
        endTime := max old.endTime new.endTime
        windowEvicted := old.windowEvicted || new.windowEvicted }

/-- The loop over the sequences; the outer `none` means one of them is unsafe. -/
def collectRange (update : WindowUpdateResult) :
    List SequenceId → Option IncrementalRange → Option (Option IncrementalRange)
  | [], range => some range
  | sequenceId :: rest, range =>
      if sequenceId ∈ update.changedSequenceIds then
        match (update.sequenceUpdates.find sequenceId).bind safeRange with
        | none => none
        | some new => collectRange update rest (some (joinRange range new))
      else collectRange update rest range

/-- A range with evictions reaches back to the window start. -/
def reachWindowStart (update : WindowUpdateResult) (range : IncrementalRange) :
    IncrementalRange :=
  match range.windowEvicted, update.windowStartTime with
  | true, some start => { range with startTime := min range.startTime start }
  | _, _ => range

/-- `incrementalRangeFor`. -/
def incrementalRangeFor (update : WindowUpdateResult) (sequenceIds : List SequenceId) :
    Option IncrementalRange :=
  if sequenceIds.isEmpty then none
  else if update.sequenceUpdates.keys.isEmpty then
    (safeRange
      { affectedStartTime := update.affectedStartTime
        affectedEndTime := update.affectedEndTime
        incrementalSafe := update.incrementalSafe
        windowEvicted := update.windowEvicted }).map (reachWindowStart update)
  else (collectRange update sequenceIds none).join.map (reachWindowStart update)

/-! ## What an update reports -/

theorem stripPrefix_append (pre s : String) : stripPrefix pre (pre ++ s) = s := by
  rw [stripPrefix, String.toList_append, List.drop_left, String.ofList_toList]

/-- The window of one sequence before the prune. -/
def grown (p : ProjectId) (s : SequenceId) (data : TimeseriesBatch) (service : WindowService) :
    List RawTimeseriesPoint :=
  assignAll RawTimeseriesPoint.time (incomingFor s data.points)
    (contentOf (scopedSequenceKey p s) service.sequenceWindows)

/-- The retained points of a sequence. -/
def retained (p : ProjectId) (s : SequenceId) (service : WindowService) :
    List RawTimeseriesPoint :=
  contentOf (scopedSequenceKey p s) service.sequenceWindows

theorem ascending_retained {service : WindowService} (hv : AllValid service.sequenceWindows)
    (p : ProjectId) (s : SequenceId) :
    Ascending RawTimeseriesPoint.time (retained p s service) :=
  hv.ascending _

theorem ascending_grown {service : WindowService} (hv : AllValid service.sequenceWindows)
    (p : ProjectId) (s : SequenceId) (data : TimeseriesBatch) :
    Ascending RawTimeseriesPoint.time (grown p s data service) :=
  (hv.ascending _).assignAll _ _

/-- A window before the prune. -/
theorem windowsBefore_scoped {service : WindowService} (hv : AllValid service.sequenceWindows)
    (p : ProjectId) (data : TimeseriesBatch) (s : SequenceId) :
    contentOf (scopedSequenceKey p s) (windowsBefore p data service) = grown p s data service := by
  rw [(windowsBefore_spec rfl hv p data).2.1]
  have hb := batchAt_scoped (effectiveProject p) s data.points
  rw [scopedSequenceKey_effective] at hb
  rw [hb]
  rfl

/-- **What an accepted update stores**, sequence by sequence. -/
theorem update_retained {p : ProjectId} {data : TimeseriesBatch} {override : Option Int}
    (hacc : Accepted p data override) {service : WindowService}
    (hv : AllValid service.sequenceWindows) (s : SequenceId) :
    retained p s (updateWindowIncremental p data override service).1 =
      (grown p s data service).filter
        (fun q => decide (startAfter p data override service ≤ q.time)) := by
  have hb := batchAt_scoped (effectiveProject p) s data.points
  rw [scopedSequenceKey_effective] at hb
  rw [retained, update_contentOf hacc hv, if_pos (hasPrefix_scopedSequenceKey p s), hb]
  rfl

/-- The sequences that lose points. -/
theorem mem_evicted {p : ProjectId} {data : TimeseriesBatch} {override : Option Int}
    {service : WindowService} (hv : AllValid service.sequenceWindows) (s : SequenceId) :
    let opened := metadataStep (effectiveProject p) override data.points
      (noteAll p data.points).changedSequenceIds service
    s ∈ (pruneExpiredPoints (startAfter p data override service)
        (projectKeys (effectiveProject p) opened.1) (windowsBefore p data service)).2.map
          (stripPrefix (scopePrefix (effectiveProject p))) ↔
      ∃ q ∈ grown p s data service, q.time < startAfter p data override service := by
  intro opened
  obtain ⟨hvb, -, hkeys⟩ := windowsBefore_spec rfl hv p data
  have hnd : (projectKeys (effectiveProject p) opened.1).Nodup :=
    opened.1.sequenceWindows.nodup.filter _
  have hmem := mem_pruneExpiredPoints_evicted hvb (startAfter p data override service) hnd
  rw [List.mem_map]
  constructor
  · rintro ⟨key, hkey, rfl⟩
    obtain ⟨hk, q, hq, hlt⟩ := (hmem key).mp hkey
    obtain ⟨t, rfl⟩ := hasPrefix_iff.mp (List.mem_filter.mp hk).2
    rw [stripPrefix_append]
    refine ⟨q, ?_, hlt⟩
    rw [← windowsBefore_scoped hv]
    exact hq
  · rintro ⟨q, hq, hlt⟩
    refine ⟨scopedSequenceKey p s, (hmem _).mpr ⟨?_, q, ?_, hlt⟩, stripPrefix_append _ s⟩
    · refine List.mem_filter.mpr ⟨?_, hasPrefix_scopedSequenceKey p s⟩
      -- a key with points exists before the prune, hence after the metadata step
      have hne : scopedSequenceKey p s ∈ (windowsBefore p data service).keys := by
        by_contra hno
        rw [← windowsBefore_scoped hv, contentOf_of_not_mem hno] at hq
        exact nomatch hq
      refine (mem_createSequences (effectiveProject p) (noteAll p data.points).changedSequenceIds
        service.sequenceWindows _).mpr (((hkeys _).mp hne).imp id ?_)
      rintro ⟨r, hr, he⟩
      exact ⟨r.sequenceId, ((noteAll_changed p data.points).2 _).mpr ⟨r, hr, rfl⟩, he⟩
    · rw [windowsBefore_scoped hv]
      exact hq

/-- The report before the evictions, sequence by sequence. -/
theorem reportBefore_spec (p : ProjectId) (data : TimeseriesBatch) (override : Option Int)
    (service : WindowService) :
    (reportBefore p data override service).projectId = effectiveProject p ∧
      (reportBefore p data override service).windowStartTime =
        some (startAfter p data override service) ∧
      (reportBefore p data override service).updateGeneration =
        nextGeneration ((service.updateGenerations.find (effectiveProject p)).getD 0) ∧
      (reportBefore p data override service).changedSequenceIds =
        (noteAll p data.points).changedSequenceIds ∧
      ∀ s, sequenceUpdateOf s (reportBefore p data override service) =
        { affectedBy (incomingFor s data.points) {} with
          incrementalSafe :=
            decide (incomingFor s data.points ≠ []) &&
              sequenceSafe (effectiveProject p) (prepareUpdate s (incomingFor s data.points))
                (metadataStep (effectiveProject p) override data.points
                  (noteAll p data.points).changedSequenceIds service).1.sequenceWindows } := by
  obtain ⟨hn, hmem⟩ := noteAll_changed p data.points
  have hstart := metadataStep_windowStart p data override
    (noteAll p data.points).changedSequenceIds service
  obtain ⟨h1, h2, h3⟩ := runSequenceSteps_report (effectiveProject p) data.points hn
    (metadataStep (effectiveProject p) override data.points
      (noteAll p data.points).changedSequenceIds service).1.sequenceWindows
    { noteAll p data.points with
      updateGeneration := (metadataStep (effectiveProject p) override data.points
        (noteAll p data.points).changedSequenceIds service).2.generation
      windowStartTime := some (metadataStep (effectiveProject p) override data.points
        (noteAll p data.points).changedSequenceIds service).2.windowStart
      incrementalSafe := true }
  refine ⟨h1.projectId.trans (noteAll_projectId p data.points), h1.windowStartTime.trans ?_,
    h1.updateGeneration, h1.changedSequenceIds, fun s => ?_⟩
  · rw [← hstart]
  · have hnote : sequenceUpdateOf s (noteAll p data.points) =
        affectedBy (incomingFor s data.points) {} := noteAll_updateOf p data.points s
    by_cases hs : s ∈ (noteAll p data.points).changedSequenceIds
    · obtain ⟨q, hq, hqs⟩ := (hmem s).mp hs
      have hne : incomingFor s data.points ≠ [] :=
        List.ne_nil_of_mem (mem_incomingFor.mpr ⟨hq, hqs⟩)
      refine (h2 s hs).trans ?_
      rw [← hnote, decide_eq_true hne, Bool.true_and]
      rfl
    · have hnil : incomingFor s data.points = [] := by
        refine List.eq_nil_iff_forall_not_mem.mpr fun q hq => hs ((hmem s).mpr ?_)
        exact ⟨q, (mem_incomingFor.mp hq).1, (mem_incomingFor.mp hq).2⟩
      refine (h3 s hs).trans ?_
      show sequenceUpdateOf s (noteAll p data.points) = _
      rw [hnote, hnil]
      rfl

/-- **What an accepted update reports.** -/
structure Reported (p : ProjectId) (data : TimeseriesBatch) (override : Option Int)
    (service : WindowService) (update : WindowUpdateResult) : Prop where
  code : update.operation.code = .ok
  projectId : update.projectId = effectiveProject p
  windowStartTime : update.windowStartTime = some (startAfter p data override service)
  updateGeneration : update.updateGeneration =
    nextGeneration ((service.updateGenerations.find (effectiveProject p)).getD 0)
  changed : ∀ s, s ∈ update.changedSequenceIds ↔ (∃ q ∈ data.points, q.sequenceId = s) ∨
    ∃ q ∈ grown p s data service, q.time < startAfter p data override service
  evicted : ∀ s, (sequenceUpdateOf s update).windowEvicted = true ↔
    ∃ q ∈ grown p s data service, q.time < startAfter p data override service
  safe : ∀ s, (sequenceUpdateOf s update).incrementalSafe = true →
    incomingFor s data.points ≠ [] ∧
      grown p s data service = retained p s service ++ incomingFor s data.points
  affected : ∀ s, incomingFor s data.points ≠ [] → ∃ a b,
    (sequenceUpdateOf s update).affectedStartTime = some a ∧
      (sequenceUpdateOf s update).affectedEndTime = some b ∧
      (∀ q ∈ incomingFor s data.points, a ≤ q.time ∧ q.time ≤ b) ∧
      (∃ q ∈ incomingFor s data.points, q.time = a) ∧
      ∃ q ∈ incomingFor s data.points, q.time = b

/-- A safe update appends. -/
theorem sequenceSafe_grown {p : ProjectId} {s : SequenceId} {data : TimeseriesBatch}
    {service : WindowService} (hv : AllValid service.sequenceWindows) {ids : List SequenceId}
    (h : sequenceSafe (effectiveProject p) (prepareUpdate s (incomingFor s data.points))
      (ids.foldl (fun acc s => ensure (scopedSequenceKey (effectiveProject p) s) {} acc)
        service.sequenceWindows) = true) :
    grown p s data service = retained p s service ++ incomingFor s data.points := by
  have hid := prepareUpdate_sequenceId s (incomingFor s data.points)
  have hi := prepareUpdate_ascending s (incomingFor s data.points)
  have hv' := createSequences_valid hv (effectiveProject p) ids
  have hsame := createSequences_contentOf (effectiveProject p) ids service.sequenceWindows
    (scopedSequenceKey p s)
  unfold sequenceSafe at h
  rw [hid, scopedSequenceKey_effective] at h
  split at h
  · rename_i w hw
    obtain ⟨happ, hinc⟩ := updateSequence_incremental (hv' _ w hw) hi h
    rw [updateSequence_content (hv' _ w hw) hi,
      prepareUpdate_assignAll s _ (hv' _ w hw).content_ascending] at happ
    have hprep : (prepareUpdate s (incomingFor s data.points)).incoming =
        incomingFor s data.points := by
      unfold prepareUpdate at hinc ⊢
      split
      · rfl
      · rename_i hno
        rw [if_neg hno] at hinc
        exact nomatch hinc
    have hcontent : content w = retained p s service := by
      rw [retained, ← hsame, contentOf_some hw]
    rw [hprep, hcontent] at happ
    exact happ
  · exact nomatch h

/-- An accepted update reports what it has changed. -/
theorem update_reported {p : ProjectId} {data : TimeseriesBatch} {override : Option Int}
    (hacc : Accepted p data override) {service : WindowService}
    (hv : AllValid service.sequenceWindows) :
    Reported p data override service (updateWindowIncremental p data override service).2 := by
  obtain ⟨hproject, hstart, hgen, hchanged, hof⟩ := reportBefore_spec p data override service
  obtain ⟨hn, hmem⟩ := noteAll_changed p data.points
  rw [update_eq hacc]
  set evicted := (pruneExpiredPoints (startAfter p data override service)
    (projectKeys (effectiveProject p) (metadataStep (effectiveProject p) override data.points
      (noteAll p data.points).changedSequenceIds service).1)
    (windowsBefore p data service)).2.map (stripPrefix (scopePrefix (effectiveProject p)))
    with hevdef
  have hevicted : ∀ s, s ∈ evicted ↔
      ∃ q ∈ grown p s data service, q.time < startAfter p data override service :=
    fun s => mem_evicted hv s
  have hfresh : ∀ s, (sequenceUpdateOf s (reportBefore p data override service)).windowEvicted =
      false := by
    intro s
    rw [hof s]
    exact (affectedBy_bounds (incomingFor s data.points) {}).2.1
  have hrep := reportEvictions_spec (startAfter p data override service) evicted
    (hchanged ▸ hn) hfresh
  refine ⟨rfl, hrep.projectId.trans hproject, hrep.windowStartTime.trans hstart,
    hrep.updateGeneration.trans hgen, fun s => ?_, fun s => ?_, fun s hs => ?_, fun s hs => ?_⟩
  · refine (hrep.changed s).trans ?_
    rw [hchanged, hmem, hevicted]
  · refine (iff_of_eq (congrArg (· = true) (hrep.evictedFlag s))).trans ?_
    rw [hfresh, Bool.or_false, decide_eq_true_iff, hevicted]
  · have hs' := (hrep.safe s).symm.trans hs
    rw [hof s] at hs'
    obtain ⟨h1, h2⟩ := Bool.and_eq_true_iff.mp hs'
    exact ⟨of_decide_eq_true h1, sequenceSafe_grown hv h2⟩
  · obtain ⟨-, -, hb, -, -⟩ := affectedBy_bounds (incomingFor s data.points) {}
    obtain ⟨hstartAt, hendAt⟩ := affectedBy_attained (incomingFor s data.points) {}
    obtain ⟨first, hfirst⟩ := List.exists_mem_of_ne_nil _ hs
    obtain ⟨a, b, ha, hb', -, -⟩ := hb first hfirst
    refine ⟨a, b, hrep.keepsStart s a ?_, hrep.keepsEnd s b ?_, fun q hq => ?_, ?_, ?_⟩
    · rw [hof s]
      exact ha
    · rw [hof s]
      exact hb'
    · obtain ⟨a', b', ha'', hb'', hle, hge⟩ := hb q hq
      rw [ha] at ha''
      rw [hb'] at hb''
      rw [Option.some.inj ha'', Option.some.inj hb'']
      exact ⟨hle, hge⟩
    · exact (hstartAt a ha).resolve_left fun h => nomatch h
    · exact (hendAt b hb').resolve_left fun h => nomatch h

/-! ## Rejected batches -/

/-- The points read before an error. -/
theorem readPoints_prefix (project : ProjectId) (points : List RawTimeseriesPoint)
    (result : WindowUpdateResult) :
    ∃ k, (readPoints project points result).1 = (points.take k).foldl notePoint result := by
  induction points generalizing result with
  | nil => exact ⟨0, rfl⟩
  | cons q qs ih =>
      rw [readPoints]
      cases validateRawPoint project q with
      | some error => exact ⟨0, rfl⟩
      | none =>
          obtain ⟨k, hk⟩ := ih (notePoint result q)
          exact ⟨k + 1, hk⟩

/-- No sequence of a rejected batch is reported as safe. -/
theorem rejected_not_safe {p : ProjectId} {data : TimeseriesBatch} {override : Option Int}
    (h : ¬ Accepted p data override) (service : WindowService) (s : SequenceId) :
    (sequenceUpdateOf s (updateWindowIncremental p data override service).2).incrementalSafe =
      false := by
  have hprefix : ∃ points, ∀ s, sequenceUpdateOf s (readBatch p data override).1 =
      affectedBy (incomingFor s points) {} := by
    unfold readBatch
    split
    · exact ⟨[], fun _ => rfl⟩
    split
    · exact ⟨[], fun _ => rfl⟩
    simp only
    split
    · exact ⟨[], fun _ => rfl⟩
    · obtain ⟨k, hk⟩ := readPoints_prefix (effectiveProject p) data.points
        { projectId := effectiveProject p }
      refine ⟨data.points.take k, fun s => ?_⟩
      rw [hk]
      exact noteAll_updateOf p (data.points.take k) s
  obtain ⟨points, hpoints⟩ := hprefix
  rcases readBatch_cases p data override with ⟨hacc, -⟩ | ⟨-, result, error, heq⟩
  · exact absurd hacc h
  · rw [heq] at hpoints
    unfold updateWindowIncremental
    rw [heq]
    show (sequenceUpdateOf s result).incrementalSafe = false
    rw [hpoints s]
    exact (affectedBy_bounds (incomingFor s points) {}).1

/-- A sequence reported as safe was in an accepted batch. -/
theorem accepted_of_safe {p : ProjectId} {data : TimeseriesBatch} {override : Option Int}
    {service : WindowService} {s : SequenceId}
    (h : (sequenceUpdateOf s
      (updateWindowIncremental p data override service).2).incrementalSafe = true) :
    Accepted p data override := by
  by_contra hno
  rw [rejected_not_safe hno service s] at h
  exact nomatch h

/-! ## The range of one sequence -/

/-- A safe update is on the list. -/
theorem find_of_changed {update : WindowUpdateResult} {s : SequenceId}
    (h : (sequenceUpdateOf s update).incrementalSafe = true) :
    update.sequenceUpdates.find s = some (sequenceUpdateOf s update) := by
  unfold sequenceUpdateOf at h ⊢
  cases hf : update.sequenceUpdates.find s with
  | none =>
      rw [hf] at h
      exact nomatch h
  | some u => rfl

/-- `incrementalRangeFor` on one sequence. -/
theorem rangeFor_single {update : WindowUpdateResult} {s : SequenceId}
    (hkeys : update.sequenceUpdates.keys ≠ []) :
    incrementalRangeFor update [s] =
      if s ∈ update.changedSequenceIds then
        (safeRange (sequenceUpdateOf s update)).map (reachWindowStart update)
      else none := by
  have hne : update.sequenceUpdates.keys.isEmpty = false := by simpa using hkeys
  unfold incrementalRangeFor
  rw [hne]
  by_cases hc : s ∈ update.changedSequenceIds
  · rw [if_pos hc]
    simp only [List.isEmpty_cons, Bool.false_eq_true, if_false, collectRange, if_pos hc]
    unfold sequenceUpdateOf
    cases update.sequenceUpdates.find s with
    | none => rfl
    | some u =>
        show ((match safeRange u with
          | none => none
          | some new => some (some (joinRange none new))).join.map (reachWindowStart update)) = _
        show _ = (safeRange u).map (reachWindowStart update)
        cases safeRange u with
        | none => rfl
        | some r => rfl
  · rw [if_neg hc]
    simp [collectRange, hc]

/-- The times at and behind the window start that lie in front of a range. -/
theorem lt_reachWindowStart {update : WindowUpdateResult} {range : IncrementalRange}
    {start t : Timestamp} (hstart : update.windowStartTime = some start) (ht : start ≤ t) :
    t < (reachWindowStart update range).startTime ↔
      t < range.startTime ∧ range.windowEvicted = false := by
  unfold reachWindowStart
  rw [hstart]
  cases hev : range.windowEvicted with
  | false => simp
  | true =>
      simp only [Bool.true_eq_false, and_false, iff_false, not_lt]
      exact le_trans (min_le_right _ _) ht

theorem reachWindowStart_endTime (update : WindowUpdateResult) (range : IncrementalRange) :
    (reachWindowStart update range).endTime = range.endTime := by
  unfold reachWindowStart
  split <;> rfl

theorem reachWindowStart_le (update : WindowUpdateResult) (range : IncrementalRange) :
    (reachWindowStart update range).startTime ≤ range.startTime := by
  unfold reachWindowStart
  split
  · exact min_le_left _ _
  · exact le_refl _

/-- **The range of a sequence that was only appended to.** -/
structure SafeRange (p : ProjectId) (s : SequenceId) (data : TimeseriesBatch)
    (service : WindowService) (start : Timestamp) (range : IncrementalRange) : Prop where
  covers : ∀ q ∈ incomingFor s data.points, range.startTime ≤ q.time ∧ q.time ≤ range.endTime
  last : ∃ q ∈ incomingFor s data.points, q.time = range.endTime
  front : ∀ t, start ≤ t → (t < range.startTime ↔
    (∀ q ∈ incomingFor s data.points, t < q.time) ∧
      ¬ ∃ q ∈ grown p s data service, q.time < start)

/-- The range of a safe update, and what it covers. -/
theorem safe_range {p : ProjectId} {data : TimeseriesBatch} {override : Option Int}
    {service : WindowService} {update : WindowUpdateResult}
    (hrep : Reported p data override service update) (hkeys : update.sequenceUpdates.keys ≠ [])
    {s : SequenceId} (hs : (sequenceUpdateOf s update).incrementalSafe = true) :
    ∃ range, incrementalRangeFor update [s] = some range ∧
      SafeRange p s data service (startAfter p data override service) range := by
  obtain ⟨hne, -⟩ := hrep.safe s hs
  obtain ⟨a, b, ha, hb, hcovers, ⟨first, hfirst, hfa⟩, last, hlast, hlb⟩ := hrep.affected s hne
  have hchanged : s ∈ update.changedSequenceIds := by
    refine (hrep.changed s).mpr (Or.inl ⟨first, ?_, ?_⟩)
    · exact (mem_incomingFor.mp hfirst).1
    · exact (mem_incomingFor.mp hfirst).2
  have hsafe : safeRange (sequenceUpdateOf s update) =
      some ⟨a, b, (sequenceUpdateOf s update).windowEvicted⟩ := by
    unfold safeRange
    rw [hs, ha, hb]
  refine ⟨_, by rw [rangeFor_single hkeys, if_pos hchanged, hsafe]; rfl, fun q hq => ⟨?_, ?_⟩,
    ⟨last, hlast, ?_⟩, fun t ht => ?_⟩
  · exact le_trans (reachWindowStart_le _ _) (hcovers q hq).1
  · rw [reachWindowStart_endTime]
    exact (hcovers q hq).2
  · rw [reachWindowStart_endTime]
    exact hlb
  · rw [lt_reachWindowStart hrep.windowStartTime ht, ← hrep.evicted s, Bool.not_eq_true]
    refine and_congr_left fun _ => ⟨fun h q hq => lt_of_lt_of_le h (hcovers q hq).1, fun h => ?_⟩
    exact hfa ▸ h first hfirst

/-- Only a sequence that was appended to has a range. -/
theorem safe_of_range {update : WindowUpdateResult} (hkeys : update.sequenceUpdates.keys ≠ [])
    {s : SequenceId} {range : IncrementalRange} (h : incrementalRangeFor update [s] = some range) :
    (sequenceUpdateOf s update).incrementalSafe = true := by
  rw [rangeFor_single hkeys] at h
  split at h
  · cases hsafe : safeRange (sequenceUpdateOf s update) with
    | none =>
        rw [hsafe] at h
        exact nomatch h
    | some found =>
        unfold safeRange at hsafe
        split at hsafe
        · rename_i hs _ _
          exact hs
        · exact nomatch hsafe
  · exact nomatch h

/-- A report with a safe sequence has an entry. -/
theorem keys_of_safe {update : WindowUpdateResult} {s : SequenceId}
    (h : (sequenceUpdateOf s update).incrementalSafe = true) :
    update.sequenceUpdates.keys ≠ [] := by
  refine List.ne_nil_of_mem (a := s) ((update.sequenceUpdates.mem_keys s).mpr ?_)
  rw [find_of_changed h]
  rfl

/-! ## Several ranges -/

/-- The union starts with the earliest of its ranges and ends with the latest. -/
theorem unionRange_spec {ranges : List IncrementalRange} (hne : ranges ≠ []) :
    ∃ union, ranges.foldl (fun range new => some (joinRange range new)) none = some union ∧
      (∀ t, t < union.startTime ↔ ∀ range ∈ ranges, t < range.startTime) ∧
      (∀ range ∈ ranges, range.endTime ≤ union.endTime) ∧
      ∃ range ∈ ranges, range.endTime = union.endTime := by
  have hfold : ∀ (ranges : List IncrementalRange) (base : IncrementalRange),
      ∃ union, ranges.foldl (fun range new => some (joinRange range new)) (some base) =
          some union ∧
        (∀ t, t < union.startTime ↔ t < base.startTime ∧ ∀ range ∈ ranges, t < range.startTime) ∧
        (base.endTime ≤ union.endTime ∧ ∀ range ∈ ranges, range.endTime ≤ union.endTime) ∧
        (base.endTime = union.endTime ∨ ∃ range ∈ ranges, range.endTime = union.endTime) := by
    intro ranges
    induction ranges with
    | nil => exact fun base => ⟨base, rfl, by simp, by simp, Or.inl rfl⟩
    | cons range ranges ih =>
        intro base
        obtain ⟨union, heq, hstart, ⟨hend, hends⟩, hlast⟩ := ih (joinRange (some base) range)
        have h1 : (joinRange (some base) range).startTime = min base.startTime range.startTime :=
          rfl
        have h2 : (joinRange (some base) range).endTime = max base.endTime range.endTime := rfl
        rw [h2] at hend
        refine ⟨union, heq, fun t => ?_, ⟨le_trans (le_max_left _ _) hend, fun r hr => ?_⟩, ?_⟩
        · rw [hstart, h1, lt_min_iff, List.forall_mem_cons, and_assoc]
        · rcases List.mem_cons.mp hr with rfl | hr'
          · exact le_trans (le_max_right _ _) hend
          · exact hends r hr'
        · rcases hlast with h | ⟨r, hr, h⟩
          · rw [h2] at h
            rcases max_choice base.endTime range.endTime with hm | hm
            · exact Or.inl (hm.symm.trans h)
            · exact Or.inr ⟨range, List.mem_cons_self .., hm.symm.trans h⟩
          · exact Or.inr ⟨r, List.mem_cons_of_mem _ hr, h⟩
  cases ranges with
  | nil => exact absurd rfl hne
  | cons range ranges =>
      obtain ⟨union, heq, hstart, ⟨hend, hends⟩, hlast⟩ := hfold ranges range
      refine ⟨union, heq, fun t => ?_, fun r hr => ?_, ?_⟩
      · rw [hstart, List.forall_mem_cons]
      · rcases List.mem_cons.mp hr with rfl | hr'
        · exact hend
        · exact hends r hr'
      · rcases hlast with h | ⟨r, hr, h⟩
        · exact ⟨range, List.mem_cons_self .., h⟩
        · exact ⟨r, List.mem_cons_of_mem _ hr, h⟩

/-- A union has evictions when one of the ranges has. -/
theorem unionRange_evicted {ranges : List IncrementalRange} {union : IncrementalRange}
    (h : ranges.foldl (fun range new => some (joinRange range new)) none = some union) :
    union.windowEvicted = true ↔ ∃ range ∈ ranges, range.windowEvicted = true := by
  have hfold : ∀ (ranges : List IncrementalRange) (base : IncrementalRange),
      ranges.foldl (fun range new => some (joinRange range new)) (some base) = some union →
        (union.windowEvicted = true ↔
          base.windowEvicted = true ∨ ∃ range ∈ ranges, range.windowEvicted = true) := by
    intro ranges
    induction ranges with
    | nil =>
        intro base heq
        rw [← Option.some.inj heq]
        refine ⟨Or.inl, ?_⟩
        rintro (hbase | ⟨range, hrange, -⟩)
        · exact hbase
        · cases hrange
    | cons range ranges ih =>
        intro base heq
        have hjoin : (joinRange (some base) range).windowEvicted =
            (base.windowEvicted || range.windowEvicted) := rfl
        rw [ih (joinRange (some base) range) heq, hjoin, Bool.or_eq_true, or_assoc,
          List.exists_mem_cons_iff]
  cases ranges with
  | nil => cases h
  | cons first rest => rw [hfold rest first h, List.exists_mem_cons_iff]

/-- The ranges of the changed members. -/
def memberRanges (update : WindowUpdateResult) (ids : List SequenceId) : List IncrementalRange :=
  (ids.filter fun s => s ∈ update.changedSequenceIds).filterMap fun s =>
    (update.sequenceUpdates.find s).bind safeRange

theorem mem_memberRanges {update : WindowUpdateResult} {ids : List SequenceId}
    {range : IncrementalRange} :
    range ∈ memberRanges update ids ↔ ∃ s ∈ ids, s ∈ update.changedSequenceIds ∧
      (update.sequenceUpdates.find s).bind safeRange = some range := by
  simp only [memberRanges, List.mem_filterMap, List.mem_filter, decide_eq_true_eq, and_assoc]

/-- The loop over sequences of which none is unsafe. -/
theorem collectRange_safe {update : WindowUpdateResult} {ids : List SequenceId}
    (hsafe : ∀ s ∈ ids, s ∈ update.changedSequenceIds →
      ((update.sequenceUpdates.find s).bind safeRange).isSome = true)
    (base : Option IncrementalRange) :
    collectRange update ids base =
      some ((memberRanges update ids).foldl (fun range new => some (joinRange range new)) base) := by
  unfold memberRanges
  induction ids generalizing base with
  | nil => rfl
  | cons s ids ih =>
      have hrest := ih fun t ht => hsafe t (List.mem_cons_of_mem _ ht)
      rw [collectRange]
      by_cases hs : s ∈ update.changedSequenceIds
      · obtain ⟨range, hrange⟩ :=
          Option.isSome_iff_exists.mp (hsafe s (List.mem_cons_self ..) hs)
        rw [if_pos hs, hrange, List.filter_cons_of_pos (by simpa using hs), List.filterMap_cons,
          hrange]
        exact hrest _
      · rw [if_neg hs, List.filter_cons_of_neg (by simpa using hs)]
        exact hrest _

/-- **The range of sequences that were only appended to**, at least one of them. -/
structure JointRange (p : ProjectId) (ids : List SequenceId) (data : TimeseriesBatch)
    (service : WindowService) (start : Timestamp) (range : IncrementalRange) : Prop where
  covers : ∀ s ∈ ids, ∀ q ∈ incomingFor s data.points,
    range.startTime ≤ q.time ∧ q.time ≤ range.endTime
  last : ∃ s ∈ ids, ∃ q ∈ incomingFor s data.points, q.time = range.endTime
  front : ∀ t, start ≤ t → (t < range.startTime ↔ ∀ s ∈ ids,
    (∀ q ∈ incomingFor s data.points, t < q.time) ∧
      ¬ ∃ q ∈ grown p s data service, q.time < start)

theorem JointRange.start_le {p : ProjectId} {ids : List SequenceId} {data : TimeseriesBatch}
    {service : WindowService} {start : Timestamp} {range : IncrementalRange}
    (h : JointRange p ids data service start range) : range.startTime ≤ range.endTime := by
  obtain ⟨s, hs, q, hq, -⟩ := h.last
  exact le_trans (h.covers s hs q hq).1 (h.covers s hs q hq).2

/-- The range of one safe sequence spans its points of the batch, exactly. -/
theorem member_range {p : ProjectId} {data : TimeseriesBatch} {override : Option Int}
    {service : WindowService} {update : WindowUpdateResult}
    (hrep : Reported p data override service update) {s : SequenceId}
    (hflag : (sequenceUpdateOf s update).incrementalSafe = true) :
    ∃ a b, (update.sequenceUpdates.find s).bind safeRange =
        some ⟨a, b, (sequenceUpdateOf s update).windowEvicted⟩ ∧
      (∀ q ∈ incomingFor s data.points, a ≤ q.time ∧ q.time ≤ b) ∧
      (∃ q ∈ incomingFor s data.points, q.time = a) ∧
      ∃ q ∈ incomingFor s data.points, q.time = b := by
  obtain ⟨hne, -⟩ := hrep.safe s hflag
  obtain ⟨a, b, ha, hb, hcovers, hfirst, hlast⟩ := hrep.affected s hne
  refine ⟨a, b, ?_, hcovers, hfirst, hlast⟩
  rw [find_of_changed hflag, Option.bind_some, safeRange, hflag, ha, hb]

/-- What all ranges of the members say about a time in front of them. -/
theorem memberRanges_front {p : ProjectId} {data : TimeseriesBatch} {override : Option Int}
    {service : WindowService} {update : WindowUpdateResult}
    (hrep : Reported p data override service update) {ids : List SequenceId}
    (hsafe : ∀ s ∈ ids, s ∈ update.changedSequenceIds →
      (sequenceUpdateOf s update).incrementalSafe = true) (t : Timestamp) :
    (∀ range ∈ memberRanges update ids, t < range.startTime ∧ range.windowEvicted = false) ↔
      ∀ s ∈ ids, (∀ q ∈ incomingFor s data.points, t < q.time) ∧
        ¬ ∃ q ∈ grown p s data service, q.time < startAfter p data override service := by
  constructor
  · intro hranges s hs
    have hrange : ∀ hin : s ∈ update.changedSequenceIds, ∃ a b,
        (∀ q ∈ incomingFor s data.points, a ≤ q.time ∧ q.time ≤ b) ∧ t < a ∧
          (sequenceUpdateOf s update).windowEvicted = false := fun hin => by
      obtain ⟨a, b, heq, hcovers, -⟩ := member_range hrep (hsafe s hs hin)
      exact ⟨a, b, hcovers, hranges _ (mem_memberRanges.mpr ⟨s, hs, hin, heq⟩)⟩
    refine ⟨fun q hq => ?_, fun hev => ?_⟩
    · have hin : s ∈ update.changedSequenceIds := (hrep.changed s).mpr
        (Or.inl ⟨q, (mem_incomingFor.mp hq).1, (mem_incomingFor.mp hq).2⟩)
      obtain ⟨a, b, hcovers, hlt, -⟩ := hrange hin
      exact lt_of_lt_of_le hlt (hcovers q hq).1
    · -- an evicted member is a changed one
      obtain ⟨a, b, -, -, hunevicted⟩ := hrange ((hrep.changed s).mpr (Or.inr hev))
      rw [(hrep.evicted s).mpr hev] at hunevicted
      cases hunevicted
  · intro hfront range hr
    obtain ⟨s, hs, hin, heq⟩ := mem_memberRanges.mp hr
    obtain ⟨a, b, heq', -, ⟨q, hq, hqa⟩, -⟩ := member_range hrep (hsafe s hs hin)
    obtain rfl := Option.some.inj (heq.symm.trans heq')
    obtain ⟨hnew, hev⟩ := hfront s hs
    refine ⟨?_, Bool.eq_false_iff.mpr fun hflag => hev ((hrep.evicted s).mp hflag)⟩
    show t < a
    rw [← hqa]
    exact hnew q hq

/-- The union of the ranges of some safe sequences covers all their changes. -/
theorem joint_range {p : ProjectId} {data : TimeseriesBatch} {override : Option Int}
    {service : WindowService} {update : WindowUpdateResult}
    (hrep : Reported p data override service update) {ids : List SequenceId}
    (hsafe : ∀ s ∈ ids, s ∈ update.changedSequenceIds →
      (sequenceUpdateOf s update).incrementalSafe = true)
    (hchanged : ∃ s ∈ ids, s ∈ update.changedSequenceIds) :
    ∃ range, incrementalRangeFor update ids = some range ∧
      JointRange p ids data service (startAfter p data override service) range := by
  obtain ⟨changed, hcid, hcmem⟩ := hchanged
  have hone := fun s (hs : s ∈ ids) (hmem : s ∈ update.changedSequenceIds) =>
    member_range hrep (hsafe s hs hmem)
  have hranged : ∀ s ∈ ids, s ∈ update.changedSequenceIds →
      ((update.sequenceUpdates.find s).bind safeRange).isSome = true := by
    intro s hs hmem
    obtain ⟨a, b, heq, -⟩ := hone s hs hmem
    rw [heq]
    rfl
  have hcollect := collectRange_safe hranged none
  have hne : memberRanges update ids ≠ [] := by
    obtain ⟨a, b, heq, -⟩ := hone changed hcid hcmem
    exact List.ne_nil_of_mem (mem_memberRanges.mpr ⟨changed, hcid, hcmem, heq⟩)
  obtain ⟨union, hunion, hstart, hends, ⟨r, hr, hrend⟩⟩ := unionRange_spec hne
  have hkeys : update.sequenceUpdates.keys.isEmpty = false := by
    simpa using keys_of_safe (hsafe changed hcid hcmem)
  have hids : ids.isEmpty = false := by simpa using List.ne_nil_of_mem hcid
  refine ⟨reachWindowStart update union, ?_, fun s hs q hq => ?_, ?_, fun t ht => ?_⟩
  · unfold incrementalRangeFor
    rw [hids, hkeys, hcollect, hunion]
    rfl
  · have hin : s ∈ update.changedSequenceIds := (hrep.changed s).mpr
      (Or.inl ⟨q, (mem_incomingFor.mp hq).1, (mem_incomingFor.mp hq).2⟩)
    obtain ⟨a, b, heq, hcovers, -, -⟩ := hone s hs hin
    have hmem := mem_memberRanges.mpr ⟨s, hs, hin, heq⟩
    obtain ⟨hqa, hqb⟩ := hcovers q hq
    refine ⟨le_trans (reachWindowStart_le _ _) (le_trans ?_ hqa), ?_⟩
    · by_contra hgt
      exact absurd ((hstart a).mp (not_le.mp hgt) _ hmem) (lt_irrefl _)
    · rw [reachWindowStart_endTime]
      exact le_trans hqb (hends _ hmem)
  · obtain ⟨s, hs, hin, heq⟩ := mem_memberRanges.mp hr
    obtain ⟨a, b, heq', -, -, q, hq, hqb⟩ := hone s hs hin
    obtain rfl := Option.some.inj (heq.symm.trans heq')
    exact ⟨s, hs, q, hq, by rw [reachWindowStart_endTime, hqb, ← hrend]⟩
  · -- the union reaches back to the window start when a member was evicted
    have hclean : union.windowEvicted = false ↔
        ∀ range ∈ memberRanges update ids, range.windowEvicted = false := by
      rw [Bool.eq_false_iff, Ne, unionRange_evicted hunion]
      simp only [not_exists, not_and, Bool.not_eq_true]
    rw [lt_reachWindowStart hrep.windowStartTime ht, hstart, hclean, ← memberRanges_front hrep hsafe]
    exact forall₂_and.symm

end UpdateRange
