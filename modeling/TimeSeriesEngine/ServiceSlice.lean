import TimeSeriesEngine.WindowRefinement

/-!
# Slices of the window service

A slice keeps the entries of the shared tables whose keys pass a test.

* An operation of a project the slice owns reads and writes kept entries only, so
  it commutes with the slice (`update_slice`, `statistics_slice`, `query_slice`, …).
* An operation of a project the slice ignores leaves the kept entries alone
  (`update_ignored`, `statistics_ignored`, …).
-/

namespace ServiceSlice

open TseTypes KeyedTable HotWindow WindowRefinement

/-- Which keys of the tables are kept. -/
structure Slice where
  keepKey : String → Bool
  keepProject : ProjectId → Bool

/-- The kept part of the state. -/
def Slice.view (slice : Slice) (service : WindowService) : WindowService where
  sequenceWindows := restrict slice.keepKey service.sequenceWindows
  watermarks := restrict slice.keepProject service.watermarks
  windowSizes := restrict slice.keepProject service.windowSizes
  updateGenerations := restrict slice.keepProject service.updateGenerations

/-- All keys that start with the project's prefix are kept, and the project is. -/
structure Slice.Owns (slice : Slice) (p : ProjectId) : Prop where
  keys : ∀ key, hasPrefix (scopePrefix (effectiveProject p)) key = true →
    slice.keepKey key = true
  project : slice.keepProject (effectiveProject p) = true

/-- No key that starts with the project's prefix is kept, nor is the project. -/
structure Slice.Ignores (slice : Slice) (p : ProjectId) : Prop where
  keys : ∀ key, hasPrefix (scopePrefix (effectiveProject p)) key = true →
    slice.keepKey key = false
  project : slice.keepProject (effectiveProject p) = false

variable {slice : Slice} {p : ProjectId}

theorem scoped_sees (p : ProjectId) (s : SequenceId) :
    hasPrefix (scopePrefix (effectiveProject p)) (scopedSequenceKey (effectiveProject p) s) =
      true := by
  rw [scopedSequenceKey_effective]
  exact hasPrefix_scopedSequenceKey p s

theorem Slice.Owns.key (h : slice.Owns p) (s : SequenceId) :
    slice.keepKey (scopedSequenceKey p s) = true :=
  h.keys _ (hasPrefix_scopedSequenceKey p s)

theorem Slice.Owns.effectiveKey (h : slice.Owns p) (s : SequenceId) :
    slice.keepKey (scopedSequenceKey (effectiveProject p) s) = true :=
  h.keys _ (scoped_sees p s)

theorem Slice.Ignores.key (h : slice.Ignores p) (s : SequenceId) :
    slice.keepKey (scopedSequenceKey p s) = false :=
  h.keys _ (hasPrefix_scopedSequenceKey p s)

theorem Slice.Ignores.effectiveKey (h : slice.Ignores p) (s : SequenceId) :
    slice.keepKey (scopedSequenceKey (effectiveProject p) s) = false :=
  h.keys _ (scoped_sees p s)

theorem sees_of_mem {service : WindowService} {key : String}
    (h : key ∈ projectKeys (effectiveProject p) service) :
    hasPrefix (scopePrefix (effectiveProject p)) key = true :=
  (List.mem_filter.mp h).2

/-! ## What a project reads -/

theorem windowSize_slice (h : slice.Owns p) (service : WindowService) :
    windowSize p (slice.view service) = windowSize p service := by
  show Option.getD ((restrict _ _).find _) _ = _
  rw [find_restrict h.project]
  rfl

theorem watermark_slice (h : slice.Owns p) (service : WindowService) :
    (slice.view service).watermarks.find (effectiveProject p) =
      service.watermarks.find (effectiveProject p) :=
  find_restrict h.project _

theorem projectKeys_slice (h : slice.Owns p) (service : WindowService) :
    projectKeys (effectiveProject p) (slice.view service) =
      projectKeys (effectiveProject p) service := by
  show (service.sequenceWindows.keys.filter slice.keepKey).filter
    (hasPrefix (scopePrefix (effectiveProject p))) = _
  rw [List.filter_filter]
  refine List.filter_congr fun key _ => ?_
  cases hkey : hasPrefix (scopePrefix (effectiveProject p)) key with
  | true => rw [h.keys key hkey, Bool.true_and]
  | false => rw [Bool.false_and]

/-! ## Pruning -/

/-- Pruning inside the slice. -/
theorem prune_slice (start : Timestamp) {keys : List String}
    (h : ∀ key ∈ keys, slice.keepKey key = true)
    (windows : Table String SeqWindow.SequenceWindow) :
    pruneExpiredPoints start keys (restrict slice.keepKey windows) =
      (restrict slice.keepKey (pruneExpiredPoints start keys windows).1,
        (pruneExpiredPoints start keys windows).2) := by
  induction keys generalizing windows with
  | nil => rfl
  | cons key keys ih =>
      have hkey := h key (List.mem_cons_self ..)
      have hstep : pruneStep start key (restrict slice.keepKey windows) =
          restrict slice.keepKey (pruneStep start key windows) := (restrict_adjust hkey _ _).symm
      have hevicts : pruneEvicts start key (restrict slice.keepKey windows) =
          pruneEvicts start key windows := by
        rw [pruneEvicts, pruneEvicts, find_restrict hkey]
      rw [pruneExpiredPoints, pruneExpiredPoints, hstep, hevicts,
        ih fun k hk => h k (List.mem_cons_of_mem _ hk)]

/-- Pruning outside leaves the slice. -/
theorem prune_ignored (start : Timestamp) {keys : List String}
    (h : ∀ key ∈ keys, slice.keepKey key = false)
    (windows : Table String SeqWindow.SequenceWindow) :
    restrict slice.keepKey (pruneExpiredPoints start keys windows).1 =
      restrict slice.keepKey windows := by
  induction keys generalizing windows with
  | nil => rfl
  | cons key keys ih =>
      rw [pruneExpiredPoints]
      show restrict _ (pruneExpiredPoints start keys (pruneStep start key windows)).1 = _
      rw [ih fun k hk => h k (List.mem_cons_of_mem _ hk)]
      exact restrict_adjust_of_not (h key (List.mem_cons_self ..)) _ _

/-! ## Configuring -/

/-- Configuring inside the slice. -/
theorem configure_slice (h : slice.Owns p) (size : Int) (service : WindowService) :
    configureWindowSize p size (slice.view service) =
      (slice.view (configureWindowSize p size service).1,
        (configureWindowSize p size service).2) := by
  simp only [configureWindowSize]
  by_cases hsize : size ≤ 0
  · rw [if_pos hsize, if_pos hsize]
  · rw [if_neg hsize, if_neg hsize]
    -- the service that is pruned is a view of the configured one
    have hsized : ({ slice.view service with
        windowSizes := put (effectiveProject p) size (slice.view service).windowSizes } :
          WindowService) =
        slice.view { service with
          windowSizes := put (effectiveProject p) size service.windowSizes } := by
      simp only [Slice.view, restrict_put h.project]
    simp only [hsized, watermark_slice h, projectKeys_slice h]
    cases hw : service.watermarks.find (effectiveProject p) with
    | none => simp only [Slice.view, restrict_put h.project]
    | some watermark =>
        simp only [Slice.view, restrict_put h.project]
        rw [prune_slice _ fun key hkey => h.keys key (sees_of_mem hkey)]

/-- Configuring outside leaves the slice. -/
theorem configure_ignored (h : slice.Ignores p) (size : Int) (service : WindowService) :
    slice.view (configureWindowSize p size service).1 = slice.view service := by
  simp only [configureWindowSize]
  by_cases hsize : size ≤ 0
  · rw [if_pos hsize]
  · rw [if_neg hsize]
    cases hw : service.watermarks.find (effectiveProject p) with
    | none => simp only [Slice.view, restrict_put_of_not h.project]
    | some watermark =>
        simp only [Slice.view, restrict_put_of_not h.project]
        rw [prune_ignored _ fun key hkey => h.keys key (sees_of_mem hkey)]

/-! ## Updates -/

/-- Creating windows inside the slice. -/
theorem ensureAll_slice {ids : List SequenceId} {project : ProjectId}
    (h : ∀ s, slice.keepKey (scopedSequenceKey project s) = true)
    (windows : Table String SeqWindow.SequenceWindow) :
    ids.foldl (fun acc s => ensure (scopedSequenceKey project s) {} acc)
        (restrict slice.keepKey windows) =
      restrict slice.keepKey
        (ids.foldl (fun acc s => ensure (scopedSequenceKey project s) {} acc) windows) := by
  induction ids generalizing windows with
  | nil => rfl
  | cons s ids ih =>
      rw [List.foldl_cons, List.foldl_cons, ← restrict_ensure (h s), ih]

/-- Creating windows outside leaves the slice. -/
theorem ensureAll_ignored {ids : List SequenceId} {project : ProjectId}
    (h : ∀ s, slice.keepKey (scopedSequenceKey project s) = false)
    (windows : Table String SeqWindow.SequenceWindow) :
    restrict slice.keepKey
        (ids.foldl (fun acc s => ensure (scopedSequenceKey project s) {} acc) windows) =
      restrict slice.keepKey windows := by
  induction ids generalizing windows with
  | nil => rfl
  | cons s ids ih => rw [List.foldl_cons, ih, restrict_ensure_of_not (h s)]

/-- Overriding a size inside the slice. -/
theorem override_slice {project : ProjectId} (h : slice.keepProject project = true)
    (override : Option Int) (sizes : Table ProjectId Int) :
    applyOverride project override (restrict slice.keepProject sizes) =
      restrict slice.keepProject (applyOverride project override sizes) := by
  cases override with
  | none => rfl
  | some size => exact (restrict_put h size sizes).symm

/-- Overriding a size outside leaves the slice. -/
theorem override_ignored {project : ProjectId} (h : slice.keepProject project = false)
    (override : Option Int) (sizes : Table ProjectId Int) :
    restrict slice.keepProject (applyOverride project override sizes) =
      restrict slice.keepProject sizes := by
  cases override with
  | none => rfl
  | some size => exact restrict_put_of_not h size sizes

/-- The metadata section inside the slice. -/
theorem metadata_slice (h : slice.Owns p) (override : Option Int)
    (points : List RawTimeseriesPoint) (ids : List SequenceId) (service : WindowService) :
    metadataStep (effectiveProject p) override points ids (slice.view service) =
      (slice.view (metadataStep (effectiveProject p) override points ids service).1,
        (metadataStep (effectiveProject p) override points ids service).2) := by
  have hown := h.project
  have hservice : (metadataStep (effectiveProject p) override points ids
      (slice.view service)).1 =
        slice.view (metadataStep (effectiveProject p) override points ids service).1 := by
    simp only [metadataStep, Slice.view, find_restrict hown, override_slice hown,
      ensureAll_slice h.effectiveKey, restrict_put hown]
  refine Prod.ext hservice ?_
  have hkeys := projectKeys_slice h
    (metadataStep (effectiveProject p) override points ids service).1
  rw [← hservice] at hkeys
  simp only [metadataStep, UpdatePlan.mk.injEq] at hkeys ⊢
  refine ⟨?_, ?_, hkeys⟩
  · simp only [Slice.view, find_restrict hown]
  · simp only [Slice.view, find_restrict hown, override_slice hown]

/-- Merging inside the slice. -/
theorem sequenceSteps_slice (h : slice.Owns p) (updates : List SeqWindow.PreparedSequenceUpdate)
    (windows : Table String SeqWindow.SequenceWindow) (result : WindowUpdateResult) :
    runSequenceSteps (effectiveProject p) updates (restrict slice.keepKey windows, result) =
      (restrict slice.keepKey
          (runSequenceSteps (effectiveProject p) updates (windows, result)).1,
        (runSequenceSteps (effectiveProject p) updates (windows, result)).2) := by
  induction updates generalizing windows result with
  | nil => rfl
  | cons prepared updates ih =>
      have hown := h.effectiveKey prepared.sequenceId
      have hsafe : sequenceSafe (effectiveProject p) prepared (restrict slice.keepKey windows) =
          sequenceSafe (effectiveProject p) prepared windows := by
        rw [sequenceSafe, sequenceSafe, find_restrict hown]
      have hstep : sequenceStep (effectiveProject p) prepared (restrict slice.keepKey windows) =
          restrict slice.keepKey (sequenceStep (effectiveProject p) prepared windows) :=
        (restrict_adjust hown _ _).symm
      rw [runSequenceSteps, runSequenceSteps, hsafe, hstep, ih]

/-- Merging outside leaves the slice. -/
theorem sequenceSteps_ignored {project : ProjectId}
    (h : ∀ s, slice.keepKey (scopedSequenceKey project s) = false)
    (updates : List SeqWindow.PreparedSequenceUpdate)
    (windows : Table String SeqWindow.SequenceWindow) (result : WindowUpdateResult) :
    restrict slice.keepKey (runSequenceSteps project updates (windows, result)).1 =
      restrict slice.keepKey windows := by
  induction updates generalizing windows result with
  | nil => rfl
  | cons prepared updates ih =>
      rw [runSequenceSteps, ih]
      exact restrict_adjust_of_not (h prepared.sequenceId) _ _

/-- **An update of an owned project reads and writes the kept part.** -/
theorem update_slice (h : slice.Owns p) (data : TimeseriesBatch) (override : Option Int)
    (service : WindowService) :
    updateWindowIncremental p data override (slice.view service) =
      (slice.view (updateWindowIncremental p data override service).1,
        (updateWindowIncremental p data override service).2) := by
  simp only [updateWindowIncremental]
  rcases readBatch p data override with ⟨result, _ | error⟩
  · have hmeta := metadata_slice h override data.points result.changedSequenceIds service
    simp only [hmeta]
    simp only [Slice.view, sequenceSteps_slice h]
    have hkeys : ∀ key ∈ (metadataStep (effectiveProject p) override data.points
        result.changedSequenceIds service).2.sequences, slice.keepKey key = true :=
      fun key hkey => h.keys key (sees_of_mem hkey)
    simp only [prune_slice _ hkeys]
  · rfl

/-- **An update of an ignored project leaves the kept part alone.** -/
theorem update_ignored (h : slice.Ignores p) (data : TimeseriesBatch) (override : Option Int)
    (service : WindowService) :
    slice.view (updateWindowIncremental p data override service).1 = slice.view service := by
  have hproject := h.project
  have hown := h.effectiveKey
  simp only [updateWindowIncremental]
  rcases readBatch p data override with ⟨result, _ | error⟩
  · have hkeys : ∀ key ∈ (metadataStep (effectiveProject p) override data.points
        result.changedSequenceIds service).2.sequences, slice.keepKey key = false :=
      fun key hkey => h.keys key (sees_of_mem hkey)
    simp only [Slice.view, prune_ignored _ hkeys, sequenceSteps_ignored hown]
    simp only [metadataStep, ensureAll_ignored hown, restrict_put_of_not hproject,
      override_ignored hproject]
  · rfl

/-! ## Queries -/

/-- Sequences are found in the slice. -/
theorem findSequences_slice (h : slice.Owns p) (message : String) (service : WindowService)
    (ids : List SequenceId) :
    findSequences (effectiveProject p) message (slice.view service) ids =
      findSequences (effectiveProject p) message service ids := by
  induction ids with
  | nil => rfl
  | cons s ids ih =>
      rw [findSequences, findSequences, ih]
      have hfind : (slice.view service).sequenceWindows.find
          (scopedSequenceKey (effectiveProject p) s) =
            service.sequenceWindows.find (scopedSequenceKey (effectiveProject p) s) :=
        find_restrict (h.effectiveKey s) _
      rw [hfind]

theorem query_slice (h : slice.Owns p) (capacity : Nat) (query : WindowQuery)
    (service : WindowService) :
    queryWindowData capacity p query (slice.view service) =
      queryWindowData capacity p query service := by
  simp only [queryWindowData, findSequences_slice h, watermark_slice h, windowSize_slice h]

/-- The loop for statistics, inside. -/
theorem statisticsLoop_slice (h : slice.Owns p) (ids : List SequenceId)
    (windows : Table String SeqWindow.SequenceWindow)
    (statistics : Table SequenceId SequenceWindowStatistics) (count : Nat) :
    statisticsLoop (effectiveProject p) ids (restrict slice.keepKey windows) statistics count =
      (restrict slice.keepKey
          (statisticsLoop (effectiveProject p) ids windows statistics count).1,
        (statisticsLoop (effectiveProject p) ids windows statistics count).2) := by
  induction ids generalizing windows statistics count with
  | nil => rfl
  | cons s ids ih =>
      have hown := h.effectiveKey s
      rw [statisticsLoop, statisticsLoop]
      simp only [find_restrict hown]
      cases hfind : windows.find (scopedSequenceKey (effectiveProject p) s) with
      | none => exact ih windows statistics count
      | some w =>
          simp only [← restrict_adjust hown, ih]
          -- every way out of the turn returns the table it has written
          generalize (if w.statisticsValid = true then w else SeqWindow.rebuildStatistics w) = w'
          by_cases hnumeric : w'.statisticsNonNumericCount ≠ 0
          · rw [if_pos hnumeric, if_pos hnumeric]
          · rw [if_neg hnumeric, if_neg hnumeric]
            by_cases hempty : w'.statisticsCount = 0
            · rw [if_pos hempty, if_pos hempty]
            · rw [if_neg hempty, if_neg hempty]
              rcases w'.statisticsMinimum with _ | ⟨minimum, minima⟩
              · rfl
              · rcases w'.statisticsMaximum with _ | ⟨maximum, maxima⟩
                · rfl
                · rfl

/-- The loop for statistics, outside. -/
theorem statisticsLoop_ignored (h : slice.Ignores p) (ids : List SequenceId)
    (windows : Table String SeqWindow.SequenceWindow)
    (statistics : Table SequenceId SequenceWindowStatistics) (count : Nat) :
    restrict slice.keepKey
        (statisticsLoop (effectiveProject p) ids windows statistics count).1 =
      restrict slice.keepKey windows := by
  induction ids generalizing windows statistics count with
  | nil => rfl
  | cons s ids ih =>
      rw [statisticsLoop]
      cases hfind : windows.find (scopedSequenceKey (effectiveProject p) s) with
      | none => exact ih windows statistics count
      | some w =>
          have hwrite := fun w' : SeqWindow.SequenceWindow =>
            restrict_adjust_of_not (h.effectiveKey s) (fun _ => w') windows
          simp only
          generalize (if w.statisticsValid = true then w else SeqWindow.rebuildStatistics w) = w'
          by_cases hnumeric : w'.statisticsNonNumericCount ≠ 0
          · rw [if_pos hnumeric]
            exact hwrite w'
          · rw [if_neg hnumeric]
            by_cases hempty : w'.statisticsCount = 0
            · rw [if_pos hempty, ih]
              exact hwrite w'
            · rw [if_neg hempty]
              rcases w'.statisticsMinimum with _ | ⟨minimum, minima⟩
              · exact hwrite w'
              · rcases w'.statisticsMaximum with _ | ⟨maximum, maxima⟩
                · exact hwrite w'
                · exact (ih _ _ _).trans (hwrite w')

/-- A query for statistics, inside. -/
theorem statistics_slice (h : slice.Owns p) (ids : List SequenceId) (service : WindowService) :
    queryWindowStatistics p ids (slice.view service) =
      (slice.view (queryWindowStatistics p ids service).1,
        (queryWindowStatistics p ids service).2) := by
  simp only [queryWindowStatistics, findSequences_slice h, watermark_slice h, windowSize_slice h]
  by_cases hids : ids.isEmpty = true
  · rw [if_pos hids, if_pos hids]
  rw [if_neg hids, if_neg hids]
  cases findSequences (effectiveProject p)
      "window statistics sequence_id must not be empty" service ids with
  | error message => rfl
  | ok sequences =>
      simp only
      cases service.watermarks.find (effectiveProject p) with
      | none => rfl
      | some watermark =>
          simp only
          by_cases hsize : windowSize p service ≤ 0
          · rw [if_pos hsize, if_pos hsize]
          · rw [if_neg hsize, if_neg hsize]
            simp only [Slice.view, statisticsLoop_slice h]

/-- A query for statistics, outside. -/
theorem statistics_ignored (h : slice.Ignores p) (ids : List SequenceId)
    (service : WindowService) :
    slice.view (queryWindowStatistics p ids service).1 = slice.view service := by
  rcases queryWindowStatistics_service p ids service with hsame | hread
  · rw [hsame]
  · rw [hread]
    simp only [Slice.view, statisticsLoop_ignored h]

/-! ## Derived writes -/

/-- Writing a sequence inside the slice. -/
theorem writeSequence_slice (h : slice.Owns p) (s : SequenceId)
    (write : SeqWindow.SequenceWindow → SeqWindow.SequenceWindow)
    (windows : Table String SeqWindow.SequenceWindow) :
    writeSequence p s write (restrict slice.keepKey windows) =
      restrict slice.keepKey (writeSequence p s write windows) := by
  have hown := h.key s
  simp only [writeSequence]
  rw [restrict_adjust hown, restrict_ensure hown]

/-- Writing a sequence outside leaves the slice. -/
theorem writeSequence_ignored (h : slice.Ignores p) (s : SequenceId)
    (write : SeqWindow.SequenceWindow → SeqWindow.SequenceWindow)
    (windows : Table String SeqWindow.SequenceWindow) :
    restrict slice.keepKey (writeSequence p s write windows) =
      restrict slice.keepKey windows := by
  have hown := h.key s
  simp only [writeSequence]
  rw [restrict_adjust_of_not hown, restrict_ensure_of_not hown]

/-- Replacing inside the slice. -/
theorem replace_slice (h : slice.Owns p) (s : SequenceId) (data : TimeseriesBatch)
    (service : WindowService) :
    replaceDerivedSequence p s data (slice.view service) =
      (slice.view (replaceDerivedSequence p s data service).1,
        (replaceDerivedSequence p s data service).2) := by
  simp only [replaceDerivedSequence]
  cases validateReplace p s data with
  | some error => rfl
  | none =>
      simp only [watermark_slice h]
      cases hw : service.watermarks.find (effectiveProject p) with
      | none => simp only [Slice.view, writeSequence_slice h]
      | some watermark =>
          -- the service that is pruned is a view of the written one
          have hwritten : ({ slice.view service with
              sequenceWindows := writeSequence p s
                (fun w => SeqWindow.replaceSequence w data)
                (slice.view service).sequenceWindows } : WindowService) =
              slice.view { service with
                sequenceWindows := writeSequence p s
                  (fun w => SeqWindow.replaceSequence w data) service.sequenceWindows } := by
            simp only [Slice.view, writeSequence_slice h]
          simp only [hwritten, projectKeys_slice h, windowSize_slice h]
          simp only [Slice.view, writeSequence_slice h]
          rw [prune_slice _ fun key hkey => h.keys key (sees_of_mem hkey)]

/-- Replacing outside leaves the slice. -/
theorem replace_ignored (h : slice.Ignores p) (s : SequenceId) (data : TimeseriesBatch)
    (service : WindowService) :
    slice.view (replaceDerivedSequence p s data service).1 = slice.view service := by
  simp only [replaceDerivedSequence]
  cases validateReplace p s data with
  | some error => rfl
  | none =>
      cases hw : service.watermarks.find (effectiveProject p) with
      | none => simp only [Slice.view, writeSequence_ignored h]
      | some watermark =>
          simp only [Slice.view]
          rw [prune_ignored _ fun key hkey => h.keys key (sees_of_mem hkey),
            writeSequence_ignored h]

/-- Patching inside the slice. -/
theorem patch_slice (h : slice.Owns p) (s : SequenceId) (startTime endTime : Timestamp)
    (data : TimeseriesBatch) (service : WindowService) :
    patchDerivedSequence p s startTime endTime data (slice.view service) =
      (slice.view (patchDerivedSequence p s startTime endTime data service).1,
        (patchDerivedSequence p s startTime endTime data service).2) := by
  simp only [patchDerivedSequence]
  cases validatePatch p s startTime endTime data with
  | some error => rfl
  | none => simp only [Slice.view, writeSequence_slice h]

/-- Patching outside leaves the slice. -/
theorem patch_ignored (h : slice.Ignores p) (s : SequenceId) (startTime endTime : Timestamp)
    (data : TimeseriesBatch) (service : WindowService) :
    slice.view (patchDerivedSequence p s startTime endTime data service).1 =
      slice.view service := by
  simp only [patchDerivedSequence]
  cases validatePatch p s startTime endTime data with
  | some error => rfl
  | none => simp only [Slice.view, writeSequence_ignored h]

/-! ## All operations -/

/-- Every operation inside the slice. -/
theorem serviceStep_slice (h : slice.Owns p) (op : WindowOp) (service : WindowService) :
    serviceStep p (slice.view service) op = slice.view (serviceStep p service op) := by
  cases op with
  | configure size => exact congrArg Prod.fst (configure_slice h size service)
  | update data override => exact congrArg Prod.fst (update_slice h data override service)
  | replace s data => exact congrArg Prod.fst (replace_slice h s data service)
  | patch s startTime endTime data =>
      exact congrArg Prod.fst (patch_slice h s startTime endTime data service)
  | query query => rfl
  | statistics ids => exact congrArg Prod.fst (statistics_slice h ids service)

/-- Every operation outside leaves the slice. -/
theorem serviceStep_ignored (h : slice.Ignores p) (op : WindowOp) (service : WindowService) :
    slice.view (serviceStep p service op) = slice.view service := by
  cases op with
  | configure size => exact configure_ignored h size service
  | update data override => exact update_ignored h data override service
  | replace s data => exact replace_ignored h s data service
  | patch s startTime endTime data => exact patch_ignored h s startTime endTime data service
  | query query => rfl
  | statistics ids => exact statistics_ignored h ids service

end ServiceSlice
