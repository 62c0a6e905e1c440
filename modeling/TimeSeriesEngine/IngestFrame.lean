import TimeSeriesEngine.HotIngest
import TimeSeriesEngine.WindowRefinement

/-!
# What the later stages of an ingest leave alone

After the window update, a batch only writes derived sequences and rebuilds
cached statistics.  `WritesOnly` says so for one step and composes; the result
is that every other sequence of the project keeps the points the update left.

* `publishItem_writes`, `refresh_writes` — the derived refresh;
* `runAggregates_writes` — the statistics queries;
* `constraintPart_window` — the whole part behind the update.
-/

namespace IngestFrame

open TseTypes KeyedTable OrderedSeries SeqWindow SeqContent HotWindow WindowContent WindowUpdate
open WindowRefinement UpdateRange Registry DerivedSeries HotIngest

/-- Nothing under the key is older than the window start. -/
def PrunedAt (p : ProjectId) (key : String) (service : WindowService) : Prop :=
  hasPrefix (scopePrefix (effectiveProject p)) key = true →
    ∀ watermark, service.watermarks.find (effectiveProject p) = some watermark →
      ∀ q ∈ contentOf key service.sequenceWindows,
        windowStart watermark (windowSize p service) ≤ q.time

/-- Only the listed sequences are written; the rest is kept, apart from points
    that were due for eviction. -/
structure WritesOnly (p : ProjectId) (ids : List SequenceId) (before after : WindowService) :
    Prop where
  valid : AllValid before.sequenceWindows → AllValid after.sequenceWindows
  watermarks : after.watermarks = before.watermarks
  windowSizes : after.windowSizes = before.windowSizes
  updateGenerations : after.updateGenerations = before.updateGenerations
  kept : AllValid before.sequenceWindows → ∀ key, (∀ s ∈ ids, key ≠ scopedSequenceKey p s) →
    PrunedAt p key before →
      contentOf key after.sequenceWindows = contentOf key before.sequenceWindows

theorem WritesOnly.refl (p : ProjectId) (ids : List SequenceId) (service : WindowService) :
    WritesOnly p ids service service :=
  ⟨id, rfl, rfl, rfl, fun _ _ _ _ => rfl⟩

theorem WritesOnly.mono {p : ProjectId} {ids ids' : List SequenceId}
    {before after : WindowService} (h : WritesOnly p ids before after)
    (hsub : ∀ s ∈ ids, s ∈ ids') : WritesOnly p ids' before after :=
  ⟨h.valid, h.watermarks, h.windowSizes, h.updateGenerations,
    fun hv key hkey => h.kept hv key fun s hs => hkey s (hsub s hs)⟩

theorem WritesOnly.windowSize {p : ProjectId} {ids : List SequenceId}
    {before after : WindowService} (h : WritesOnly p ids before after) (p' : ProjectId) :
    windowSize p' after = windowSize p' before := by
  rw [HotWindow.windowSize, HotWindow.windowSize, h.windowSizes]

theorem WritesOnly.trans {p : ProjectId} {ids : List SequenceId} {a b c : WindowService}
    (h : WritesOnly p ids a b) (h' : WritesOnly p ids b c) : WritesOnly p ids a c := by
  refine ⟨fun hv => h'.valid (h.valid hv), h'.watermarks.trans h.watermarks,
    h'.windowSizes.trans h.windowSizes, h'.updateGenerations.trans h.updateGenerations,
    fun hv key hkey hpruned => ?_⟩
  have hab := h.kept hv key hkey hpruned
  have hpruned' : PrunedAt p key b := by
    intro hpre watermark hw q hq
    rw [h.watermarks] at hw
    rw [hab] at hq
    rw [h.windowSize]
    exact hpruned hpre watermark hw q hq
  rw [h'.kept (h.valid hv) key hkey hpruned', hab]

/-! ## Derived writes -/

/-- A write touches its own sequence. -/
theorem writeSequence_writes {p : ProjectId} {s : SequenceId} (service : WindowService)
    {f : SequenceWindow → SequenceWindow} (hf : ∀ w, Valid w → Valid (f w)) :
    WritesOnly p [s] service
      { service with sequenceWindows := writeSequence p s f service.sequenceWindows } := by
  refine ⟨fun hv => writeSequence_allValid hv p s f fun w hw _ => hf w hw, rfl, rfl, rfl,
    fun hv key hkey _ => ?_⟩
  have hne := hkey s (List.mem_singleton_self s)
  show contentOf key (adjust _ f (ensure _ {} _)) = _
  rw [adjust_contentOf_of_ne hne, ensure_contentOf]

/-- Pruning a project writes no content. -/
theorem pruneProject_writes (p : ProjectId) (ids : List SequenceId) (service : WindowService)
    {watermark : Timestamp} (hw : service.watermarks.find (effectiveProject p) = some watermark) :
    WritesOnly p ids service
      { service with
        sequenceWindows := (pruneExpiredPoints (windowStart watermark (windowSize p service))
          (projectKeys (effectiveProject p) service) service.sequenceWindows).1 } := by
  refine ⟨fun hv => pruneExpiredPoints_allValid hv _ _, rfl, rfl, rfl,
    fun hv key _ hpruned => ?_⟩
  show contentOf key (pruneExpiredPoints _ _ _).1 = _
  rw [pruneExpiredPoints_contentOf hv]
  split
  · rename_i hk
    have hpre := (List.mem_filter.mp hk).2
    refine List.filter_eq_self.mpr fun q hq => ?_
    exact decide_eq_true (hpruned hpre watermark hw q hq)
  · rfl

/-- Replacing a derived sequence writes it alone. -/
theorem replaceDerived_writes (p : ProjectId) (s : SequenceId) (data : TimeseriesBatch)
    (service : WindowService) :
    WritesOnly p [s] service (replaceDerivedSequence p s data service).1 := by
  unfold replaceDerivedSequence
  split
  · exact WritesOnly.refl p [s] service
  · have hwrite := writeSequence_writes (p := p) (s := s) service
      (f := fun w => replaceSequence w data) fun w _ => replaceSequence_valid w data
    simp only
    split
    · exact hwrite
    · rename_i watermark hw
      exact hwrite.trans (pruneProject_writes p [s] _ hw)

/-- Patching a derived sequence writes it alone. -/
theorem patchDerived_writes (p : ProjectId) (s : SequenceId) (startTime endTime : Timestamp)
    (data : TimeseriesBatch) (service : WindowService) :
    WritesOnly p [s] service (patchDerivedSequence p s startTime endTime data service).1 := by
  unfold patchDerivedSequence
  split
  · exact WritesOnly.refl p [s] service
  · rename_i hval
    have hse : startTime ≤ endTime := by
      unfold validatePatch at hval
      split at hval
      · exact nomatch hval
      · split at hval
        · exact nomatch hval
        · rename_i hle
          exact not_lt.mp hle
    exact writeSequence_writes service fun w hw => patchSequence_valid hw hse data

/-- Publishing an item writes its sequence. -/
theorem publishItem_writes (p : ProjectId) (update : Option WindowUpdateResult)
    (item : DerivedRefreshItem) (state : DerivedState) :
    WritesOnly p [item.sequenceId] state.window (publishItem p update item state).1.window := by
  unfold publishItem
  split
  · exact replaceDerived_writes p item.sequenceId {} state.window
  · split
    · split
      · exact WritesOnly.refl _ _ _
      · exact patchDerived_writes ..
    · exact patchDerived_writes ..
    · exact replaceDerived_writes ..

theorem publishTurn_writes (p : ProjectId) (update : Option WindowUpdateResult)
    (item : DerivedRefreshItem) (turn : DerivedState × RefreshTally) :
    WritesOnly p [item.sequenceId] turn.1.window (publishTurn p update item turn).1.window := by
  obtain ⟨state, tally⟩ := turn
  unfold publishTurn
  simp only
  split
  · exact WritesOnly.refl _ _ _
  split
  · exact WritesOnly.refl _ _ _
  by_cases hempty : item.sequenceId.isEmpty = true
  · simp only [if_pos hempty]
    exact WritesOnly.refl _ _ _
  · simp only [if_neg hempty]
    exact publishItem_writes p update item state

/-- Publishing all items writes their sequences. -/
theorem publishAll_writes (p : ProjectId) (update : Option WindowUpdateResult)
    {ids : List SequenceId} {items : List DerivedRefreshItem}
    (h : ∀ item ∈ items, item.sequenceId ∈ ids) (state : DerivedState) :
    WritesOnly p ids state.window (publishAll p update items state).1.window := by
  unfold publishAll
  generalize hstart : ((state, {}) : DerivedState × RefreshTally) = turn
  have hwin : state.window = turn.1.window := by rw [← hstart]
  rw [hwin]
  clear hstart hwin
  induction items generalizing turn with
  | nil => exact WritesOnly.refl _ _ _
  | cons item items ih =>
      have hone : WritesOnly p ids turn.1.window (publishTurn p update item turn).1.window :=
        (publishTurn_writes p update item turn).mono fun s hs => by
          rw [List.mem_singleton.mp hs]
          exact h item (List.mem_cons_self ..)
      exact hone.trans (ih (fun i hi => h i (List.mem_cons_of_mem _ hi)) _)

/-- An item belongs to its series. -/
theorem computeOne_sequenceId (p : ProjectId) (registry : RuntimeConfigRegistry)
    (update : Option WindowUpdateResult) (incrementalWindow fullWindow : Option WindowQueryResult)
    (config : RuntimeDerivedSeriesConfig) :
    (computeOne p registry update incrementalWindow fullWindow config).sequenceId =
      config.derivedSequenceId := by
  unfold computeOne
  split
  · split <;> rfl
  split
  · rfl
  simp only
  split
  · rfl
  split
  · rfl
  · rfl

/-- The ids a refresh may write. -/
def derivedIds (p : ProjectId) (registry : RuntimeConfigRegistry) : List SequenceId :=
  (allDerivedSeries p registry).map RuntimeDerivedSeriesConfig.derivedSequenceId

/-- A refresh writes derived sequences only. -/
theorem refresh_writes {capacity : Nat} {p : ProjectId} {registry : RuntimeConfigRegistry}
    {update : Option WindowUpdateResult} {state after : DerivedState} {result : OperationResult}
    (h : refreshInternal capacity p registry update state = .ok (after, result)) :
    WritesOnly p (derivedIds p registry) state.window after.window := by
  have hpublish : ∀ items, computeItems capacity p registry update state.window = .ok items →
      WritesOnly p (derivedIds p registry) state.window
        (publishAll p update items state).1.window := by
    intro items hitems
    refine publishAll_writes p update (fun item hitem => ?_) state
    unfold computeItems at hitems
    simp only at hitems
    split at hitems
    · exact nomatch hitems
    split at hitems
    · exact nomatch hitems
    · rw [← Except.ok.inj hitems] at hitem
      obtain ⟨config, hconfig, rfl⟩ := List.mem_map.mp hitem
      rw [computeOne_sequenceId]
      exact List.mem_map_of_mem hconfig
  unfold refreshInternal at h
  cases update with
  | none =>
      simp only at h
      cases hitems : computeItems capacity p registry none state.window with
      | error error =>
          rw [hitems] at h
          exact nomatch h
      | ok items =>
          rw [hitems] at h
          obtain ⟨rfl, -⟩ := Prod.mk.inj (Except.ok.inj h)
          exact hpublish items hitems
  | some update =>
      simp only at h
      split at h
      · obtain ⟨rfl, -⟩ := Prod.mk.inj (Except.ok.inj h)
        exact WritesOnly.refl _ _ _
      · cases hitems : computeItems capacity p registry (some update) state.window with
        | error error =>
            rw [hitems] at h
            exact nomatch h
        | ok items =>
            rw [hitems] at h
            obtain ⟨rfl, -⟩ := Prod.mk.inj (Except.ok.inj h)
            exact hpublish items hitems

theorem derivedStage_writes {capacity : Nat} {p : ProjectId} {registry : RuntimeConfigRegistry}
    {update : WindowUpdateResult} {state after : DerivedState} {result : OperationResult}
    (h : derivedStage capacity p registry update state = .ok (after, result)) :
    WritesOnly p (derivedIds p registry) state.window after.window := by
  unfold derivedStage at h
  split at h
  · obtain ⟨rfl, -⟩ := Prod.mk.inj (Except.ok.inj h)
    exact WritesOnly.refl _ _ _
  · exact refresh_writes h

/-! ## Statistics queries -/

/-- A query for statistics writes no content. -/
theorem queryStatistics_writes (p : ProjectId) (ids asked : List SequenceId)
    (service : WindowService) :
    WritesOnly p ids service (queryWindowStatistics p asked service).1 := by
  rcases queryWindowStatistics_service p asked service with hsame | hread
  · rw [hsame]
    exact WritesOnly.refl _ _ _
  · rw [hread]
    refine ⟨fun hv => ?_, rfl, rfl, rfl, fun hv key _ _ => ?_⟩
    · exact (statisticsLoop_spec (effectiveProject p) asked hv KeyedTable.empty 0).1
    · exact (statisticsLoop_spec (effectiveProject p) asked hv KeyedTable.empty 0).2 key

/-- The aggregate rules write no content. -/
theorem runAggregates_writes (p : ProjectId) (ids : List SequenceId)
    (rules aggregate : List ConstraintCheck.ConstraintRule) (service : WindowService) :
    WritesOnly p ids service (runAggregates p rules aggregate service).1 := by
  induction aggregate generalizing service with
  | nil => exact WritesOnly.refl _ _ _
  | cons rule rest ih =>
      exact (queryStatistics_writes p ids (sequenceIdsFor rules rule) service).trans (ih _)

/-- The constraint stage touches the window in its aggregate rules only. -/
theorem constraintStage_window (capacity : Nat) (p : ProjectId) (registry : RuntimeConfigRegistry)
    (plan : CheckPlan) (update : WindowUpdateResult) (service : WindowService)
    (states : Table String CachedConstraintState) :
    (constraintStage capacity p registry plan update service states).window =
      (runAggregates p plan.enabledRules plan.aggregateRules service).1 := by
  unfold constraintStage
  simp only
  split
  · rfl
  · split <;> rfl

/-- The constraint part of a batch writes no content. -/
theorem constraintPart_writes (capacity : Nat) (p : ProjectId) (ids : List SequenceId)
    (update : WindowUpdateResult) (derivedResult : OperationResult) (core : CoreService) :
    WritesOnly p ids core.window
      (constraintPart capacity p update derivedResult core).1.window := by
  unfold constraintPart
  simp only
  split
  · exact WritesOnly.refl _ _ _
  split
  · exact WritesOnly.refl _ _ _
  · show WritesOnly p ids core.window (constraintStage ..).window
    rw [constraintStage_window]
    exact runAggregates_writes ..

end IngestFrame
