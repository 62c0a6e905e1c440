import TimeSeriesEngine.Library.Transition
import TimeSeriesEngine.DerivedPatch

/-!
# Incremental against full derived refresh

A run of batches of one project, each an update followed by the refresh it
triggers.

* `SafeFor`, `Resolved` — the runs in question: every update only appended to the
  sources, with points as the ingest service resolves them;
* `Covered` — at each refresh the predecessors and the live window are enough;
* `RefreshInv` — each derived sequence is what the retained points of its sources
  derive;
* `computeItems_spec` — the items of a covered refresh: patches, all from one query.
-/

namespace DerivedRefresh

open TseTypes KeyedTable OrderedSeries HotWindow WindowContent WindowUpdate Registry UpdateRange
open DerivedSeries FormulaValue IngestFrame DerivedPublish DerivedPatch Transition

/-! ## Runs -/

/-- One batch: the update, and the refresh with its report. -/
def refreshStep (capacity : Nat) (registry : RuntimeConfigRegistry) (p : ProjectId)
    (state : DerivedState) (batch : TimeseriesBatch × Option Int) : DerivedState :=
  let (window, update) := updateWindowIncremental p batch.1 batch.2 state.window
  refreshed capacity registry p update { state with window := window }

/-- The points the ingest service passes on: of registered sequences, with values of
    their type. -/
def Resolved (p : ProjectId) (registry : RuntimeConfigRegistry) (data : TimeseriesBatch) : Prop :=
  ∀ q ∈ data.points, ∃ config, findInstance p q.sequenceId registry = some config ∧
    (continuousNumeric config = true → (numericValue q.value).isSome = true)

/-- The times of a batch are 64-bit times. -/
def TimesInRange (data : TimeseriesBatch) : Prop :=
  ∀ q ∈ data.points, int64Min ≤ q.time ∧ q.time ≤ int64Max

/-- Every source of an enabled formula that the update changed was only appended to. -/
def SafeSources (p : ProjectId) (registry : RuntimeConfigRegistry) (update : WindowUpdateResult) :
    Prop :=
  ∀ config ∈ allDerivedSeries p registry, config.enabled = true →
    ∀ s ∈ sourcesFor config, s ∈ update.changedSequenceIds →
      (sequenceUpdateOf s update).incrementalSafe = true

/-- The update is safe for all sources. -/
def SafeFor (p : ProjectId) (registry : RuntimeConfigRegistry) (state : DerivedState)
    (batch : TimeseriesBatch × Option Int) : Prop :=
  Accepted p batch.1 batch.2 →
    SafeSources p registry (updateWindowIncremental p batch.1 batch.2 state.window).2

section Reach

variable (p : ProjectId) (data : TimeseriesBatch) (override : Option Int) (service : WindowService)

/-- The batch evicts points of the sequence. -/
def Evicts (s : SequenceId) : Prop :=
  ∃ q ∈ grown p s data service, q.time < startAfter p data override service

/-- The batch brings or evicts points of a source of the formula. -/
def Touched (config : RuntimeDerivedSeriesConfig) : Prop :=
  config.enabled = true ∧ ∃ s ∈ sourcesFor config,
    (∃ q ∈ data.points, q.sequenceId = s) ∨ Evicts p data override service s

/-- In front of everything the batch changes in the sources of the formula. -/
def InFront (config : RuntimeDerivedSeriesConfig) (t : Timestamp) : Prop :=
  ∀ s ∈ sourcesFor config,
    (∀ q ∈ incomingFor s data.points, t < q.time) ∧ ¬ Evicts p data override service s

/-- In front of everything the batch changes for any formula. -/
def InFrontOfAll (registry : RuntimeConfigRegistry) (t : Timestamp) : Prop :=
  ∀ config ∈ allDerivedSeries p registry, Touched p data override service config →
    InFront p data override service config t

/-- The points of a source behind the update. -/
def pointsAfter (s : SequenceId) : List RawTimeseriesPoint :=
  retained p s (updateWindowIncremental p data override service).1

/-- **The predecessors are enough.**  Where a touched formula has a value in front of
    everything the batch changes, at or behind the last point one source has in front of
    the changes to the formula, no source has a later point in front of everything. -/
def PredecessorsSuffice (registry : RuntimeConfigRegistry) : Prop :=
  ∀ config ∈ allDerivedSeries p registry, Touched p data override service config → ∀ t v,
    Derives config (pointsAfter p data override service) t v →
      InFrontOfAll p data override service registry t →
        (∃ s ∈ sourcesFor config, ∀ q ∈ pointsAfter p data override service s,
          InFront p data override service config q.time → q.time ≤ t) →
        ∀ s ∈ sourcesFor config, ∀ q ∈ pointsAfter p data override service s,
          InFrontOfAll p data override service registry q.time → q.time ≤ t

end Reach

/-- At the refresh behind an accepted batch, the predecessors are enough for every formula
    it patches and the live window for every enabled one. -/
structure Suffices (p : ProjectId) (registry : RuntimeConfigRegistry) (service : WindowService)
    (data : TimeseriesBatch) (override : Option Int) : Prop where
  patch : PredecessorsSuffice p data override service registry
  live : ∀ config ∈ allDerivedSeries p registry, config.enabled = true →
    LiveSuffices config (pointsAfter p data override service)
      (liveStart (watermarkAfter p data service) (windowSizeAfter p override service))
      (liveEnd (watermarkAfter p data service))

/-- The condition on one step of a run. -/
def Covered (p : ProjectId) (registry : RuntimeConfigRegistry) (state : DerivedState)
    (batch : TimeseriesBatch × Option Int) : Prop :=
  Accepted p batch.1 batch.2 → Suffices p registry state.window batch.1 batch.2

/-! ## The invariant -/

/-- **What every batch keeps.** -/
structure RefreshInv (p : ProjectId) (registry : RuntimeConfigRegistry) (state : DerivedState) :
    Prop where
  valid : AllValid state.window.sequenceWindows
  size : 0 < windowSize p state.window
  inRange : ∀ watermark, state.window.watermarks.find (effectiveProject p) = some watermark →
    int64Min ≤ watermark
  counter : state.lastPublishedGeneration ≤
    (state.window.updateGenerations.find (effectiveProject p)).getD 0
  pruned : ∀ s, numericSourceConfig p registry s = true →
    PrunedAt p (scopedSequenceKey p s) state.window
  numeric : ∀ s, numericSourceConfig p registry s = true → AllNumeric (retained p s state.window)
  derived : ∀ config ∈ allDerivedSeries p registry, config.enabled = true →
    DerivedFrom p config (fun s => retained p s state.window)
      (retained p config.derivedSequenceId state.window)
  live : ∀ config ∈ allDerivedSeries p registry, config.enabled = true → ∀ watermark,
    state.window.watermarks.find (effectiveProject p) = some watermark →
      LiveSuffices config (fun s => retained p s state.window)
        (liveStart watermark (windowSize p state.window)) (liveEnd watermark)

section Update

variable {p : ProjectId} {registry : RuntimeConfigRegistry} {data : TimeseriesBatch}
  {override : Option Int} {service : WindowService}

/-- The points of a sequence no point of the batch belongs to. -/
theorem retained_unread (hacc : Accepted p data override)
    (hv : AllValid service.sequenceWindows) {s : SequenceId} (hs : incomingFor s data.points = []) :
    retained p s (updateWindowIncremental p data override service).1 =
      (retained p s service).filter
        fun q => decide (startAfter p data override service ≤ q.time) := by
  rw [update_retained hacc hv, grown, hs]
  rfl

/-- A sequence that is no instance is not in a resolved batch. -/
theorem Resolved.unread (h : Resolved p registry data) {s : SequenceId}
    (hs : findInstance p s registry = none) : incomingFor s data.points = [] := by
  refine List.eq_nil_iff_forall_not_mem.mpr fun q hq => ?_
  obtain ⟨hq1, rfl⟩ := mem_incomingFor.mp hq
  obtain ⟨config, hconfig, -⟩ := h q hq1
  rw [hs] at hconfig
  cases hconfig

/-- A batch that has been resolved brings numbers for a numeric source. -/
theorem Resolved.numeric (h : Resolved p registry data) {s : SequenceId}
    (hs : numericSourceConfig p registry s = true) : AllNumeric (incomingFor s data.points) := by
  intro q hq
  obtain ⟨hq1, rfl⟩ := mem_incomingFor.mp hq
  obtain ⟨config, hconfig, hvalue⟩ := h q hq1
  refine hvalue ?_
  rw [numericSourceConfig, hconfig] at hs
  exact hs

/-- The retained points of a source after an update. -/
theorem numeric_after (hacc : Accepted p data override) (hv : AllValid service.sequenceWindows)
    (hres : Resolved p registry data) {s : SequenceId}
    (hs : numericSourceConfig p registry s = true) (hold : AllNumeric (retained p s service)) :
    AllNumeric (retained p s (updateWindowIncremental p data override service).1) := by
  intro q hq
  rw [update_retained hacc hv] at hq
  have hgrown := (mem_assignAll _ (ascending_retained hv p s) _ q).mp (List.mem_filter.mp hq).1
  rcases hgrown with hnew | ⟨-, hin⟩
  · exact hres.numeric hs q (lastAt_some _ hnew).1
  · exact hold q hin

/-- After an update each sequence is cut to the window. -/
theorem pruned_after (hacc : Accepted p data override) (hv : AllValid service.sequenceWindows)
    (s : SequenceId) : PrunedAt p (scopedSequenceKey p s)
      (updateWindowIncremental p data override service).1 := by
  intro _ watermark hw q hq
  rw [update_watermarks hacc, find_put_self] at hw
  have hq' : q ∈ retained p s (updateWindowIncremental p data override service).1 := hq
  rw [update_retained hacc hv] at hq'
  rw [update_windowSize hacc, ← Option.some.inj hw]
  exact of_decide_eq_true (List.mem_filter.mp hq').2

/-- An append-only update, as the patch of a formula sees it. -/
theorem appended_of_safe (hacc : Accepted p data override) (hv : AllValid service.sequenceWindows)
    (hres : Resolved p registry data) {config : RuntimeDerivedSeriesConfig}
    (hnum : NumericSources p registry config)
    (hold : ∀ s ∈ sourcesFor config, AllNumeric (retained p s service))
    (hsafe : ∀ s ∈ sourcesFor config,
      s ∈ (updateWindowIncremental p data override service).2.changedSequenceIds →
        (sequenceUpdateOf s
          (updateWindowIncremental p data override service).2).incrementalSafe = true)
    {range : IncrementalRange}
    (hjoint : JointRange p (sourcesFor config) data service (startAfter p data override service)
      range) :
    Appended config (fun s => retained p s service)
      (fun s => retained p s (updateWindowIncremental p data override service).1)
      (startAfter p data override service) range.startTime range.endTime := by
  have hrep := update_reported hacc hv
  have happend : ∀ s ∈ sourcesFor config,
      grown p s data service = retained p s service ++ incomingFor s data.points := by
    intro s hs
    by_cases hnil : incomingFor s data.points = []
    · rw [grown, hnil, List.append_nil]
      rfl
    · obtain ⟨q, hq⟩ := List.exists_mem_of_ne_nil _ hnil
      have hin := (hrep.changed s).mpr
        (Or.inl ⟨q, (mem_incomingFor.mp hq).1, (mem_incomingFor.mp hq).2⟩)
      exact (hrep.safe s (hsafe s hs hin)).2
  have hsub : ∀ s ∈ sourcesFor config,
      ∀ q ∈ retained p s (updateWindowIncremental p data override service).1,
        q ∈ retained p s service ∨ q ∈ incomingFor s data.points := by
    intro s hs q hq
    rw [update_retained hacc hv, happend s hs] at hq
    exact List.mem_append.mp (List.mem_filter.mp hq).1
  refine ⟨fun s => ascending_retained hv p s,
    fun s => ascending_retained (update_valid hacc hv) p s, hold,
    fun s hs => numeric_after hacc hv hres (hnum s hs) (hold s hs), fun s hs q hq => ?_, ?_,
    fun t ht hlt s hs => ⟨incomingFor s data.points, ?_, fun q hq => (hjoint.covers s hs q hq).1⟩⟩
  · rw [update_retained hacc hv] at hq
    exact of_decide_eq_true (List.mem_filter.mp hq).2
  · obtain ⟨s, hs, last, hlast, hend⟩ := hjoint.last
    have hasc := ascending_grown hv p s data
    rw [happend s hs] at hasc
    have holdle : ∀ q ∈ retained p s service, q.time ≤ range.endTime := fun q hq => by
      rw [← hend]
      exact le_of_lt (((ascending_append _).mp hasc).2.2 q hq last hlast)
    refine ⟨s, hs, holdle, fun q hq => ?_⟩
    rcases hsub s hs q hq with hin | hin
    · exact holdle q hin
    · exact (hjoint.covers s hs q hin).2
  · have hnone := ((hjoint.front t ht).mp hlt s hs).2
    rw [update_retained hacc hv, happend s hs]
    refine List.filter_eq_self.mpr fun q hq => decide_eq_true ?_
    by_contra hlt'
    rw [← happend s hs] at hq
    exact hnone ⟨q, hq, not_le.mp hlt'⟩

/-- A formula none of whose sources changed. -/
theorem unchanged_sources (hacc : Accepted p data override) (hv : AllValid service.sequenceWindows)
    {s : SequenceId}
    (hno : s ∉ (updateWindowIncremental p data override service).2.changedSequenceIds) :
    retained p s (updateWindowIncremental p data override service).1 = retained p s service := by
  have hrep := update_reported hacc hv
  obtain ⟨hread, hevict⟩ := not_or.mp (mt (hrep.changed s).mpr hno)
  have hnil : incomingFor s data.points = [] := by
    refine List.eq_nil_iff_forall_not_mem.mpr fun q hq => hread ?_
    exact ⟨q, (mem_incomingFor.mp hq).1, (mem_incomingFor.mp hq).2⟩
  rw [retained_unread hacc hv hnil]
  refine List.filter_eq_self.mpr fun q hq => decide_eq_true ?_
  by_contra hlt
  refine hevict ⟨q, ?_, not_le.mp hlt⟩
  rw [grown, hnil]
  exact hq

end Update

/-! ## The ranges of a refresh -/

section Ranges

variable {p : ProjectId} {registry : RuntimeConfigRegistry} {data : TimeseriesBatch}
  {override : Option Int} {service : WindowService} {update : WindowUpdateResult}

/-- The derived series selected for a batch are those it touches. -/
theorem selected_iff (hrep : Reported p data override service update)
    (config : RuntimeDerivedSeriesConfig) :
    selected (some update) config = true ↔ Touched p data override service config := by
  rw [selected, Bool.and_eq_true, Touched, touches, List.any_eq_true]
  refine and_congr_right fun _ => exists_congr fun s => and_congr_right fun _ => ?_
  rw [decide_eq_true_iff]
  exact hrep.changed s

/-- The range of a touched series is the joint range of its sources. -/
theorem refreshRange_spec (hset : AcceptedSet p registry)
    (hrep : Reported p data override service update) (hsafe : SafeSources p registry update)
    {config : RuntimeDerivedSeriesConfig} (hconfig : config ∈ allDerivedSeries p registry)
    (htouched : Touched p data override service config) :
    ∃ range, refreshRange p registry (some update) config = some range ∧
      JointRange p (sourcesFor config) data service (startAfter p data override service) range := by
  obtain ⟨henabled, s, hs, hchanged⟩ := htouched
  obtain ⟨range, hrange, hjoint⟩ := joint_range hrep (hsafe config hconfig henabled)
    ⟨s, hs, (hrep.changed s).mpr hchanged⟩
  refine ⟨range, ?_, hjoint⟩
  have hnumeric : (sourcesFor config).all (numericSourceConfig p registry) = true :=
    List.all_eq_true.mpr (hset.numeric hconfig)
  rw [refreshRange, Option.bind_some, hrange]
  exact if_pos hnumeric

/-- With safe sources every selected series is patched. -/
theorem onlyPatches_of_safe (hset : AcceptedSet p registry)
    (hrep : Reported p data override service update) (hsafe : SafeSources p registry update) :
    OnlyPatches p registry update := by
  intro config hconfig hselected
  obtain ⟨range, hrange, -⟩ :=
    refreshRange_spec hset hrep hsafe hconfig ((selected_iff hrep config).mp hselected)
  rw [hrange]
  rfl

/-- The ranges of the series that are patched. -/
theorem mem_sharedRanges {range : IncrementalRange} :
    range ∈ sharedRanges p registry update ↔ ∃ config ∈ allDerivedSeries p registry,
      selected (some update) config = true ∧
        refreshRange p registry (some update) config = some range := by
  rw [sharedRanges, incrementalConfigs, List.mem_map]
  constructor
  · rintro ⟨⟨config, range'⟩, hmem, rfl⟩
    obtain ⟨config', hconfig', hpair⟩ := List.mem_filterMap.mp hmem
    obtain ⟨hin, hselected⟩ := List.mem_filter.mp hconfig'
    obtain ⟨range, hrange, hpair⟩ := Option.map_eq_some_iff.mp hpair
    cases hpair
    exact ⟨config, hin, hselected, hrange⟩
  · rintro ⟨config, hin, hselected, hrange⟩
    refine ⟨(config, range), List.mem_filterMap.mpr ⟨config, ?_, ?_⟩, rfl⟩
    · exact List.mem_filter.mpr ⟨hin, hselected⟩
    · rw [hrange]
      rfl

/-- The formulas of the incremental query. -/
theorem mem_incrementalConfigs (honly : OnlyPatches p registry update)
    {config : RuntimeDerivedSeriesConfig} :
    config ∈ (incrementalConfigs p registry (some update) (allDerivedSeries p registry)).map
        Prod.fst ↔
      config ∈ allDerivedSeries p registry ∧ selected (some update) config = true := by
  rw [incrementalConfigs, List.mem_map]
  constructor
  · rintro ⟨⟨config', range⟩, hmem, rfl⟩
    obtain ⟨found, hfound, hpair⟩ := List.mem_filterMap.mp hmem
    obtain ⟨range', -, hpair⟩ := Option.map_eq_some_iff.mp hpair
    cases hpair
    exact List.mem_filter.mp hfound
  · rintro ⟨hin, hselected⟩
    obtain ⟨range, hrange⟩ := Option.isSome_iff_exists.mp (honly config hin hselected)
    refine ⟨(config, range), List.mem_filterMap.mpr ⟨config, ?_, ?_⟩, rfl⟩
    · exact List.mem_filter.mpr ⟨hin, hselected⟩
    · rw [hrange]
      rfl

theorem fullConfigs_nil (honly : OnlyPatches p registry update) :
    fullConfigs p registry (some update) (allDerivedSeries p registry) = [] := by
  refine List.filter_eq_nil_iff.mpr fun config hconfig => ?_
  obtain ⟨hin, hselected⟩ := List.mem_filter.mp hconfig
  rw [Option.isNone_iff_eq_none, ← Option.not_isSome_iff_eq_none, honly config hin hselected]
  exact fun hnot => hnot rfl

/-- The range of the shared query: around the ranges of all formulas. -/
structure SharedRange (p : ProjectId) (registry : RuntimeConfigRegistry) (data : TimeseriesBatch)
    (override : Option Int) (service : WindowService) (update : WindowUpdateResult)
    (union : IncrementalRange) : Prop where
  eq : unionRange (sharedRanges p registry update) = some union
  front : ∀ t, startAfter p data override service ≤ t →
    (t < union.startTime ↔ InFrontOfAll p data override service registry t)
  around : ∀ config ∈ allDerivedSeries p registry, selected (some update) config = true →
    ∀ range, refreshRange p registry (some update) config = some range →
      union.startTime ≤ range.startTime ∧ range.endTime ≤ union.endTime

/-- The union of the ranges contains each of them. -/
theorem sharedRange_spec (hset : AcceptedSet p registry)
    (hrep : Reported p data override service update) (hsafe : SafeSources p registry update)
    (hsome : ∃ config ∈ allDerivedSeries p registry, selected (some update) config = true) :
    ∃ union, SharedRange p registry data override service update union := by
  obtain ⟨config, hconfig, hselected⟩ := hsome
  have hne : sharedRanges p registry update ≠ [] := by
    obtain ⟨range, hrange, -⟩ :=
      refreshRange_spec hset hrep hsafe hconfig ((selected_iff hrep config).mp hselected)
    exact List.ne_nil_of_mem (mem_sharedRanges.mpr ⟨config, hconfig, hselected, hrange⟩)
  obtain ⟨union, hunion, hstart, hend, -⟩ := unionRange_spec hne
  refine ⟨union, hunion, fun t ht => ?_, fun config hconfig hselected range hrange => ?_⟩
  · rw [hstart]
    constructor
    · intro hall config hconfig htouched
      obtain ⟨range, hrange, hjoint⟩ := refreshRange_spec hset hrep hsafe hconfig htouched
      refine (hjoint.front t ht).mp (hall range ?_)
      exact mem_sharedRanges.mpr ⟨config, hconfig, (selected_iff hrep config).mpr htouched, hrange⟩
    · intro hfront range hrange
      obtain ⟨config, hconfig, hselected, hrange⟩ := mem_sharedRanges.mp hrange
      have htouched := (selected_iff hrep config).mp hselected
      obtain ⟨range', hrange', hjoint⟩ := refreshRange_spec hset hrep hsafe hconfig htouched
      obtain rfl := Option.some.inj (hrange.symm.trans hrange')
      exact (hjoint.front t ht).mpr (hfront config hconfig htouched)
  · have hmem := mem_sharedRanges.mpr ⟨config, hconfig, hselected, hrange⟩
    refine ⟨?_, hend range hmem⟩
    by_contra hlt
    exact absurd ((hstart _).mp (not_le.mp hlt) range hmem) (lt_irrefl _)

/-- The condition on the step, in the ranges of the refresh. -/
theorem patchCovers_of_suffices {config : RuntimeDerivedSeriesConfig}
    (hcover : PredecessorsSuffice p data override service registry)
    (hrep : Reported p data override service update) {union range : IncrementalRange}
    (hshared : SharedRange p registry data override service update union)
    (hconfig : config ∈ allDerivedSeries p registry) (hselected : selected (some update) config = true)
    (hjoint : JointRange p (sourcesFor config) data service (startAfter p data override service)
      range)
    (hlive : ∀ s ∈ sourcesFor config, ∀ q ∈ pointsAfter p data override service s,
      startAfter p data override service ≤ q.time) :
    PatchCovers config (pointsAfter p data override service) union.startTime range.startTime := by
  intro t v hd htq hsource s hs q hq hqq
  have ht : startAfter p data override service ≤ t := by
    obtain ⟨⟨s', hs', x, hx, hxt⟩, -⟩ := hd
    obtain ⟨q', hq', hqt⟩ := exists_rawPoint hx
    rw [← hxt, ← hqt]
    exact hlive s' hs' q' hq'
  refine hcover config hconfig ((selected_iff hrep config).mp hselected) t v hd
    ((hshared.front t ht).mp htq) ?_ s hs q hq ((hshared.front _ (hlive s hs q hq)).mp hqq)
  obtain ⟨s', hs', hall⟩ := hsource
  exact ⟨s', hs', fun q' hq' hfront =>
    hall q' hq' ((hjoint.front _ (hlive s' hs' q' hq')).mpr hfront)⟩

end Ranges

/-! ## One patched formula -/

section Patched

variable {p : ProjectId} {registry : RuntimeConfigRegistry} {config : RuntimeDerivedSeriesConfig}
  {new : SequenceId → List RawTimeseriesPoint} {window : WindowData} {union range : IncrementalRange}

/-- What an item of the shared query patches, and with which points. -/
structure PatchItem (p : ProjectId) (config : RuntimeDerivedSeriesConfig)
    (new : SequenceId → List RawTimeseriesPoint) (union range : IncrementalRange)
    (item : DerivedRefreshItem) : Prop where
  patchEnd : item.patchEnd = range.endTime
  batch : item.points = { points := item.points.points }
  ascending : Ascending RawTimeseriesPoint.time item.points.points
  patchStart : ∀ t, item.patchStart ≤ t ↔ range.startTime ≤ t ∨ ∃ s ∈ sourcesFor config,
    (∃ q ∈ new s, q.time < range.startTime) ∧
      ∀ q ∈ new s, q.time < range.startTime → q.time ≤ t
  points : ∀ q, q ∈ item.points.points ↔ ∃ t v,
    (item.patchStart ≤ t ∧ t ≤ range.endTime) ∧
      Derives config (fun s => contextSlice union.startTime union.endTime (new s)) t v ∧
        q = derivedPoint p config t v

/-- The patch of one series covers what its range has changed. -/
theorem patchItem_spec (hnum : NumericSources p registry config)
    (hnew : ∀ s, Ascending RawTimeseriesPoint.time (new s))
    (hasc : ∀ s, Ascending RawTimeseriesPoint.time ((window.sequenceValues.find s).getD []))
    (hslice : ∀ s ∈ sourcesFor config, (window.sequenceValues.find s).getD [] =
      contextSlice union.startTime union.endTime (new s))
    (hstart : union.startTime ≤ range.startTime) (hend : range.startTime ≤ union.endTime) :
    PatchItem p config new union range (computeFrom p registry (some range) window config) := by
  obtain ⟨hascending, hpoints⟩ := computeFrom_points hnum (some range) hasc
  refine ⟨rfl, rfl, hascending, fun t => ?_, fun q => ?_⟩
  · refine (patchStartOf_le hasc range.startTime (sourcesFor config) t).trans ?_
    refine or_congr_right (exists_congr fun s => and_congr_right fun hs => ?_)
    rw [hslice s hs]
    exact front_contextSlice (hnew s) hstart hend
  · rw [hpoints]
    refine exists_congr fun t => exists_congr fun v => ?_
    rw [derives_congr hslice]
    exact and_congr_left fun _ => ⟨fun h => h rfl, fun h _ => h⟩

/-- **A patch keeps the sequence derived.** -/
theorem PatchItem.derived {item : DerivedRefreshItem} (h : PatchItem p config new union range item)
    {old : SequenceId → List RawTimeseriesPoint} {start : Timestamp}
    (happended : Appended config old new start range.startTime range.endTime)
    (hcover : PatchCovers config new union.startTime range.startTime)
    (hid : config.derivedSequenceId ≠ "") (hstart : union.startTime ≤ range.startTime)
    (hrange : range.startTime ≤ range.endTime) (hend : range.endTime ≤ union.endTime)
    {before : List RawTimeseriesPoint} (hbefore : DerivedFrom p config old before)
    {middle : WindowService} (hv : AllValid middle.sequenceWindows)
    (hmiddle : retained p config.derivedSequenceId middle =
      before.filter fun q => decide (start ≤ q.time)) :
    DerivedFrom p config new (retained p config.derivedSequenceId
      (patchDerivedSequence p config.derivedSequenceId item.patchStart item.patchEnd item.points
        middle).1) := by
  have hpatchStart : item.patchStart ≤ item.patchEnd := by
    rw [h.patchEnd]
    exact le_trans ((h.patchStart range.startTime).mpr (Or.inl (le_refl _))) hrange
  have hold : ∀ q ∈ retained p config.derivedSequenceId middle, q.time ≤ item.patchEnd := by
    intro q hq
    rw [hmiddle] at hq
    have hq' := (List.mem_filter.mp hq).1
    by_cases hstore : Storable config.derivedSequenceId
    · obtain ⟨t, v, hd, rfl⟩ := (hbefore.1 hstore q).mp hq'
      rw [h.patchEnd]
      exact happended.le_finish.1 hd
    · rw [hbefore.2 hstore] at hq'
      cases hq'
  have hpoints : DerivedPoints p config item.points.points := by
    intro q hq
    obtain ⟨t, v, -, -, rfl⟩ := (h.points q).mp hq
    exact ⟨t, v, rfl⟩
  have hinside : ∀ q ∈ item.points.points, item.patchStart ≤ q.time ∧ q.time ≤ item.patchEnd := by
    intro q hq
    obtain ⟨t, v, hin, -, rfl⟩ := (h.points q).mp hq
    rw [h.patchEnd]
    exact hin
  obtain ⟨hkeep, hnothing⟩ :=
    patch_retained hv hid hpoints h.ascending hpatchStart hinside hold
  rw [← h.batch] at hkeep hnothing
  constructor
  · intro hstore
    refine happended.patched hstart hrange hend hcover h.patchStart (hbefore.1 hstore) h.points
      fun q => ?_
    have hq := hkeep hstore q
    rw [hmiddle, List.mem_filter, decide_eq_true_eq] at hq
    exact hq
  · intro hstore
    refine hnothing ?_ hstore
    rw [hmiddle, hbefore.2 hstore]
    rfl

end Patched

/-! ## One batch -/

theorem derivedFrom_congr {p : ProjectId} {config : RuntimeDerivedSeriesConfig}
    {points points' : SequenceId → List RawTimeseriesPoint} {derived : List RawTimeseriesPoint}
    (h : ∀ s ∈ sourcesFor config, points s = points' s)
    (hderived : DerivedFrom p config points derived) : DerivedFrom p config points' derived := by
  refine ⟨fun hstore q => (hderived.1 hstore q).trans ?_, hderived.2⟩
  exact exists_congr fun t => exists_congr fun v => and_congr_left fun _ => derives_congr h

section Step

variable {capacity : Nat} {p : ProjectId} {registry : RuntimeConfigRegistry}
  {data : TimeseriesBatch} {override : Option Int} {service : WindowService}

/-- The shared query of a refresh: its range, and what it returned. -/
structure SharedQuery (p : ProjectId) (registry : RuntimeConfigRegistry) (data : TimeseriesBatch)
    (override : Option Int) (service : WindowService) (update : WindowUpdateResult)
    (union : IncrementalRange) (window : WindowQueryResult) : Prop where
  shared : SharedRange p registry data override service update union
  code : window.operation.code = .ok
  ascending : ∀ s, Ascending RawTimeseriesPoint.time
    ((window.data.sequenceValues.find s).getD [])
  slices : ∀ config ∈ allDerivedSeries p registry, selected (some update) config = true →
    ∀ s ∈ sourcesFor config, (window.data.sequenceValues.find s).getD [] =
      contextSlice union.startTime union.endTime (pointsAfter p data override service s)

/-- The shared query serves every patch with the points it reads. -/
theorem sharedQuery_spec (hset : AcceptedSet p registry) (hacc : Accepted p data override)
    (hv : AllValid service.sequenceWindows) (hsize : 0 < windowSize p service)
    (hcap : 0 < capacity)
    (hsafe : SafeSources p registry (updateWindowIncremental p data override service).2)
    (hsome : ∃ config ∈ allDerivedSeries p registry,
      selected (some (updateWindowIncremental p data override service).2) config = true) :
    ∃ union window, SharedQuery p registry data override service
        (updateWindowIncremental p data override service).2 union window ∧
      queryFor capacity p
        (sourceUnion ((incrementalConfigs p registry
          (some (updateWindowIncremental p data override service).2)
          (allDerivedSeries p registry)).map Prod.fst))
        (unionRange (sharedRanges p registry (updateWindowIncremental p data override service).2))
        (updateWindowIncremental p data override service).1 = .ok (some window) := by
  have hrep := update_reported hacc hv
  have honly := onlyPatches_of_safe hset hrep hsafe
  obtain ⟨union, hshared⟩ := sharedRange_spec hset hrep hsafe hsome
  obtain ⟨config, hconfig, hselected⟩ := hsome
  obtain ⟨range, hrange, hjoint⟩ :=
    refreshRange_spec hset hrep hsafe hconfig ((selected_iff hrep config).mp hselected)
  obtain ⟨haround, haround'⟩ := hshared.around config hconfig hselected range hrange
  have hwatermark : (updateWindowIncremental p data override service).1.watermarks.find
      (effectiveProject p) = some (watermarkAfter p data service) := by
    rw [update_watermarks hacc, find_put_self]
  have hsizeAfter : 0 < windowSize p (updateWindowIncremental p data override service).1 := by
    rw [update_windowSize hacc, windowSizeAfter]
    cases override with
    | none => exact hsize
    | some size => exact hacc.size size rfl
  have hmem := @mem_incrementalConfigs p registry _ honly
  have hin : ∀ config ∈ (incrementalConfigs p registry
      (some (updateWindowIncremental p data override service).2)
      (allDerivedSeries p registry)).map Prod.fst, config ∈ allDerivedSeries p registry :=
    fun config hin => (hmem.mp hin).1
  obtain ⟨window, hwindow, hcode, hascending, hslices⟩ := queryFor_spec hset hin
    (List.ne_nil_of_mem (hmem.mpr ⟨hconfig, hselected⟩))
    (update_valid hacc hv) hwatermark hsizeAfter (some union) (fun _ => hcap)
    (le_trans haround (le_trans hjoint.start_le (le_trans haround' (le_queryEnd _))))
  refine ⟨union, window, ⟨hshared, hcode, hascending, fun config hconfig hselected s hs => ?_⟩, ?_⟩
  · exact hslices config (hmem.mpr ⟨hconfig, hselected⟩) s hs
  · rw [hshared.eq]
    exact hwindow

/-- The items of a refresh behind a safe update: patches from the shared query, and skips. -/
theorem computeItems_spec (hset : AcceptedSet p registry) (hacc : Accepted p data override)
    (hv : AllValid service.sequenceWindows) (hsize : 0 < windowSize p service)
    (hcap : 0 < capacity)
    (hsafe : SafeSources p registry (updateWindowIncremental p data override service).2) :
    ∃ incremental, computeItems capacity p registry
        (some (updateWindowIncremental p data override service).2)
        (updateWindowIncremental p data override service).1 =
          .ok ((allDerivedSeries p registry).map (computeOne p registry
            (some (updateWindowIncremental p data override service).2) incremental none)) ∧
      ∀ config ∈ allDerivedSeries p registry,
        selected (some (updateWindowIncremental p data override service).2) config = true →
          ∃ union window, incremental = some window ∧ SharedQuery p registry data override service
            (updateWindowIncremental p data override service).2 union window := by
  have honly := onlyPatches_of_safe hset (update_reported hacc hv) hsafe
  have hfull : queryFor capacity p (sourceUnion (fullConfigs p registry
      (some (updateWindowIncremental p data override service).2) (allDerivedSeries p registry)))
      none (updateWindowIncremental p data override service).1 = .ok none := by
    rw [fullConfigs_nil honly]
    rfl
  by_cases hsome : ∃ config ∈ allDerivedSeries p registry,
      selected (some (updateWindowIncremental p data override service).2) config = true
  · obtain ⟨union, window, hquery, hwindow⟩ :=
      sharedQuery_spec hset hacc hv hsize hcap hsafe hsome
    refine ⟨some window, ?_, fun config _ _ => ⟨union, window, rfl, hquery⟩⟩
    rw [sharedRanges] at hwindow
    exact computeItems_eq hwindow hfull
  · -- nothing is selected, and nothing is asked for
    have hnone : incrementalConfigs p registry
        (some (updateWindowIncremental p data override service).2) (allDerivedSeries p registry) =
          [] := by
      have hfilter : (allDerivedSeries p registry).filter
          (selected (some (updateWindowIncremental p data override service).2)) = [] :=
        List.filter_eq_nil_iff.mpr fun config hconfig hselected =>
          hsome ⟨config, hconfig, hselected⟩
      rw [incrementalConfigs, hfilter]
      rfl
    refine ⟨none, ?_, fun config hconfig hselected => absurd ⟨config, hconfig, hselected⟩ hsome⟩
    have hincremental : queryFor capacity p (sourceUnion ([] : List RuntimeDerivedSeriesConfig))
        (unionRange []) (updateWindowIncremental p data override service).1 = .ok none := rfl
    exact computeItems_eq (by rw [hnone]; exact hincremental) hfull

end Step

end DerivedRefresh
