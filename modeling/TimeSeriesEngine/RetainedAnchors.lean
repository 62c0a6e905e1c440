import TimeSeriesEngine.SilencedClause
import TimeSeriesEngine.UpdateReport

/-!
# Violations that outlive their points

The report of a batch names cached violations.  A cached violation of a rule on one
sequence was filed under the time of one of its points; the point may leave the window
later.  Batches, window sizes, time windows and rules of one project follow each other
here.

* `execution_anchors` — what a group finds is filed at points it has read;
* `CoreRequest`, `requestStep` — the requests;
* `AnchorsKept` — no point at a cached anchor leaves the window behind the cache's back;
* `reported_anchor_retained` — then every reported anchor is a point of the window;
* `evicted_anchor_reported` — a run that reports one that is not.
-/

namespace RetainedAnchors

open TseTypes KeyedTable OrderedSeries SeqWindow HotWindow WindowContent WindowUpdate
open WindowRefinement ConstraintCheck Registry UpdateRange UpdateReport DerivedSeries HotIngest
open IngestFrame ConstraintScan RuleGroups GroupScan IngestStep ConstraintCache RegistryReferences
open PersistentReport CoreRun SilencedClause Transition

/-! ## Where a check files its violations -/

/-- A violation is anchored at one of the points. -/
theorem checkAnchors_at {rule : ConstraintRule} {m : Nat} {finish : Option Timestamp}
    {points : List RawTimeseriesPoint} {tally : RuleTally}
    (h : checkAnchors rule m finish points = .ok tally) :
    ∀ v ∈ tally.violations, ∃ q ∈ points, q.time = v.anchorTime := by
  induction points generalizing tally with
  | nil =>
      obtain rfl := Except.ok.inj h
      exact fun v hv => absurd hv List.not_mem_nil
  | cons anchor rest ih =>
      rw [checkAnchors] at h
      split at h
      · obtain rfl := Except.ok.inj h
        exact fun v hv => absurd hv List.not_mem_nil
      split at h
      · obtain rfl := Except.ok.inj h
        exact fun v hv => absurd hv List.not_mem_nil
      split at h
      · cases h
      rename_i found hfound
      split at h
      · cases h
      rename_i later hlater
      obtain rfl := Except.ok.inj h
      intro v hv
      rcases List.mem_append.mp hv with hnew | hold
      · obtain rfl := Option.mem_toList.mp hnew
        exact ⟨anchor, List.mem_cons_self .., (evaluateRuleAt_anchor hfound).1.symm⟩
      · obtain ⟨q, hq, htime⟩ := ih hlater v hold
        exact ⟨q, List.mem_cons_of_mem _ hq, htime⟩

/-- A violation of a rule over a window is anchored at one of its points. -/
theorem checkWindowRule_at {rule : ConstraintRule} {s : SequenceId} (hr : SampleRuleOn rule s)
    {data : WindowData} {points : List RawTimeseriesPoint}
    (hfind : data.sequenceValues.find s = some points) {range : Option ConstraintCheckRange}
    {tally : RuleTally} (h : checkWindowRule data range rule = .ok tally) :
    ∀ v ∈ tally.violations, ∃ q ∈ points, q.time = v.anchorTime := by
  rw [checkWindowRule] at h
  split at h
  · cases h
  rename_i properties hval
  have hne : ¬ properties.kind = .windowAggregate := by
    rw [(validate_samples hr.samples hval).1]
    decide
  simp only [if_neg hne, hr.single, hfind] at h
  split at h
  · obtain rfl := Except.ok.inj h
    exact fun v hv => absurd hv List.not_mem_nil
  split at h
  · cases h
  rename_i hrun
  obtain rfl := Except.ok.inj h
  intro v hv
  obtain ⟨q, hq, htime⟩ := checkAnchors_at hrun v hv
  exact ⟨q, (fromFirstAnchor_suffix range points).subset hq, htime⟩

/-- **What a group finds for a rule is filed at points it has read.** -/
theorem execution_anchors {capacity : Nat} {p : ProjectId} {registry : RuntimeConfigRegistry}
    {rules members : List ConstraintRule} {update : WindowUpdateResult} {service : WindowService}
    {group : ConstraintGroupSpec} {execution : ConstraintGroupExecution}
    (hrules : (rules.map ConstraintRule.constraintId).Nodup)
    (hv : AllValid service.sequenceWindows) {watermark : Timestamp}
    (hwm : service.watermarks.find (effectiveProject p) = some watermark)
    (hsize : 0 < windowSize p service) (hgroup : SingleGroup rules update members group)
    {rule : ConstraintRule} (hrule : rule ∈ members) {s : SequenceId} (hr : SampleRuleOn rule s)
    (hrun : runGroup capacity p registry rules service group = .ok execution)
    (hok : isSuccessful execution.result.operation.code = true) :
    ∀ v ∈ execution.result.violations, v.constraintId = rule.constraintId →
      ∃ q ∈ retained p s service, q.time = v.anchorTime := by
  have hlen : ∀ q ∈ members, (sequenceIdsFor rules q).length = 1 :=
    fun q hq => (hgroup.subset q hq).2
  obtain ⟨hidsFor, hmem, hnd, hgrules, hne⟩ := singleGroup_query hrules hgroup hrule hr
  obtain ⟨data, hfind, hresult⟩ := runGroup_queried hv hwm hsize hne hnd hrun hok
  rcases hresult with ⟨-, hnone⟩ | hresult
  · rw [hnone]
    exact fun v hmem => absurd hmem List.not_mem_nil
  rw [hgrules] at hresult
  rw [hresult] at hok ⊢
  obtain ⟨-, outcomes, hmap, hall, hviol⟩ := runContinuous_single hlen hgroup.clauses hok
  rw [hviol]
  intro v hmemv hid
  obtain ⟨outcome, houtcome, htally⟩ := List.mem_flatMap.mp hmemv
  have hrunRule := hall outcome houtcome
  -- the violation is one of the rule itself
  have hmember : outcome.rule ∈ applicable rules data members := by
    rw [← hmap]
    exact List.mem_map_of_mem houtcome
  obtain ⟨hin, hcontains⟩ := List.mem_filter.mp hmember
  have hself : outcome.rule = rule :=
    List.inj_on_of_nodup_map hgroup.ids hin hrule
      ((checkWindowRule_ids hrunRule v htally).symm.trans hid)
  rw [hself] at hrunRule
  have hfinds := hfind s hmem
  by_cases hnil : groupSlice p service watermark group s = []
  · rw [hself, hidsFor] at hcontains
    rw [if_pos hnil] at hfinds
    simp [containsAllSequences, hfinds] at hcontains
  · rw [if_neg hnil] at hfinds
    obtain ⟨q, hq, htime⟩ := checkWindowRule_at hr hfinds hrunRule v htally
    exact ⟨q, (sliceOf_within _ _ _ _ _).subset hq, htime⟩

/-! ## The requests of one project -/

/-- The requests of a run. -/
inductive CoreRequest where
  /-- `processHotIngest`. -/
  | ingest (data : TimeseriesBatch)
  /-- `syncWindowConfig`. -/
  | configure (size : Int)
  /-- `buildTimeWindow`, which always names a window size. -/
  | build (data : TimeseriesBatch) (size : Int)
  /-- `syncConstraints`. -/
  | sync (items : List RuntimeConstraintConfig)

/-- The service behind a request. -/
def requestStep (capacity : Nat) (p : ProjectId) (core : CoreService) : CoreRequest → CoreService
  | .ingest data => (processHotIngest capacity p data core).1
  | .configure size => { core with window := (configureWindowSize p size core.window).1 }
  | .build data size =>
      { core with window := (updateWindowIncremental p data (some size) core.window).1 }
  | .sync items => (syncConstraints p items core).1

/-- The sequence has a point at the time. -/
def HasPoint (p : ProjectId) (s : SequenceId) (t : Timestamp) (service : WindowService) : Prop :=
  ∃ q ∈ retained p s service, q.time = t

/-- The time is the anchor of a cached violation of an enabled rule on the sequence. -/
def CachedAnchor (p : ProjectId) (core : CoreService) (s : SequenceId) (t : Timestamp) : Prop :=
  ∃ rule ∈ allEnabledConstraints p core.configs, SampleRuleOn rule s ∧
    ∃ v ∈ cachedViolations p rule core, v.anchorTime = t

/-- The derived refresh that the batch is due in this state, if it does not throw, has a point
    of the sequence at the time. -/
def RefreshKeeps (capacity : Nat) (p : ProjectId) (data : TimeseriesBatch) (core : CoreService)
    (s : SequenceId) (t : Timestamp) : Prop :=
  ∀ refreshed result,
    derivedStage capacity p core.configs (batchReport p data core)
        ⟨(hotUpdate p data core.window).1, core.lastPublishedGeneration⟩ = .ok (refreshed, result) →
      HasPoint p s t refreshed.window

/-- No point at a cached anchor leaves the window behind the cache's back. -/
def AnchorsKept (capacity : Nat) (p : ProjectId) (core : CoreService) : CoreRequest → Prop
  | .ingest data => Accepted p data none → ∀ s t, CachedAnchor p core s t →
      -- the batch publishes nothing, or evicts no such point
      (published capacity p data core = none → startAfter p data none core.window ≤ t) ∧
        -- the refresh of a derived series leaves such points where they are
        (s ∈ derivedIds p core.configs → startAfter p data none core.window ≤ t →
          HasPoint p s t core.window → RefreshKeeps capacity p data core s t)
  | .configure size => 0 < size → ∀ s t, CachedAnchor p core s t → ∀ watermark,
      core.window.watermarks.find (effectiveProject p) = some watermark →
        windowStart watermark size ≤ t
  | .build data size => Accepted p data (some size) → ∀ s t, CachedAnchor p core s t →
      startAfter p data (some size) core.window ≤ t
  | .sync _ => True

/-! ## Points a request leaves in the window -/

/-- A point inside the window survives an update. -/
theorem hasPoint_update {p : ProjectId} {data : TimeseriesBatch} {override : Option Int}
    (hacc : Accepted p data override) {service : WindowService}
    (hv : AllValid service.sequenceWindows) {s : SequenceId} {t : Timestamp}
    (ht : startAfter p data override service ≤ t) (h : HasPoint p s t service) :
    HasPoint p s t (updateWindowIncremental p data override service).1 := by
  obtain ⟨q, hq, htime⟩ := h
  obtain ⟨q', hq', htime'⟩ := (exists_grown hv (· = t)).mpr
    ⟨q, List.mem_append_left (incomingFor s data.points) hq, htime⟩
  refine ⟨q', ?_, htime'⟩
  rw [update_retained hacc hv]
  refine List.mem_filter.mpr ⟨hq', decide_eq_true ?_⟩
  rw [htime']
  exact ht

/-- A point inside the new window survives a change of its size. -/
theorem hasPoint_configure {p : ProjectId} {service : WindowService}
    (hv : AllValid service.sequenceWindows) {size : Int} {s : SequenceId} {t : Timestamp}
    (ht : 0 < size → ∀ watermark, service.watermarks.find (effectiveProject p) = some watermark →
      windowStart watermark size ≤ t) (h : HasPoint p s t service) :
    HasPoint p s t (configureWindowSize p size service).1 := by
  rw [configureWindowSize]
  by_cases hsize : size ≤ 0
  · rw [if_pos hsize]
    exact h
  · rw [if_neg hsize]
    simp only
    obtain ⟨q, hq, htime⟩ := h
    cases hw : service.watermarks.find (effectiveProject p) with
    | none => exact ⟨q, hq, htime⟩
    | some watermark =>
        have hcontent := prune_project_contentOf
          { service with windowSizes := put (effectiveProject p) size service.windowSizes } hv p
          (windowStart watermark size) s
        refine ⟨q, ?_, htime⟩
        refine Eq.mpr (congrArg (q ∈ ·) hcontent) (List.mem_filter.mpr ⟨hq, decide_eq_true ?_⟩)
        rw [htime]
        exact ht (not_le.mp hsize) watermark hw

/-- Changing the size keeps the windows valid. -/
theorem configure_valid {p : ProjectId} {service : WindowService}
    (hv : AllValid service.sequenceWindows) (size : Int) :
    AllValid (configureWindowSize p size service).1.sequenceWindows := by
  rw [configureWindowSize]
  split
  · exact hv
  · simp only
    split
    · exact hv
    · exact pruneExpiredPoints_allValid hv _ _

theorem configure_generations (p : ProjectId) (size : Int) (service : WindowService) :
    (configureWindowSize p size service).1.updateGenerations = service.updateGenerations := by
  rw [configureWindowSize]
  split
  · rfl
  · rfl

/-- The size stays positive. -/
theorem configure_size {p : ProjectId} {service : WindowService} (h : 0 < windowSize p service)
    (size : Int) : 0 < windowSize p (configureWindowSize p size service).1 := by
  rw [configureWindowSize]
  split
  · exact h
  · rename_i hsize
    have hfind : (put (effectiveProject p) size service.windowSizes).find (effectiveProject p) =
        some size := find_put_self ..
    show 0 < ((put (effectiveProject p) size service.windowSizes).find (effectiveProject p)).getD _
    rw [hfind]
    exact not_le.mp hsize

/-- Reading statistics changes no series. -/
theorem aggregates_retained (p : ProjectId) (rules aggregate : List ConstraintRule)
    {service : WindowService} (hv : AllValid service.sequenceWindows) (s : SequenceId) :
    retained p s (runAggregates p rules aggregate service).1 = retained p s service := by
  induction aggregate generalizing service with
  | nil => rfl
  | cons rule rest ih =>
      have hvalid := (queryStatistics_writes p [] (sequenceIdsFor rules rule) service).valid hv
      refine (ih hvalid).trans ?_
      show retained p s (queryWindowStatistics p (sequenceIdsFor rules rule) service).1 = _
      rw [queryWindowStatistics]
      simp only
      split
      · rfl
      split
      · rfl
      split
      · rfl
      split
      · rfl
      · exact (statisticsLoop_spec (effectiveProject p) _ hv KeyedTable.empty 0).2 _

/-- The constraint part of a batch keeps what is retained. -/
theorem constraintPart_retained (capacity : Nat) (p : ProjectId) (update : WindowUpdateResult)
    (derivedResult : OperationResult) {core : CoreService}
    (hv : AllValid core.window.sequenceWindows) (s : SequenceId) :
    retained p s (constraintPart capacity p update derivedResult core).1.window =
      retained p s core.window := by
  rw [constraintPart]
  simp only
  split
  · rfl
  split
  · rfl
  · show retained p s (constraintStage ..).window = _
    rw [constraintStage_window]
    exact aggregates_retained p _ _ hv s

/-- What the rules of a batch are checked on is what the batch leaves. -/
theorem process_checked_retained {capacity : Nat} {p : ProjectId} {data : TimeseriesBatch}
    {core checked : CoreService} (h : checkedCore capacity p data core = some checked)
    (hv : AllValid core.window.sequenceWindows) (s : SequenceId) :
    retained p s (processHotIngest capacity p data core).1.window = retained p s checked.window := by
  obtain ⟨result, heq⟩ := process_checked h
  rw [heq]
  exact constraintPart_retained capacity p _ result
    ((checked_spec h).writes.valid (hotUpdate_valid p data hv)) s

/-! ## What every run keeps -/

/-- The invariant of a run: every cached anchor is a point of the window. -/
structure AnchorInv (p : ProjectId) (core : CoreService) : Prop where
  inv : RunInv p core
  size : 0 < windowSize p core.window
  generations : ∀ id, (stateOf id (cachedStates p core)).updateGeneration ≤
    (core.window.updateGenerations.find p).getD 0
  anchors : ∀ s t, CachedAnchor p core s t → HasPoint p s t core.window

/-- Without rules there are no anchors. -/
theorem anchorInv_start {p : ProjectId} {registry : RuntimeConfigRegistry}
    (hempty : registry.constraints = KeyedTable.empty) :
    AnchorInv p { configs := registry } where
  inv :=
    { valid := allValid_empty
      rules := by
        show Entries (UnderOwnId p) registry.constraints
        rw [hempty]
        exact entries_empty
      filed := filed_empty }
  size := by
    show 0 < kDefaultWindowSizeMs
    decide
  generations _ := Nat.zero_le _
  anchors s t h := by
    obtain ⟨rule, -, -, v, hv, -⟩ := h
    exact absurd hv List.not_mem_nil

/-- What a publication keeps of an entry was in it, and lies inside the window. -/
theorem keptViolations_inside {update : WindowUpdateResult} {range : Option IncrementalRange}
    {violations : List ConstraintViolation} {v : ConstraintViolation}
    (h : v ∈ keptViolations update range violations) {start : Timestamp}
    (hstart : update.windowStartTime = some start) : v ∈ violations ∧ start ≤ v.anchorTime := by
  cases range with
  | none => exact absurd h List.not_mem_nil
  | some range =>
      obtain ⟨hin, -, hinside⟩ := (mem_keptViolations hstart).mp h
      exact ⟨hin, hinside⟩

section Ingest

variable {capacity : Nat} {p : ProjectId} {data : TimeseriesBatch} {core : CoreService}

/-- The batch leaves what its refresh leaves, or what its update does. -/
theorem hasPoint_refreshed (h : AnchorInv p core) {s : SequenceId} {t : Timestamp}
    (hupdated : HasPoint p s t (hotUpdate p data core.window).1)
    (hkeeps : RefreshKeeps capacity p data core s t) :
    HasPoint p s t (processHotIngest capacity p data core).1.window := by
  cases hchecked : checkedCore capacity p data core with
  | none =>
      rw [process_unchecked hchecked]
      exact hupdated
  | some checked =>
      have hpoint : HasPoint p s t checked.window := by
        simp only [checkedCore] at hchecked
        split at hchecked
        · cases hchecked
        split at hchecked
        · rename_i refreshed result hstage
          obtain rfl := Option.some.inj hchecked
          exact hkeeps refreshed result hstage
        split at hchecked
        · cases hchecked
        · obtain rfl := Option.some.inj hchecked
          exact hupdated
      obtain ⟨q, hq, htime⟩ := hpoint
      refine ⟨q, ?_, htime⟩
      rw [process_checked_retained hchecked h.inv.valid]
      exact hq

/-- A point at a cached anchor inside the new window is still there behind the batch. -/
theorem kept_inside (h : AnchorInv p core) (hacc : Accepted p data none)
    (hkept : AnchorsKept capacity p core (.ingest data)) {s : SequenceId} {t : Timestamp}
    (hcached : CachedAnchor p core s t) (ht : startAfter p data none core.window ≤ t) :
    HasPoint p s t (processHotIngest capacity p data core).1.window := by
  have hbefore := h.anchors s t hcached
  have hupdated : HasPoint p s t (hotUpdate p data core.window).1 :=
    hasPoint_update hacc h.inv.valid ht hbefore
  by_cases hderived : s ∈ derivedIds p core.configs
  · exact hasPoint_refreshed h hupdated ((hkept hacc s t hcached).2 hderived ht hbefore)
  · obtain ⟨q, hq, htime⟩ := hupdated
    refine ⟨q, ?_, htime⟩
    rw [process_retained hacc h.inv.valid hderived, ← hotUpdate_retained hacc h.inv.valid]
    exact hq

/-- A rule that a publication does not evaluate has lost no point. -/
theorem unevaluated_inside (h : AnchorInv p core) (hacc : Accepted p data none)
    {rule : ConstraintRule} (hrule : rule ∈ allEnabledConstraints p core.configs) {s : SequenceId}
    (hreads : SampleRuleOn rule s)
    (hno : rule ∉ evaluatedRules (allEnabledConstraints p core.configs) (batchReport p data core)
      (cachedStates p core)) {t : Timestamp} (hpoint : HasPoint p s t core.window) :
    startAfter p data none core.window ≤ t := by
  have hrep := batch_reported hacc h.inv.valid
  by_contra hlt
  obtain ⟨q, hq, htime⟩ := hpoint
  have hids : sequenceIdsFor (allEnabledConstraints p core.configs) rule = [s] := by
    rw [sequenceIdsFor_of_mem h.inv.ids hrule]
    exact mappedSequenceIds_single hreads
  refine hno (evaluated_of_changed _ hrule hids ((hrep.changed s).mpr (Or.inr ?_)))
  refine (exists_grown h.inv.valid (· < startAfter p data none core.window)).mpr
    ⟨q, List.mem_append_left _ hq, ?_⟩
  rw [htime]
  exact not_le.mp hlt

/-- The entry of an evaluated rule: every violation is filed at a point the batch leaves, or
    was cached before, inside the new window. -/
theorem evaluated_anchors (h : AnchorInv p core) (hp : p ≠ "") {rule : ConstraintRule}
    (hrule : rule ∈ allEnabledConstraints p core.configs) {s : SequenceId}
    (hreads : SampleRuleOn rule s)
    (heval : rule ∈ evaluatedRules (allEnabledConstraints p core.configs)
      (batchReport p data core) (cachedStates p core)) {after : Table String CachedConstraintState}
    (hpub : published capacity p data core = some after) {v : ConstraintViolation}
    (hv : v ∈ (stateOf rule.constraintId after).violations) :
    HasPoint p s v.anchorTime (processHotIngest capacity p data core).1.window ∨
      v ∈ cachedViolations p rule core ∧ startAfter p data none core.window ≤ v.anchorTime := by
  obtain ⟨checked, hchecked, hstage⟩ := Option.bind_eq_some_iff.mp hpub
  have hc := checked_spec hchecked
  have hrep := batch_reported hc.accepted h.inv.valid
  obtain ⟨hvalid, hwm, -, hsize, hstates⟩ := checked_window hchecked h.inv.valid h.size
  have hids : sequenceIdsFor (allEnabledConstraints p core.configs) rule = [s] := by
    rw [sequenceIdsFor_of_mem h.inv.ids hrule]
    exact mappedSequenceIds_single hreads
  have hsingleRule : rule ∈ singleRules (allEnabledConstraints p core.configs)
      (batchReport p data core) (cachedStates p core) := by
    refine List.mem_filter.mpr ⟨heval, ?_⟩
    rw [isAggregate_samples hreads.samples, hids]
    rfl
  obtain ⟨group, hgroup, hmember, hsingle⟩ := group_of_rule h.inv.ids hsingleRule
  rw [stageOf, hc.configs, hstates] at hstage
  obtain ⟨execution, hrun, hok, -, hentry⟩ :=
    published_execution h.inv.ids hgroup hmember hstage
  have hgen : (stateOf rule.constraintId (cachedStates p core)).updateGeneration ≤
      (batchReport p data core).updateGeneration := by
    rw [hrep.updateGeneration, effectiveProject_of_ne hp]
    exact le_trans (h.generations _) (le_nextGeneration _)
  rw [hentry, publishedState_fresh hgen] at hv
  rcases mem_of_mem_assignAll _ hv with hnew | hold
  · obtain ⟨hfound, hid⟩ := List.mem_filter.mp hnew
    obtain ⟨q, hq, htime⟩ := execution_anchors h.inv.ids hvalid hwm hsize hsingle hmember hreads
      hrun hok v hfound (of_decide_eq_true hid)
    refine Or.inl ⟨q, ?_, htime⟩
    rw [process_checked_retained hchecked h.inv.valid]
    exact hq
  · exact Or.inr (keptViolations_inside hold hrep.windowStartTime)

/-- After a batch every cached anchor has its point. -/
theorem AnchorInv.ingest_anchors (h : AnchorInv p core) (hp : p ≠ "")
    (hkept : AnchorsKept capacity p core (.ingest data)) {s : SequenceId} {t : Timestamp}
    (hcached : CachedAnchor p (processHotIngest capacity p data core).1 s t) :
    HasPoint p s t (processHotIngest capacity p data core).1.window := by
  by_cases hacc : Accepted p data none
  swap
  · rw [process_rejected hacc] at hcached ⊢
    exact h.anchors s t hcached
  obtain ⟨rule, hrule, hreads, v, hv, rfl⟩ := hcached
  rw [process_configs] at hrule
  rw [cachedViolations, (process_states capacity p data core).1] at hv
  have hold : ∀ w ∈ cachedViolations p rule core, CachedAnchor p core s w.anchorTime :=
    fun w hw => ⟨rule, hrule, hreads, w, hw, rfl⟩
  cases hpub : published capacity p data core with
  | none =>
      rw [hpub] at hv
      exact kept_inside h hacc hkept (hold v hv) ((hkept hacc s _ (hold v hv)).1 hpub)
  | some after =>
      rw [hpub] at hv
      by_cases heval : rule ∈ evaluatedRules (allEnabledConstraints p core.configs)
          (batchReport p data core) (cachedStates p core)
      · rcases evaluated_anchors h hp hrule hreads heval hpub hv with hpoint | ⟨hbefore, ht⟩
        · exact hpoint
        · exact kept_inside h hacc hkept (hold v hbefore) ht
      · rw [Option.getD_some, published_unevaluated h.inv.ids hrule heval hpub] at hv
        exact kept_inside h hacc hkept (hold v hv)
          (unevaluated_inside h hacc hrule hreads heval (h.anchors s _ (hold v hv)))

end Ingest

/-- A batch keeps the invariant. -/
theorem AnchorInv.ingest {capacity : Nat} {p : ProjectId} {core : CoreService}
    (h : AnchorInv p core) (hp : p ≠ "") {data : TimeseriesBatch}
    (hkept : AnchorsKept capacity p core (.ingest data)) :
    AnchorInv p (processHotIngest capacity p data core).1 where
  inv := h.inv.ingest capacity data
  size := by
    rw [process_windowSize]
    exact h.size
  generations id := by
    obtain ⟨hle, hnext⟩ := process_generation capacity hp data core
    rw [(process_states capacity p data core).1]
    cases hpub : published capacity p data core with
    | none => exact le_trans (h.generations id) hle
    | some after =>
        have hacc := published_accepted hpub
        have hgen := (batch_reported hacc h.inv.valid).updateGeneration
        rw [effectiveProject_of_ne hp] at hgen
        rw [hnext hacc]
        exact published_invariant (P := fun state => state.updateGeneration ≤ _) id
          (fun execution _ hs => publishedState_generation (le_of_eq hgen) execution _ hs)
          (le_trans (h.generations id) (le_nextGeneration _)) hpub
  anchors _ _ hcached := h.ingest_anchors hp hkept hcached

/-- A change of the size keeps the invariant. -/
theorem AnchorInv.configure {capacity : Nat} {p : ProjectId} {core : CoreService}
    (h : AnchorInv p core) {size : Int} (hkept : AnchorsKept capacity p core (.configure size)) :
    AnchorInv p (requestStep capacity p core (.configure size)) where
  inv := ⟨configure_valid h.inv.valid size, h.inv.rules, h.inv.filed⟩
  size := configure_size h.size size
  generations id := by
    show _ ≤ ((configureWindowSize p size core.window).1.updateGenerations.find p).getD 0
    rw [configure_generations]
    exact h.generations id
  anchors s t hcached :=
    hasPoint_configure h.inv.valid (fun hsize => hkept hsize s t hcached) (h.anchors s t hcached)

/-- A build keeps the invariant. -/
theorem AnchorInv.build {capacity : Nat} {p : ProjectId} {core : CoreService}
    (h : AnchorInv p core) (hp : p ≠ "") {data : TimeseriesBatch} {size : Int}
    (hkept : AnchorsKept capacity p core (.build data size)) :
    AnchorInv p (requestStep capacity p core (.build data size)) := by
  by_cases hacc : Accepted p data (some size)
  · exact
      { inv := ⟨update_valid hacc h.inv.valid, h.inv.rules, h.inv.filed⟩
        size := by
          show 0 < windowSize p (updateWindowIncremental p data (some size) core.window).1
          rw [update_windowSize hacc]
          exact hacc.size size rfl
        generations := fun id => by
          show _ ≤ ((updateWindowIncremental p data (some size) core.window).1.updateGenerations.find
            p).getD 0
          rw [update_updateGenerations hacc, effectiveProject_of_ne hp, find_put_self]
          exact le_trans (h.generations id) (le_nextGeneration _)
        anchors := fun s t hcached =>
          hasPoint_update hacc h.inv.valid (hkept hacc s t hcached) (h.anchors s t hcached) }
  · have hsame : requestStep capacity p core (.build data size) = core := by
      rw [requestStep, (update_rejected hacc core.window).1]
    rw [hsame]
    exact h

/-- A sync keeps the invariant. -/
theorem AnchorInv.sync {capacity : Nat} {p : ProjectId} {core : CoreService}
    (h : AnchorInv p core) (hp : p ≠ "") (items : List RuntimeConstraintConfig) :
    AnchorInv p (requestStep capacity p core (.sync items)) := by
  by_cases hok : isSuccessful (syncConstraints p items core).2.code = true
  · obtain ⟨constraints, -, heq⟩ := sync_success hok
    have hstates : cachedStates p (syncConstraints p items core).1 = KeyedTable.empty := by
      rw [heq]
      exact cachedStates_forgotten p core _
    have hwindow : (syncConstraints p items core).1.window = core.window := by
      rw [heq]
    refine ⟨h.inv.sync hp items, ?_, fun id => ?_, ?_⟩
    · show 0 < windowSize p (syncConstraints p items core).1.window
      rw [hwindow]
      exact h.size
    · show (stateOf id (cachedStates p (syncConstraints p items core).1)).updateGeneration ≤ _
      rw [hstates]
      exact Nat.zero_le _
    · rintro s t ⟨rule, -, -, v, hv, -⟩
      change v ∈ (stateOf _ (cachedStates p (syncConstraints p items core).1)).violations at hv
      rw [hstates] at hv
      exact absurd hv List.not_mem_nil
  · rw [requestStep, sync_failure hok]
    exact h

/-- Every request keeps the invariant. -/
theorem AnchorInv.step {capacity : Nat} {p : ProjectId} (hp : p ≠ "") {core : CoreService}
    {request : CoreRequest} (hkept : AnchorsKept capacity p core request) (h : AnchorInv p core) :
    AnchorInv p (requestStep capacity p core request) := by
  cases request with
  | ingest data => exact h.ingest hp hkept
  | configure size => exact h.configure hkept
  | build data size => exact h.build hp hkept
  | sync items => exact h.sync hp items

/-! ## The report -/

/-- The persistent report of a batch names the violation. -/
def Named (capacity : Nat) (p : ProjectId) (data : TimeseriesBatch) (core : CoreService)
    (v : ConstraintViolation) : Prop :=
  ∃ after, published capacity p data core = some after ∧
    v ∈ reportClauses (selectRules (allEnabledConstraints p core.configs) (batchReport p data core)
      (cachedStates p core)) after

/-- A named violation is cached under its id. -/
theorem cached_of_named {capacity : Nat} {p : ProjectId} {data : TimeseriesBatch}
    {core : CoreService} (h : RunInv p core) {v : ConstraintViolation}
    (hnamed : Named capacity p data core v) :
    v ∈ (stateOf v.constraintId
      (cachedStates p (processHotIngest capacity p data core).1)).violations := by
  obtain ⟨after, hpub, hreport⟩ := hnamed
  obtain ⟨key, -, hv⟩ := List.mem_flatMap.mp hreport
  simp only at hv
  split at hv
  · cases hv
  obtain ⟨rule, -, hrule⟩ := List.mem_flatMap.mp hv
  have hid := (filed_published h.filed hpub rule.constraintId).own v hrule
  rw [(process_states capacity p data core).1, hpub, hid]
  exact hrule

/-- **Every reported anchor is a point of the window**, when no point at a cached anchor
    has left the window behind the cache's back. -/
theorem reported_anchor_retained (capacity : Nat) {p : ProjectId} (hp : p ≠ "")
    {registry : RuntimeConfigRegistry} (hempty : registry.constraints = KeyedTable.empty)
    {requests : List CoreRequest} {data : TimeseriesBatch}
    (hkept : Admissible (requestStep capacity p) (AnchorsKept capacity p) { configs := registry }
      (requests ++ [.ingest data])) :
    let core := run (requestStep capacity p) { configs := registry } requests
    ∀ v, Named capacity p data core v →
      ∀ rule ∈ allEnabledConstraints p core.configs, rule.constraintId = v.constraintId →
        ∀ s, SampleRuleOn rule s →
          HasPoint p s v.anchorTime (processHotIngest capacity p data core).1.window := by
  intro core v hnamed rule hrule hid s hreads
  obtain ⟨hbefore, hlast, -⟩ := admissible_append.mp hkept
  have hinv : AnchorInv p core :=
    admissible_invariant (fun _ _ hok h => h.step hp hok) (anchorInv_start hempty) hbefore
  refine hinv.ingest_anchors hp hlast ⟨rule, ?_, hreads, v, ?_, rfl⟩
  · rw [process_configs]
    exact hrule
  · rw [cachedViolations, hid]
    exact cached_of_named hinv.inv hnamed

/-! ## One rule on `s`, and points of `t` -/

/-- With nothing derived, a batch that publishes keeps the anchors. -/
theorem anchorsKept_published {capacity : Nat} {p : ProjectId} {core : CoreService}
    {data : TimeseriesBatch} (hplain : derivedIds p core.configs = [])
    (hpub : (published capacity p data core).isSome = true) :
    AnchorsKept capacity p core (.ingest data) := by
  intro _ s t _
  refine ⟨fun hnone => ?_, fun hderived => ?_⟩
  · rw [hnone] at hpub
    cases hpub
  · rw [hplain] at hderived
    exact absurd hderived List.not_mem_nil

/-- A violation reported with a batch of another sequence. -/
theorem reported_anchor_retained_other_batch :
    let core := run (requestStep 4 "p") { configs := twoInstances }
      [.sync [boundOn "r" "s" ""], .ingest highPoint]
    ∀ v, Named 4 "p" (otherPoint 1) core v →
      ∀ rule ∈ allEnabledConstraints "p" core.configs, rule.constraintId = v.constraintId →
        ∀ s, SampleRuleOn rule s →
          HasPoint "p" s v.anchorTime (processHotIngest 4 "p" (otherPoint 1) core).1.window :=
  reported_anchor_retained 4 (by decide) rfl
    ⟨trivial, anchorsKept_published rfl (by decide +kernel),
      anchorsKept_published rfl (by decide +kernel), trivial⟩

/-- The point of `s` has left the window: its size has become 10. -/
def shrunk : CoreService :=
  run (requestStep 4 "p") { configs := twoInstances }
    [.sync [boundOn "r" "s" ""], .ingest highPoint, .ingest (otherPoint 100), .configure 10]

theorem shrunk_rules : allEnabledConstraints "p" shrunk.configs = [(boundOn "r" "s" "").rule] := by
  simp only [shrunk, run_cons, run_nil, requestStep, process_configs]
  exact violated_rules

theorem shrunk_report :
    (published 4 "p" (otherPoint 101) shrunk).map (fun after =>
      (reportClauses (selectRules (allEnabledConstraints "p" shrunk.configs)
        (batchReport "p" (otherPoint 101) shrunk) (cachedStates "p" shrunk)) after).map
          fun v => (v.constraintId, v.anchorTime)) = some [("r", 0)] := by
  decide +kernel

theorem shrunk_retained :
    retained "p" "s" (processHotIngest 4 "p" (otherPoint 101) shrunk).1.window = [] := by
  decide +kernel

/-- The next batch, a point of `t`, still reports the violation at the time of the point
    that has left. -/
theorem evicted_anchor_reported :
    let core := run (requestStep 4 "p") { configs := twoInstances }
      [.sync [boundOn "r" "s" ""], .ingest highPoint, .ingest (otherPoint 100), .configure 10]
    (boundOn "r" "s" "").rule ∈ allEnabledConstraints "p" core.configs ∧
      SampleRuleOn (boundOn "r" "s" "").rule "s" ∧
      (∃ v, Named 4 "p" (otherPoint 101) core v ∧ v.constraintId = "r" ∧ v.anchorTime = 0) ∧
      ¬ HasPoint "p" "s" 0 (processHotIngest 4 "p" (otherPoint 101) core).1.window := by
  intro core
  refine ⟨?_, ?_, ?_, ?_⟩
  · show _ ∈ allEnabledConstraints "p" shrunk.configs
    rw [shrunk_rules]
    exact List.mem_singleton_self _
  · refine ⟨fun term hterm => ?_, rfl, by decide⟩
    rw [List.mem_singleton.mp hterm]
  · obtain ⟨after, hpub, hnames⟩ := Option.map_eq_some_iff.mp shrunk_report
    obtain ⟨v, hv, hname⟩ := List.mem_map.mp (hnames.symm ▸ List.mem_singleton_self _)
    obtain ⟨hid, htime⟩ := Prod.mk.inj hname
    exact ⟨v, ⟨after, hpub, hv⟩, hid, htime⟩
  · rintro ⟨q, hq, -⟩
    change q ∈ retained "p" "s" (processHotIngest 4 "p" (otherPoint 101) shrunk).1.window at hq
    rw [shrunk_retained] at hq
    cases hq

end RetainedAnchors
