import TimeSeriesEngine.GroupScan

/-!
# One batch, seen from one rule

What `processHotIngest` leaves of the state, cut at the point where the rules are
evaluated.

* `checkedCore` — the core the constraint part starts from, if it is reached;
* `process_writes` — a batch changes the windows by its update and by writes to
  derived sequences only;
* `process_states` — the cache changes only when every group succeeds;
* `published_rule` — the entry a publication gives a single-sequence rule.
-/

namespace IngestStep

open TseTypes KeyedTable OrderedSeries SlidingWindows SeqContent HotWindow WindowContent
open WindowUpdate ConstraintCheck Registry UpdateRange DerivedSeries HotIngest IngestFrame
open ConstraintScan RuleGroups GroupScan

/-! ## Cutting a batch in two -/

/-- What the window update of a batch reports. -/
def batchReport (p : ProjectId) (data : TimeseriesBatch) (core : CoreService) :
    WindowUpdateResult :=
  (hotUpdate p data core.window).2

/-- The core the constraint part of a batch starts from, if it is reached. -/
def checkedCore (capacity : Nat) (p : ProjectId) (data : TimeseriesBatch) (core : CoreService) :
    Option CoreService :=
  let window := (hotUpdate p data core.window).1
  let update := batchReport p data core
  if !isSuccessful update.operation.code then none
  else
    match derivedStage capacity p core.configs update ⟨window, core.lastPublishedGeneration⟩ with
    | .ok (derived, _) =>
        some { core with
          window := derived.window
          lastPublishedGeneration := derived.lastPublishedGeneration }
    | .error _ => if dependsOnDerived p core.configs then none else some { core with window := window }

/-- The constraint stage on a core. -/
def stageOf (capacity : Nat) (p : ProjectId) (update : WindowUpdateResult) (core : CoreService) :
    StageResult :=
  constraintStage capacity p core.configs
    (prepareCheck p core.configs update (cachedStates p core)) update core.window
    (cachedStates p core)

/-- The cache a batch publishes, if no evaluation fails or throws. -/
def published (capacity : Nat) (p : ProjectId) (data : TimeseriesBatch) (core : CoreService) :
    Option (Table String CachedConstraintState) :=
  (checkedCore capacity p data core).bind fun checked =>
    (stageOf capacity p (batchReport p data core) checked).published

/-- A batch without a check updates the window alone. -/
theorem process_unchecked {capacity : Nat} {p : ProjectId} {data : TimeseriesBatch}
    {core : CoreService} (h : checkedCore capacity p data core = none) :
    (processHotIngest capacity p data core).1 =
      { core with window := (hotUpdate p data core.window).1 } := by
  have hupd : (hotUpdate p data core.window).2 = batchReport p data core := rfl
  simp only [checkedCore] at h
  simp only [processHotIngest, hupd]
  by_cases hok : (!isSuccessful (batchReport p data core).operation.code) = true
  · rw [if_pos hok]
  · rw [if_neg hok] at h ⊢
    -- an accepted batch stops short of the check only if the refresh throws and rules wait for it
    cases hd : derivedStage capacity p core.configs (batchReport p data core)
        ⟨(hotUpdate p data core.window).1, core.lastPublishedGeneration⟩ with
    | ok refreshed =>
        rw [hd] at h
        cases h
    | error error =>
        rw [hd] at h
        by_cases hdep : dependsOnDerived p core.configs = true
        · simp only [if_pos hdep]
        · simp only [if_neg hdep] at h
          cases h

/-- A batch with a check, stage by stage. -/
theorem process_checked {capacity : Nat} {p : ProjectId} {data : TimeseriesBatch}
    {core checked : CoreService} (h : checkedCore capacity p data core = some checked) :
    ∃ derivedResult, (processHotIngest capacity p data core).1 =
      (constraintPart capacity p (batchReport p data core) derivedResult checked).1 := by
  have hupd : (hotUpdate p data core.window).2 = batchReport p data core := rfl
  simp only [checkedCore] at h
  simp only [processHotIngest, hupd]
  by_cases hok : (!isSuccessful (batchReport p data core).operation.code) = true
  · rw [if_pos hok] at h
    cases h
  · rw [if_neg hok] at h ⊢
    cases hd : derivedStage capacity p core.configs (batchReport p data core)
        ⟨(hotUpdate p data core.window).1, core.lastPublishedGeneration⟩ with
    | ok refreshed =>
        rw [hd] at h
        rw [← Option.some.inj h]
        exact ⟨refreshed.2, rfl⟩
    | error error =>
        rw [hd] at h
        by_cases hdep : dependsOnDerived p core.configs = true
        · simp only [if_pos hdep] at h
          cases h
        · simp only [if_neg hdep] at h ⊢
          rw [← Option.some.inj h]
          exact ⟨{}, rfl⟩

/-- The core in front of the constraint part differs from the one in front of the
    batch in its windows only. -/
structure Checked (p : ProjectId) (data : TimeseriesBatch) (core checked : CoreService) :
    Prop where
  accepted : Accepted p data none
  configs : checked.configs = core.configs
  states : checked.constraintStates = core.constraintStates
  writes : WritesOnly p (derivedIds p core.configs) (hotUpdate p data core.window).1
    checked.window

/-- The state in which the rules are checked. -/
theorem checked_spec {capacity : Nat} {p : ProjectId} {data : TimeseriesBatch}
    {core checked : CoreService} (h : checkedCore capacity p data core = some checked) :
    Checked p data core checked := by
  unfold checkedCore at h
  simp only at h
  split at h
  · exact nomatch h
  rename_i hok
  have hacc : Accepted p data none := by
    by_contra hno
    refine hok ?_
    unfold batchReport hotUpdate
    rw [(update_rejected hno core.window).2]
    rfl
  split at h
  · rename_i derived result hd
    rw [← Option.some.inj h]
    exact ⟨hacc, rfl, rfl, derivedStage_writes hd⟩
  · split at h
    · exact nomatch h
    · rw [← Option.some.inj h]
      exact ⟨hacc, rfl, rfl, WritesOnly.refl _ _ _⟩

/-- With nothing selected there is nothing to evaluate. -/
theorem stageOf_nothing {capacity : Nat} {p : ProjectId} {update : WindowUpdateResult}
    {core : CoreService}
    (h : (prepareCheck p core.configs update (cachedStates p core)).selectedRules = []) :
    stageOf capacity p update core =
      { window := core.window
        published := some (cachedStates p core)
        outcome := (stageOf capacity p update core).outcome } := by
  have hselected : selectRules (allEnabledConstraints p core.configs) update
      (cachedStates p core) = [] := h
  have hevaluated : evaluatedRules (allEnabledConstraints p core.configs) update
      (cachedStates p core) = [] := by
    rw [evaluatedRules, hselected]
    rfl
  have hgroups : (prepareCheck p core.configs update (cachedStates p core)).groups = [] := by
    show addWithoutMixingOrClauses _ _ (singleRules _ _ _) ++
      addWithoutMixingOrClauses _ _ (multiRules _ _ _) = []
    rw [singleRules, multiRules, hevaluated]
    rfl
  have haggregates : (prepareCheck p core.configs update (cachedStates p core)).aggregateRules =
      [] := by
    show (evaluatedRules _ _ _).filter _ = []
    rw [hevaluated]
    rfl
  unfold stageOf constraintStage
  rw [hgroups, haggregates]
  rfl

/-- The constraint part replaces the project's cache by the published one. -/
theorem constraintPart_states (capacity : Nat) (p : ProjectId) (update : WindowUpdateResult)
    (derivedResult : OperationResult) (core : CoreService) :
    (constraintPart capacity p update derivedResult core).1.configs = core.configs ∧
      cachedStates p (constraintPart capacity p update derivedResult core).1 =
        (stageOf capacity p update core).published.getD (cachedStates p core) ∧
      ∀ p', p' ≠ p →
        cachedStates p' (constraintPart capacity p update derivedResult core).1 =
          cachedStates p' core := by
  have hkept : (prepareCheck p core.configs update (cachedStates p core)).selectedRules = [] →
      cachedStates p core =
        (stageOf capacity p update core).published.getD (cachedStates p core) := by
    intro h
    rw [stageOf_nothing h]
    rfl
  have hstage : constraintStage capacity p core.configs
      (prepareCheck p core.configs update (cachedStates p core)) update core.window
      (cachedStates p core) = stageOf capacity p update core := rfl
  generalize stageOf capacity p update core = stage at hkept hstage ⊢
  unfold constraintPart
  simp only [hstage]
  split
  · rename_i hempty
    refine ⟨rfl, hkept ?_, fun _ _ => rfl⟩
    show selectRules (allEnabledConstraints p core.configs) _ _ = []
    have hnil : allEnabledConstraints p core.configs = [] := List.isEmpty_iff.mp hempty
    rw [hnil]
    rfl
  split
  · rename_i hempty
    exact ⟨rfl, hkept (List.isEmpty_iff.mp hempty), fun _ _ => rfl⟩
  · refine ⟨rfl, ?_, fun p' hp' => ?_⟩
    · rw [cachedStates]
      cases stage.published with
      | none => rfl
      | some states =>
          rw [find_put, if_pos rfl]
          rfl
    · rw [cachedStates]
      cases stage.published with
      | none => rfl
      | some states =>
          rw [find_put_of_ne hp']
          rfl

/-! ## What a batch leaves -/

/-- A batch changes no configuration. -/
theorem process_configs (capacity : Nat) (p : ProjectId) (data : TimeseriesBatch)
    (core : CoreService) : (processHotIngest capacity p data core).1.configs = core.configs := by
  cases h : checkedCore capacity p data core with
  | none => rw [process_unchecked h]
  | some checked =>
      obtain ⟨result, heq⟩ := process_checked h
      rw [heq, (constraintPart_states ..).1, (checked_spec h).configs]

/-- **Behind its update** a batch writes derived sequences only. -/
theorem process_writes (capacity : Nat) (p : ProjectId) (data : TimeseriesBatch)
    (core : CoreService) :
    WritesOnly p (derivedIds p core.configs) (hotUpdate p data core.window).1
      (processHotIngest capacity p data core).1.window := by
  cases h : checkedCore capacity p data core with
  | none =>
      rw [process_unchecked h]
      exact WritesOnly.refl _ _ _
  | some checked =>
      obtain ⟨result, heq⟩ := process_checked h
      rw [heq]
      exact (checked_spec h).writes.trans (constraintPart_writes ..)

/-- **The cache** is published as a whole or not at all. -/
theorem process_states (capacity : Nat) (p : ProjectId) (data : TimeseriesBatch)
    (core : CoreService) :
    cachedStates p (processHotIngest capacity p data core).1 =
        (published capacity p data core).getD (cachedStates p core) ∧
      ∀ p', p' ≠ p → cachedStates p' (processHotIngest capacity p data core).1 =
        cachedStates p' core := by
  unfold published
  cases h : checkedCore capacity p data core with
  | none =>
      rw [process_unchecked h]
      exact ⟨rfl, fun _ _ => rfl⟩
  | some checked =>
      obtain ⟨result, heq⟩ := process_checked h
      obtain ⟨-, h2, h3⟩ := constraintPart_states capacity p (batchReport p data core) result
        checked
      have hsame : ∀ p', cachedStates p' checked = cachedStates p' core := fun p' => by
        rw [cachedStates, (checked_spec h).states]
        rfl
      rw [heq]
      refine ⟨?_, fun p' hp' => (h3 p' hp').trans (hsame p')⟩
      rw [h2, hsame]
      rfl

/-! ## The points of a sequence -/

/-- The update keeps the windows valid. -/
theorem hotUpdate_valid (p : ProjectId) (data : TimeseriesBatch) {service : WindowService}
    (hv : AllValid service.sequenceWindows) :
    AllValid (hotUpdate p data service).1.sequenceWindows := by
  by_cases hacc : Accepted p data none
  · exact update_valid hacc hv
  · unfold hotUpdate
    rw [(update_rejected hacc service).1]
    exact hv

/-- An accepted update leaves nothing in front of the window start. -/
theorem hotUpdate_pruned {p : ProjectId} {data : TimeseriesBatch} (hacc : Accepted p data none)
    {service : WindowService} (hv : AllValid service.sequenceWindows) (s : SequenceId) :
    PrunedAt p (scopedSequenceKey p s) (hotUpdate p data service).1 := by
  intro _ watermark hw q hq
  have hwm := update_watermarks hacc service
  unfold hotUpdate at hw hq ⊢
  rw [hwm, find_put, if_pos rfl] at hw
  rw [update_windowSize hacc, ← Option.some.inj hw]
  have hret := update_retained hacc hv s
  unfold retained at hret
  rw [hret] at hq
  exact of_decide_eq_true (List.mem_filter.mp hq).2

/-- What a write to other sequences leaves of a pruned one. -/
theorem retained_kept {p : ProjectId} {ids : List SequenceId} {before after : WindowService}
    (h : WritesOnly p ids before after) (hv : AllValid before.sequenceWindows) {s : SequenceId}
    (hs : s ∉ ids) (hpruned : PrunedAt p (scopedSequenceKey p s) before) :
    retained p s after = retained p s before := by
  refine h.kept hv _ (fun t ht he => hs ?_) hpruned
  rw [scopedSequenceKey_inj.mp he]
  exact ht

/-- The points of a sequence after an accepted batch. -/
def retainedAfter (p : ProjectId) (s : SequenceId) (data : TimeseriesBatch)
    (service : WindowService) : List RawTimeseriesPoint :=
  (grown p s data service).filter fun q => decide (startAfter p data none service ≤ q.time)

theorem hotUpdate_retained {p : ProjectId} {data : TimeseriesBatch} (hacc : Accepted p data none)
    {service : WindowService} (hv : AllValid service.sequenceWindows) (s : SequenceId) :
    retained p s (hotUpdate p data service).1 = retainedAfter p s data service :=
  update_retained hacc hv s

/-- The derived stage keeps what the update has retained of other sequences. -/
theorem checked_retained {capacity : Nat} {p : ProjectId} {data : TimeseriesBatch}
    {core checked : CoreService} (h : checkedCore capacity p data core = some checked)
    (hv : AllValid core.window.sequenceWindows) {s : SequenceId}
    (hs : s ∉ derivedIds p core.configs) :
    retained p s checked.window = retainedAfter p s data core.window := by
  have hc := checked_spec h
  rw [← hotUpdate_retained hc.accepted hv s]
  exact retained_kept hc.writes (hotUpdate_valid p data hv) hs (hotUpdate_pruned hc.accepted hv s)

/-- What is retained of a sequence that is not derived, after a batch. -/
theorem process_retained {capacity : Nat} {p : ProjectId} {data : TimeseriesBatch}
    (hacc : Accepted p data none) {core : CoreService}
    (hv : AllValid core.window.sequenceWindows) {s : SequenceId}
    (hs : s ∉ derivedIds p core.configs) :
    retained p s (processHotIngest capacity p data core).1.window =
      retainedAfter p s data core.window := by
  rw [← hotUpdate_retained hacc hv s]
  exact retained_kept (process_writes capacity p data core) (hotUpdate_valid p data hv) hs
    (hotUpdate_pruned hacc hv s)

/-- A rejected batch changes nothing. -/
theorem process_rejected {capacity : Nat} {p : ProjectId} {data : TimeseriesBatch}
    (hacc : ¬ Accepted p data none) (core : CoreService) :
    (processHotIngest capacity p data core).1 = core := by
  have hnone : checkedCore capacity p data core = none := by
    cases h : checkedCore capacity p data core with
    | none => rfl
    | some checked => exact absurd (checked_spec h).accepted hacc
  rw [process_unchecked hnone, hotUpdate, (update_rejected hacc core.window).1]

/-! ## The entry of one rule -/

/-- Everything the constraint path reads about a rule on one sequence is in order. -/
structure RuleSetup (p : ProjectId) (r : ConstraintRule) (s : SequenceId) (core : CoreService) :
    Prop where
  project : p ≠ ""
  valid : AllValid core.window.sequenceWindows
  size : 0 < windowSize p core.window
  ids : ((allEnabledConstraints p core.configs).map ConstraintRule.constraintId).Nodup
  enabled : r ∈ allEnabledConstraints p core.configs
  reads : SampleRuleOn r s
  plain : s ∉ derivedIds p core.configs
  generation : (stateOf r.constraintId (cachedStates p core)).updateGeneration ≤
    (core.window.updateGenerations.find p).getD 0

theorem RuleSetup.sequenceIds {p : ProjectId} {r : ConstraintRule} {s : SequenceId}
    {core : CoreService} (h : RuleSetup p r s core) :
    sequenceIdsFor (allEnabledConstraints p core.configs) r = [s] := by
  rw [sequenceIdsFor_of_mem h.ids h.enabled]
  exact mappedSequenceIds_single h.reads

theorem batch_reported {p : ProjectId} {data : TimeseriesBatch} (hacc : Accepted p data none)
    {core : CoreService} (hv : AllValid core.window.sequenceWindows) :
    Reported p data none core.window (batchReport p data core) :=
  update_reported hacc hv

/-- A state that is not newer is replaced. -/
theorem publishedState_fresh {update : WindowUpdateResult}
    {execution : ConstraintGroupExecution} {id : String} {state : CachedConstraintState}
    (h : state.updateGeneration ≤ update.updateGeneration) :
    publishedState update execution id state =
      { violations :=
          assignAll ConstraintViolation.anchorTime
            (execution.result.violations.filter fun violation => violation.constraintId = id)
            (keptViolations update execution.range state.violations)
        updateGeneration := update.updateGeneration
        initialized := true } := by
  unfold publishedState
  rw [if_neg]
  simp [Nat.not_lt.mpr h]

/-- The window state the rules of a batch are checked on. -/
theorem checked_window {capacity : Nat} {p : ProjectId} {data : TimeseriesBatch}
    {core checked : CoreService} (h : checkedCore capacity p data core = some checked)
    (hv : AllValid core.window.sequenceWindows) (hsize : 0 < windowSize p core.window) :
    AllValid checked.window.sequenceWindows ∧
      checked.window.watermarks.find (effectiveProject p) =
        some (watermarkAfter p data core.window) ∧
      windowSize p checked.window = windowSize p core.window ∧
      0 < windowSize p checked.window ∧
      cachedStates p checked = cachedStates p core := by
  have hc := checked_spec h
  have hsz : windowSize p checked.window = windowSize p core.window := by
    rw [hc.writes.windowSize, hotUpdate, update_windowSize hc.accepted]
    rfl
  refine ⟨hc.writes.valid (hotUpdate_valid p data hv), ?_, hsz, hsz ▸ hsize, ?_⟩
  · rw [hc.writes.watermarks, hotUpdate, update_watermarks hc.accepted, find_put, if_pos rfl]
  · rw [cachedStates, hc.states]
    rfl

/-- The execution of a group, and the entry its publication gives a rule of it. -/
theorem published_execution {capacity : Nat} {p : ProjectId} {registry : RuntimeConfigRegistry}
    {update : WindowUpdateResult} {service : WindowService}
    {states after : Table String CachedConstraintState}
    (hids : ((allEnabledConstraints p registry).map ConstraintRule.constraintId).Nodup)
    {r : ConstraintRule} {group : ConstraintGroupSpec}
    (hgroup : group ∈ (prepareCheck p registry update states).groups) (hrule : r ∈ group.rules)
    (hpub : (constraintStage capacity p registry (prepareCheck p registry update states) update
      service states).published = some after) :
    ∃ execution, runGroup capacity p registry (allEnabledConstraints p registry) service group =
        .ok execution ∧
      isSuccessful execution.result.operation.code = true ∧ execution.range = group.range ∧
      stateOf r.constraintId after =
        publishedState update execution r.constraintId (stateOf r.constraintId states) := by
  unfold constraintStage at hpub
  simp only at hpub
  split at hpub
  · exact nomatch hpub
  rename_i grouped hrun
  split at hpub
  · exact nomatch hpub
  rename_i hfailed
  obtain ⟨hrules, hexec⟩ := runGroups_spec hrun
  obtain ⟨execution, hmem, hrunGroup⟩ := hexec group hgroup
  obtain ⟨herules, herange⟩ := runGroup_rules hrunGroup
  have hmemAll : execution ∈ grouped ++ (runAggregates p
      (prepareCheck p registry update states).enabledRules
      (prepareCheck p registry update states).aggregateRules service).2 :=
    List.mem_append.mpr (Or.inl hmem)
  have hok : isSuccessful execution.result.operation.code = true := by
    have := List.find?_eq_none.mp hfailed execution hmemAll
    simpa using this
  refine ⟨execution, hrunGroup, hok, herange, ?_⟩
  rw [← Option.some.inj hpub]
  refine publishExecutions_state ?_ hmemAll (by rw [herules]; exact hrule) states
  -- every evaluated rule is published once
  rw [List.flatMap_append, hrules, runAggregates_rules]
  have hperm := plan_rules_perm p registry update states
  exact (hperm.map ConstraintRule.constraintId).nodup_iff.mpr
    (evaluatedRules_nodup hids update states)

/-- **The entry a publication gives a single-sequence rule.** -/
theorem published_rule {capacity : Nat} {p : ProjectId} {registry : RuntimeConfigRegistry}
    {update : WindowUpdateResult} {service : WindowService}
    {states after : Table String CachedConstraintState}
    (hids : ((allEnabledConstraints p registry).map ConstraintRule.constraintId).Nodup)
    (hv : AllValid service.sequenceWindows) {watermark : Timestamp}
    (hwm : service.watermarks.find (effectiveProject p) = some watermark)
    (hsize : 0 < windowSize p service) {r : ConstraintRule} {s : SequenceId}
    (hr : SampleRuleOn r s) {group : ConstraintGroupSpec}
    (hgroup : group ∈ (prepareCheck p registry update states).groups)
    (hsingle : SingleGroup (allEnabledConstraints p registry) update group.rules group)
    (hrule : r ∈ group.rules)
    (hend : ∀ range, group.range = some range →
      ∀ q ∈ groupSlice p service watermark group s, q.time ≤ range.endTime)
    (hpub : (constraintStage capacity p registry (prepareCheck p registry update states) update
      service states).published = some after) :
    ∃ execution scanned, execution.range = group.range ∧
      Scanned p r s group.range (groupSlice p service watermark group s) execution scanned ∧
      stateOf r.constraintId after =
        publishedState update execution r.constraintId (stateOf r.constraintId states) := by
  obtain ⟨execution, hrun, hok, hrange, hentry⟩ := published_execution hids hgroup hrule hpub
  obtain ⟨scanned, hscan⟩ := runGroup_scan hids hv hwm hsize hsingle hrule hr hrun hok hend
  exact ⟨execution, scanned, hrange, hscan, hentry⟩

theorem published_accepted {capacity : Nat} {p : ProjectId} {data : TimeseriesBatch}
    {core : CoreService} {after : Table String CachedConstraintState}
    (h : published capacity p data core = some after) : Accepted p data none := by
  obtain ⟨checked, hchecked, -⟩ := Option.bind_eq_some_iff.mp h
  exact (checked_spec hchecked).accepted

/-- A rule that is not evaluated keeps its entry. -/
theorem published_unevaluated {capacity : Nat} {p : ProjectId} {data : TimeseriesBatch}
    {core : CoreService}
    (hids : ((allEnabledConstraints p core.configs).map ConstraintRule.constraintId).Nodup)
    {r : ConstraintRule} (hr : r ∈ allEnabledConstraints p core.configs)
    (hno : r ∉ evaluatedRules (allEnabledConstraints p core.configs) (batchReport p data core)
      (cachedStates p core)) {after : Table String CachedConstraintState}
    (hpub : published capacity p data core = some after) :
    stateOf r.constraintId after = stateOf r.constraintId (cachedStates p core) := by
  obtain ⟨checked, hchecked, hstage⟩ := Option.bind_eq_some_iff.mp hpub
  have hc := checked_spec hchecked
  have hstates : cachedStates p checked = cachedStates p core := by
    rw [cachedStates, hc.states]
    rfl
  unfold stageOf constraintStage at hstage
  rw [hc.configs, hstates] at hstage
  simp only at hstage
  split at hstage
  · exact nomatch hstage
  rename_i grouped hrun
  split at hstage
  · exact nomatch hstage
  rw [← Option.some.inj hstage]
  refine publishExecutions_other (fun hin => hno ?_) _
  -- the published rules are the evaluated ones
  rw [List.flatMap_append, (runGroups_spec hrun).1, runAggregates_rules] at hin
  have hperm := plan_rules_perm p core.configs (batchReport p data core) (cachedStates p core)
  obtain ⟨q, hq, hqid⟩ := List.mem_map.mp ((hperm.map ConstraintRule.constraintId).mem_iff.mp hin)
  have h1 := find_of_nodup hids (evaluatedRules_subset hq)
  rw [hqid, find_of_nodup hids hr] at h1
  rw [Option.some.inj h1]
  exact hq

/-- A rule that is not evaluated keeps its state. -/
theorem published_other {capacity : Nat} {p : ProjectId} {data : TimeseriesBatch}
    {r : ConstraintRule} {s : SequenceId} {core : CoreService} (hset : RuleSetup p r s core)
    (hno : r ∉ evaluatedRules (allEnabledConstraints p core.configs) (batchReport p data core)
      (cachedStates p core)) {after : Table String CachedConstraintState}
    (hpub : published capacity p data core = some after) :
    stateOf r.constraintId after = stateOf r.constraintId (cachedStates p core) :=
  published_unevaluated hset.ids hset.enabled hno hpub

/-- The part of the retained points inside the default live window. -/
def liveAfter (p : ProjectId) (s : SequenceId) (data : TimeseriesBatch)
    (service : WindowService) : List RawTimeseriesPoint :=
  (retainedAfter p s data service).filter fun q =>
    decide (liveStart (watermarkAfter p data service) (windowSize p service) ≤ q.time) &&
      decide (q.time < liveEnd (watermarkAfter p data service))

/-- **An evaluation without a range** looks at the default live window. -/
theorem published_full {capacity : Nat} {p : ProjectId} {data : TimeseriesBatch}
    {r : ConstraintRule} {s : SequenceId} {core : CoreService} (hset : RuleSetup p r s core)
    (heval : r ∈ evaluatedRules (allEnabledConstraints p core.configs) (batchReport p data core)
      (cachedStates p core))
    (hrange : ruleRange (allEnabledConstraints p core.configs) (batchReport p data core) r = none)
    {after : Table String CachedConstraintState}
    (hpub : published capacity p data core = some after) :
    (∀ w ∈ windows (maximumOffset r) (liveAfter p s data core.window), Readable r w) ∧
      stateOf r.constraintId after =
        { violations := violationsOver r (liveAfter p s data core.window)
          updateGeneration := (batchReport p data core).updateGeneration
          initialized := true } := by
  obtain ⟨checked, hchecked, hstage⟩ := Option.bind_eq_some_iff.mp hpub
  have hc := checked_spec hchecked
  obtain ⟨hv, hwm, hsame, hsize, hstates⟩ := checked_window hchecked hset.valid hset.size
  have hrep := batch_reported hc.accepted hset.valid
  have hretained := checked_retained hchecked hset.valid hset.plain
  unfold stageOf at hstage
  rw [hc.configs, hstates] at hstage
  have hsingleRule : r ∈ singleRules (allEnabledConstraints p core.configs)
      (batchReport p data core) (cachedStates p core) := by
    refine List.mem_filter.mpr ⟨heval, ?_⟩
    rw [isAggregate_samples hset.reads.samples, hset.sequenceIds]
    rfl
  obtain ⟨group, hgroup, hrule, hsingle⟩ := group_of_rule hset.ids hsingleRule
  have hnone : group.range = none := by
    rcases hsingle.range with ⟨hall, -⟩ | ⟨-, hnone⟩
    · have := hall r hrule
      rw [hrange] at this
      exact nomatch this
    · exact hnone
  obtain ⟨execution, scanned, herange, hscan, hentry⟩ := published_rule hset.ids hv hwm hsize
    hset.reads hgroup hsingle hrule (fun range h => by rw [hnone] at h; exact nomatch h) hstage
  have hslice : groupSlice p checked.window (watermarkAfter p data core.window) group s =
      liveAfter p s data core.window := by
    have hquery : group = makeGroup (allEnabledConstraints p core.configs) group.rules none := by
      rw [← hnone]
      exact hsingle.shape
    rw [hquery, groupSlice]
    show sliceOf (liveStart _ (windowSize p checked.window)) (liveEnd _) 0 0 _ = _
    rw [sliceOf_range (ascending_retained hv p s), hretained, hsame]
    rfl
  have hscanned : scanned = liveAfter p s data core.window := (hscan.full hnone).trans hslice
  have hasc : Ascending RawTimeseriesPoint.time (liveAfter p s data core.window) :=
    ((ascending_grown hset.valid p s data).filter _ _).filter _ _
  have hgen : (stateOf r.constraintId (cachedStates p core)).updateGeneration ≤
      (batchReport p data core).updateGeneration := by
    rw [hrep.updateGeneration, effectiveProject_of_ne hset.project]
    exact le_trans hset.generation (le_nextGeneration _)
  refine ⟨fun w hw => hscan.readable w (by rw [hscanned]; exact hw), ?_⟩
  rw [hentry, publishedState_fresh hgen, hscan.violations, hscanned, herange, hnone]
  rw [keptViolations, (ascending_violationsOver r hasc).assignAll_empty]

/-! ## The setup is kept -/

/-- What every publication of a rule keeps, a publication of all keeps. -/
theorem publishExecutions_invariant {update : WindowUpdateResult}
    {P : CachedConstraintState → Prop} (id : String)
    (hP : ∀ execution state, P state → P (publishedState update execution id state))
    (executions : List ConstraintGroupExecution) {states : Table String CachedConstraintState}
    (h : P (stateOf id states)) : P (stateOf id (publishExecutions update executions states)) := by
  have hrules : ∀ (execution : ConstraintGroupExecution) (rules : List ConstraintRule)
      (states : Table String CachedConstraintState), P (stateOf id states) →
        P (stateOf id (rules.foldl (publishRule update execution) states)) := by
    intro execution rules
    induction rules with
    | nil => exact fun _ h => h
    | cons rule rules ih =>
        intro states hs
        refine ih _ ?_
        rw [stateOf_publishRule]
        split
        · rename_i he
          rw [← he]
          exact hP execution _ hs
        · exact hs
  induction executions generalizing states with
  | nil => exact h
  | cons execution executions ih => exact ih (hrules execution execution.rules states h)

/-- A property that every publication keeps holds after the batch. -/
theorem published_invariant {capacity : Nat} {p : ProjectId} {data : TimeseriesBatch}
    {core : CoreService} {P : CachedConstraintState → Prop} (id : String)
    (hP : ∀ execution state, P state →
      P (publishedState (batchReport p data core) execution id state))
    (h : P (stateOf id (cachedStates p core))) {after : Table String CachedConstraintState}
    (hpub : published capacity p data core = some after) : P (stateOf id after) := by
  obtain ⟨checked, hchecked, hstage⟩ := Option.bind_eq_some_iff.mp hpub
  have hstates : cachedStates p checked = cachedStates p core := by
    rw [cachedStates, (checked_spec hchecked).states]
    rfl
  unfold stageOf constraintStage at hstage
  simp only at hstage
  split at hstage
  · exact nomatch hstage
  split at hstage
  · exact nomatch hstage
  · rw [← Option.some.inj hstage, hstates]
    exact publishExecutions_invariant id hP _ h

/-- A published state has no later generation. -/
theorem publishedState_generation {update : WindowUpdateResult} {n : Nat}
    (hn : update.updateGeneration ≤ n) (execution : ConstraintGroupExecution) (id : String)
    {state : CachedConstraintState} (h : state.updateGeneration ≤ n) :
    (publishedState update execution id state).updateGeneration ≤ n := by
  unfold publishedState
  split
  · exact h
  · exact hn

theorem process_valid (capacity : Nat) (p : ProjectId) (data : TimeseriesBatch)
    {core : CoreService} (hv : AllValid core.window.sequenceWindows) :
    AllValid (processHotIngest capacity p data core).1.window.sequenceWindows :=
  (process_writes capacity p data core).valid (hotUpdate_valid p data hv)

/-- A batch keeps the sizes of the windows. -/
theorem process_windowSize (capacity : Nat) (p p' : ProjectId) (data : TimeseriesBatch)
    (core : CoreService) :
    windowSize p' (processHotIngest capacity p data core).1.window =
      windowSize p' core.window := by
  rw [(process_writes capacity p data core).windowSize]
  by_cases hacc : Accepted p data none
  · rw [windowSize, hotUpdate, update_windowSizes hacc]
    rfl
  · rw [hotUpdate, (update_rejected hacc core.window).1]

/-- The generation of a project never decreases. -/
theorem process_generation (capacity : Nat) {p : ProjectId} (hp : p ≠ "")
    (data : TimeseriesBatch) (core : CoreService) :
    (core.window.updateGenerations.find p).getD 0 ≤
        ((processHotIngest capacity p data core).1.window.updateGenerations.find p).getD 0 ∧
      (Accepted p data none →
        (((processHotIngest capacity p data core).1.window.updateGenerations.find p).getD 0) =
          nextGeneration ((core.window.updateGenerations.find p).getD 0)) := by
  rw [(process_writes capacity p data core).updateGenerations]
  by_cases hacc : Accepted p data none
  · have heq : ((hotUpdate p data core.window).1.updateGenerations.find p).getD 0 =
        nextGeneration ((core.window.updateGenerations.find p).getD 0) := by
      rw [hotUpdate, update_updateGenerations hacc, effectiveProject_of_ne hp, find_put,
        if_pos rfl]
      rfl
    exact ⟨heq ▸ le_nextGeneration _, fun _ => heq⟩
  · rw [hotUpdate, (update_rejected hacc core.window).1]
    exact ⟨Nat.le_refl _, fun h => absurd h hacc⟩

/-- **A batch keeps the setup** of every rule. -/
theorem RuleSetup.process {p : ProjectId} {r : ConstraintRule} {s : SequenceId}
    {core : CoreService} (h : RuleSetup p r s core) (capacity : Nat) (data : TimeseriesBatch) :
    RuleSetup p r s (processHotIngest capacity p data core).1 := by
  have hconfigs := process_configs capacity p data core
  refine ⟨h.project, process_valid capacity p data h.valid, ?_, ?_, ?_, h.reads, ?_, ?_⟩
  · rw [process_windowSize]
    exact h.size
  · rw [hconfigs]
    exact h.ids
  · rw [hconfigs]
    exact h.enabled
  · rw [hconfigs]
    exact h.plain
  · obtain ⟨hle, hnext⟩ := process_generation capacity h.project data core
    rw [(process_states capacity p data core).1]
    cases hpub : published capacity p data core with
    | none => exact le_trans h.generation hle
    | some after =>
        have hacc := published_accepted hpub
        have hgen := (batch_reported hacc h.valid).updateGeneration
        rw [effectiveProject_of_ne h.project] at hgen
        rw [hnext hacc]
        exact published_invariant (P := fun state => state.updateGeneration ≤ _) r.constraintId
          (fun execution _ hs => publishedState_generation (le_of_eq hgen) execution _ hs)
          (le_trans h.generation (le_nextGeneration _)) hpub

/-! ## A small configuration

One project, two instances `s` and `t`, and rules that bound the sum of two
samples of `s`. -/

/-- A bound on the sum of a sample and one that comes later. -/
def sumRule (id : String) (offset : Nat) (h : offset ≤ uint64Max := by decide) :
    ConstraintRule :=
  { constraintId := id
    variableMapping := put "x" "s" KeyedTable.empty
    upperBound := some (.finite 50)
    terms :=
      [{ variableName := "x", coefficient := .finite 1 },
        { variableName := "x", coefficient := .finite 1, sampleOffset := offset,
          sampleOffset_le := h }] }

/-- Some rules on two instances. -/
def sumConfig (rules : List ConstraintRule) : RuntimeConfigRegistry :=
  (upsertConstraints "p" (rules.map fun rule => { rule := rule, enabled := true })
    (upsertInstanceConfigs "p"
      [{ sequenceId := "s", dataSourceId := "d", externalSequenceId := "s" },
        { sequenceId := "t", dataSourceId := "d", externalSequenceId := "t" }] {}).1).1

/-- A value of a sequence. -/
def sampleAt (s : SequenceId) (time : Timestamp) (value : ℚ) : RawTimeseriesPoint :=
  { time := time, sequenceId := s, value := .double (.finite value) }

/-- A value of `s` over a bound of 50. -/
def highPoint : TimeseriesBatch := { points := [sampleAt "s" 0 100] }

/-- A value of another sequence. -/
def otherPoint (t : Timestamp) : TimeseriesBatch := { points := [sampleAt "t" t 0] }

theorem sumRule_reads (id : String) (offset : Nat) (h : offset ≤ uint64Max) :
    SampleRuleOn (sumRule id offset h) "s" := by
  refine ⟨fun term hterm => ?_, rfl, by decide⟩
  rcases List.mem_cons.mp hterm with rfl | hterm
  · rfl
  · rw [List.mem_singleton.mp hterm]

end IngestStep
