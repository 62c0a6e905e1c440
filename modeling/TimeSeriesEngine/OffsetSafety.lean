import TimeSeriesEngine.ContextQuery
import TimeSeriesEngine.ConstraintCache

/-!
# Sample offsets and the context of a group

The group of a batch asks for one point more in front of its range than the largest
offset of its rules, in 64 bits, and the query reserves that many points.  No check on the
way bounds an offset.  `capacity` is the most points a vector can reserve, its `max_size`;
memory is taken to be available.

* `SafeOffsets` — what accepted offsets should give: the context is not lost and no batch
  throws;
* `processHotIngest_returns` — a batch throws for no other reason;
* `safe_offsets_iff` — so the rules are safe iff every largest offset leaves room for one
  point more.
-/

namespace OffsetSafety

open TseTypes KeyedTable HotWindow WindowContent WindowRefinement WindowRuns StoredPoints
open ConstraintCheck Registry UpdateRange DerivedSeries HotIngest RuleGroups GroupScan
open ConstraintCache ContextQuery IngestStep Transition

/-- The offsets of a list of rules are safe where a vector can reserve `capacity` points (its
    `max_size`), memory taken to be available.  `group` is any mix of the rules. -/
structure SafeOffsets (capacity : Nat) (rules : List ConstraintRule) : Prop where
  /-- The context is one point more than the largest offset, and fits a vector. -/
  context : ∀ group ⊆ rules, ∀ range,
    (makeGroup rules group (some range)).query.precedingPoints = groupOffset group + 1 ∧
      (makeGroup rules group (some range)).query.followingPoints = groupOffset group + 1 ∧
      (makeGroup rules group (some range)).query.precedingPoints ≤ capacity
  /-- After every run the query of the group returns its context. -/
  answered : ∀ group ⊆ rules, groupSequences rules group ≠ [] → ∀ range : IncrementalRange,
    range.startTime ≤ queryEnd range.endTime → ∀ calls : List ServiceCall,
      (∀ call ∈ calls, InRange call.op) → ∀ p,
      ((run storedStep emptyStored calls).watermark (effectiveProject p)).isSome →
        ∃ r, queryWindowData capacity p (makeGroup rules group (some range)).query
            (run callStep {} calls) = .ok r ∧ r.operation.code = .ok ∧
          ∀ s ∈ groupSequences rules group, ContextAnswer
            ((run storedStep emptyStored calls).points (scopedSequenceKey p s)) range.startTime
            (queryEnd range.endTime) (groupOffset group + 1) (groupOffset group + 1)
            ((r.data.sequenceValues.find s).getD [])
  /-- No batch of a project with these rules throws. -/
  batch : ∀ p data core, allEnabledConstraints p core.configs = rules →
    ∃ result, (processHotIngest capacity p data core).2 = .ok result

/-! ## Nothing else throws -/

section Returns

variable {capacity : Nat} {p : ProjectId}

/-- A query whose context fits returns. -/
theorem queryWindowData_returns {query : WindowQuery} (h : query.precedingPoints ≤ capacity)
    (service : WindowService) : ∃ r, queryWindowData capacity p query service = .ok r := by
  unfold queryWindowData
  simp only
  split
  · exact ⟨_, rfl⟩
  split
  · exact ⟨_, rfl⟩
  split
  · exact ⟨_, rfl⟩
  split
  · exact ⟨_, rfl⟩
  split
  · exact ⟨_, rfl⟩
  split
  · exact ⟨_, rfl⟩
  split
  · rename_i hbeyond
    exact absurd hbeyond.2.1 (Nat.not_lt.mpr h)
  · exact ⟨_, rfl⟩

theorem queryFor_returns (hcap : 1 ≤ capacity) (ids : List SequenceId)
    (range : Option IncrementalRange) (service : WindowService) :
    ∃ r, queryFor capacity p ids range service = .ok r := by
  rw [queryFor]
  split
  · exact ⟨_, rfl⟩
  · have hfits : (buildQuery ids range).precedingPoints ≤ capacity := by
      cases range with
      | none => exact Nat.zero_le _
      | some range => exact hcap
    obtain ⟨r, hr⟩ := @queryWindowData_returns capacity p _ hfits service
    rw [hr]
    exact ⟨_, rfl⟩

theorem computeItems_returns (hcap : 1 ≤ capacity) (registry : RuntimeConfigRegistry)
    (update : Option WindowUpdateResult) (service : WindowService) :
    ∃ items, computeItems capacity p registry update service = .ok items := by
  rw [computeItems]
  obtain ⟨first, hfirst⟩ := @queryFor_returns capacity p hcap
    (sourceUnion ((incrementalConfigs p registry update (allDerivedSeries p registry)).map Prod.fst))
    (unionRange ((incrementalConfigs p registry update (allDerivedSeries p registry)).map Prod.snd))
    service
  obtain ⟨second, hsecond⟩ := @queryFor_returns capacity p hcap
    (sourceUnion (fullConfigs p registry update (allDerivedSeries p registry))) none service
  simp only [hfirst, hsecond]
  exact ⟨_, rfl⟩

theorem derivedStage_returns (hcap : 1 ≤ capacity) (registry : RuntimeConfigRegistry)
    (update : WindowUpdateResult) (state : DerivedState) :
    ∃ result, derivedStage capacity p registry update state = .ok result := by
  rw [derivedStage]
  split
  · exact ⟨_, rfl⟩
  · rw [refreshInternal]
    split
    · exact ⟨_, rfl⟩
    · obtain ⟨items, hitems⟩ :=
        @computeItems_returns capacity p hcap registry (some update) state.window
      rw [hitems]
      exact ⟨_, rfl⟩

/-- A group whose context fits is checked. -/
theorem runGroup_returns {group : ConstraintGroupSpec}
    (h : group.query.precedingPoints ≤ capacity) (registry : RuntimeConfigRegistry)
    (rules : List ConstraintRule) (service : WindowService) :
    ∃ execution, runGroup capacity p registry rules service group = .ok execution := by
  rw [runGroup]
  split
  · exact ⟨_, rfl⟩
  · obtain ⟨r, hr⟩ := @queryWindowData_returns capacity p _ h service
    rw [hr]
    exact ⟨_, rfl⟩

theorem runGroups_returns {groups : List ConstraintGroupSpec}
    (h : ∀ group ∈ groups, group.query.precedingPoints ≤ capacity)
    (registry : RuntimeConfigRegistry) (rules : List ConstraintRule) (service : WindowService) :
    ∃ executions, runGroups capacity p registry rules service groups = .ok executions := by
  induction groups with
  | nil => exact ⟨_, rfl⟩
  | cons group groups ih =>
      obtain ⟨execution, hexecution⟩ :=
        @runGroup_returns capacity p group (h group (List.mem_cons_self ..)) registry rules service
      obtain ⟨executions, hrest⟩ := ih fun other hother => h other (List.mem_cons_of_mem _ hother)
      rw [runGroups, hexecution, hrest]
      exact ⟨_, rfl⟩

/-! ## The groups of a batch -/

/-- A group of the plan is made of some of the rules. -/
theorem mem_addWithoutMixing {rules : List ConstraintRule} {update : WindowUpdateResult}
    {group : List ConstraintRule} {spec : ConstraintGroupSpec}
    (h : spec ∈ addWithoutMixingOrClauses rules update group) :
    ∃ members ⊆ group, ∃ range, spec = makeGroup rules members range := by
  have hadded : ∀ some, spec ∈ addRuleGroups rules update some →
      ∃ members ⊆ some, ∃ range, spec = makeGroup rules members range := by
    intro some hspec
    rcases mem_addRuleGroups hspec with ⟨-, rfl⟩ | ⟨-, rfl⟩
    · exact ⟨_, List.filter_subset_self _, _, rfl⟩
    · exact ⟨_, List.filter_subset_self _, _, rfl⟩
  unfold addWithoutMixingOrClauses at h
  rcases List.mem_append.mp h with h | h
  · obtain ⟨rule, hrule, hspec⟩ := List.mem_flatMap.mp h
    obtain ⟨members, hsub, range, rfl⟩ := hadded _ hspec
    refine ⟨members, fun q hq => ?_, range, rfl⟩
    rw [List.mem_singleton.mp (hsub hq)]
    exact (List.mem_filter.mp hrule).1
  · obtain ⟨members, hsub, range, rfl⟩ := hadded _ h
    exact ⟨members, fun q hq => (List.mem_filter.mp (hsub hq)).1, range, rfl⟩

/-- A planned group, and the rules it comes from. -/
theorem mem_plan_groups {registry : RuntimeConfigRegistry} {update : WindowUpdateResult}
    {states : Table String CachedConstraintState} {spec : ConstraintGroupSpec}
    (h : spec ∈ (prepareCheck p registry update states).groups) :
    ∃ members ⊆ allEnabledConstraints p registry, ∃ range,
      spec = makeGroup (allEnabledConstraints p registry) members range := by
  rcases List.mem_append.mp h with h | h
  · obtain ⟨members, hsub, range, rfl⟩ := mem_addWithoutMixing h
    exact ⟨members, fun q hq => evaluatedRules_subset (List.mem_filter.mp (hsub hq)).1, range, rfl⟩
  · obtain ⟨members, hsub, range, rfl⟩ := mem_addWithoutMixing h
    exact ⟨members, fun q hq => evaluatedRules_subset (List.mem_filter.mp (hsub hq)).1, range, rfl⟩

/-- The constraint stage returns when all contexts fit. -/
theorem constraintStage_returns {plan : CheckPlan}
    (h : ∀ group ∈ plan.groups, group.query.precedingPoints ≤ capacity)
    (registry : RuntimeConfigRegistry) (update : WindowUpdateResult) (service : WindowService)
    (states : Table String CachedConstraintState) :
    ∃ outcome, (constraintStage capacity p registry plan update service states).outcome =
      .ok outcome := by
  obtain ⟨executions, hexecutions⟩ :=
    @runGroups_returns capacity p plan.groups h registry plan.enabledRules service
  rw [constraintStage]
  simp only [hexecutions]
  split
  · exact ⟨_, rfl⟩
  · exact ⟨_, rfl⟩

/-- A batch returns when the context of every mix of the project's rules fits a vector. -/
theorem processHotIngest_returns (hcap : 1 ≤ capacity) {core : CoreService}
    (h : ∀ group ⊆ allEnabledConstraints p core.configs, ∀ range,
      (makeGroup (allEnabledConstraints p core.configs) group range).query.precedingPoints ≤
        capacity) (data : TimeseriesBatch) :
    ∃ result, (processHotIngest capacity p data core).2 = .ok result := by
  rw [processHotIngest]
  simp only
  split
  · exact ⟨_, rfl⟩
  obtain ⟨derived, hderived⟩ := @derivedStage_returns capacity p hcap core.configs
    (hotUpdate p data core.window).2
    ⟨(hotUpdate p data core.window).1, core.lastPublishedGeneration⟩
  rw [hderived]
  simp only
  rw [constraintPart]
  simp only
  split
  · exact ⟨_, rfl⟩
  split
  · exact ⟨_, rfl⟩
  · obtain ⟨outcome, houtcome⟩ := @constraintStage_returns capacity p
      (prepareCheck p core.configs (hotUpdate p data core.window).2 (cachedStates p core))
      (fun group hgroup => by
        obtain ⟨members, hsub, range, rfl⟩ := mem_plan_groups hgroup
        exact h members hsub range)
      core.configs (hotUpdate p data core.window).2 derived.1.window (cachedStates p core)
    refine ⟨_, (congrArg (Except.map _) houtcome).trans rfl⟩

end Returns

/-! ## Safe offsets -/

/-- The largest offset of a mix of rules. -/
theorem groupOffset_lt {capacity : Nat} (hcap : 1 ≤ capacity) {group : List ConstraintRule}
    (h : ∀ rule ∈ group, maximumOffset rule + 1 ≤ capacity) : groupOffset group + 1 ≤ capacity := by
  obtain ⟨hle, -⟩ := @ConstraintCache.foldl_max_spec _ maximumOffset (capacity - 1) group
    (fun rule hrule => Nat.le_sub_one_of_lt (h rule hrule)) 0 (Nat.zero_le _)
  have hoffset : groupOffset group ≤ capacity - 1 := hle
  omega

theorem contextPoints_exact {capacity : Nat} (hmax : capacity ≤ uint64Max)
    {group : List ConstraintRule} (h : groupOffset group + 1 ≤ capacity) :
    contextPoints group = groupOffset group + 1 := by
  rw [contextPoints, Nat.mod_eq_of_lt (by omega)]

/-- A group asks for named sequences. -/
theorem groupSequences_named {rules group : List ConstraintRule} {s : SequenceId}
    (h : s ∈ groupSequences rules group) : s ≠ "" := by
  obtain ⟨rule, -, hs⟩ := ((groupSequences_spec rules group).2 s).mp h
  rw [sequenceIdsFor] at hs
  cases hfirst : rules.find? fun first => decide (first.constraintId = rule.constraintId) with
  | none =>
      rw [hfirst] at hs
      cases hs
  | some first =>
      rw [hfirst] at hs
      exact mappedSequenceIds_named hs

/-- The offsets of a list of rules, in any mix, are safe iff each rule's largest offset
    leaves room for one point more. -/
theorem safe_offsets_iff {capacity : Nat} (hcap : 1 ≤ capacity) (hmax : capacity ≤ uint64Max)
    (rules : List ConstraintRule) :
    SafeOffsets capacity rules ↔ ∀ rule ∈ rules, maximumOffset rule + 1 ≤ capacity := by
  constructor
  · intro h rule hrule
    -- a rule may be a group by itself
    have hsub : [rule] ⊆ rules := fun q hq => List.mem_singleton.mp hq ▸ hrule
    obtain ⟨hcontext, -, hfits⟩ := h.context [rule] hsub ⟨0, 0, false⟩
    rw [hcontext] at hfits
    have hle := maximumOffset_le_groupOffset (List.mem_singleton_self rule)
    omega
  intro h
  have hgroup : ∀ group ⊆ rules, groupOffset group + 1 ≤ capacity := fun group hsub =>
    groupOffset_lt hcap fun rule hrule => h rule (hsub hrule)
  refine ⟨fun group hsub range => ?_, fun group hsub hne range horder calls hr p hw => ?_,
    fun p data core hrules => ?_⟩
  · have hexact := contextPoints_exact hmax (hgroup group hsub)
    exact ⟨hexact, hexact, le_of_eq_of_le hexact (hgroup group hsub)⟩
  · have hexact := contextPoints_exact hmax (hgroup group hsub)
    have hquery : (makeGroup rules group (some range)).query =
        contextQuery (groupSequences rules group) range.startTime (queryEnd range.endTime)
          (groupOffset group + 1) (groupOffset group + 1) false := by
      rw [makeGroup, contextQuery, hexact]
    rw [hquery]
    obtain ⟨r, hr, hok, hanswer, -⟩ := context_query_exact capacity hr p hw hne
      (fun s hs => groupSequences_named hs) (groupSequences_spec rules group).1 horder
      (hgroup group hsub) (groupOffset group + 1) false
    exact ⟨r, hr, hok, hanswer⟩
  · refine processHotIngest_returns hcap (fun group hsub range => ?_) data
    rw [hrules] at hsub ⊢
    cases range with
    | none => exact Nat.zero_le _
    | some range =>
        exact le_of_eq_of_le (contextPoints_exact hmax (hgroup group hsub)) (hgroup group hsub)

/-- Two rules within a small capacity. -/
theorem safe_offsets_iff_small : SafeOffsets 4 [sumRule "r" 1, sumRule "q" 3] :=
  (safe_offsets_iff (by decide) (by decide) _).mpr (by decide)

/-- Two accepted rules: with the one the first batch of its project throws, for the other the
    context wraps to no points at all. -/
theorem accepted_offset_throws :
    (validateConstraintRule (sumRule "r" 9223372036854775807)).isOk = true ∧
    (processHotIngest (uint64Max / 64) "p" { points := [sampleAt "s" 0 1] }
        { configs := sumConfig [sumRule "r" 9223372036854775807] }).2 =
      .error "vector::reserve" ∧
    (validateConstraintRule (sumRule "q" uint64Max)).isOk = true ∧
    (makeGroup [sumRule "q" uint64Max] [sumRule "q" uint64Max]
        (some ⟨0, 1, false⟩)).query.precedingPoints = 0 ∧
    ¬ SafeOffsets (uint64Max / 64) [sumRule "r" 9223372036854775807] ∧
    ¬ SafeOffsets (uint64Max / 64) [sumRule "q" uint64Max] := by
  refine ⟨by decide +kernel, by rfl, by decide +kernel, by decide +kernel, fun h => ?_,
    fun h => ?_⟩
  · exact absurd (h.context _ (List.Subset.refl _) ⟨0, 1, false⟩).2.2 (by decide +kernel)
  · exact absurd (h.context _ (List.Subset.refl _) ⟨0, 1, false⟩).1 (by decide +kernel)

end OffsetSafety
