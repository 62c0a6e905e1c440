import TimeSeriesEngine.ConstraintScan

/-!
# Where a violation comes from

Every violation a check returns was computed with one of its rules: it is what
`evaluateRuleAt` returns for that rule and some readings of its terms.
-/

namespace ComputedViolations

open TseTypes KeyedTable HotWindow WindowUpdate ConstraintCheck Registry UpdateRange HotIngest
open ConstraintScan

/-- The violation is an evaluation of the rule, at some time and on some values. -/
def ComputedWith (rule : ConstraintRule) (violation : ConstraintViolation) : Prop :=
  ∃ time resolve, evaluateRuleAt rule time resolve = .ok (some violation)

theorem ComputedWith.id {rule : ConstraintRule} {violation : ConstraintViolation}
    (h : ComputedWith rule violation) : violation.constraintId = rule.constraintId := by
  obtain ⟨time, resolve, h⟩ := h
  exact (evaluateRuleAt_anchor h).2

/-- A violation carries the bound of its rule. -/
theorem ComputedWith.upperBound {rule : ConstraintRule} {violation : ConstraintViolation}
    (h : ComputedWith rule violation) : violation.upperBound = rule.upperBound := by
  obtain ⟨time, resolve, h⟩ := h
  rw [evaluateRuleAt] at h
  split at h
  · cases h
  · split at h
    · cases h
    · rw [← Option.some.inj (Except.ok.inj h)]

/-! ## One rule -/

/-- All violations of a tally are the rule's. -/
def TallyOf (rule : ConstraintRule) (tally : RuleTally) : Prop :=
  ∀ violation ∈ tally.violations, ComputedWith rule violation

theorem tallyOf_empty (rule : ConstraintRule) (pending : Nat) :
    TallyOf rule { pendingCount := pending } := by
  intro violation hv
  exact absurd hv List.not_mem_nil

theorem TallyOf.evaluated {rule : ConstraintRule} {tally : RuleTally} (h : TallyOf rule tally)
    {time : Timestamp} {resolve : ConstraintTerm → SequenceId → Except String ResolvedTermValue}
    {found : Option ConstraintViolation} (hfound : evaluateRuleAt rule time resolve = .ok found) :
    TallyOf rule (tally.evaluated found) := by
  intro violation hv
  rcases List.mem_append.mp hv with hnew | hold
  · obtain rfl := Option.mem_toList.mp hnew
    exact ⟨time, resolve, hfound⟩
  · exact h violation hold

/-- The check over a window computes its tally from the rule. -/
theorem checkAnchors_computed {rule : ConstraintRule} {m : Nat} {finish : Option Timestamp}
    {points : List RawTimeseriesPoint} {tally : RuleTally}
    (h : checkAnchors rule m finish points = .ok tally) : TallyOf rule tally := by
  induction points generalizing tally with
  | nil =>
      obtain rfl := Except.ok.inj h
      exact tallyOf_empty rule 0
  | cons anchor rest ih =>
      rw [checkAnchors] at h
      split at h
      · obtain rfl := Except.ok.inj h
        exact tallyOf_empty rule 0
      split at h
      · obtain rfl := Except.ok.inj h
        exact tallyOf_empty rule 0
      split at h
      · cases h
      rename_i found hfound
      split at h
      · cases h
      rename_i later hlater
      obtain rfl := Except.ok.inj h
      exact (ih hlater).evaluated hfound

/-- The check over samples computes its tally from the rule. -/
theorem checkAlignedAnchors_computed {rule : ConstraintRule} {m : Nat} {finish : Option Timestamp}
    {samples : List AlignedSample} {tally : RuleTally}
    (h : checkAlignedAnchors rule m finish samples = .ok tally) : TallyOf rule tally := by
  induction samples generalizing tally with
  | nil =>
      obtain rfl := Except.ok.inj h
      exact tallyOf_empty rule 0
  | cons anchor rest ih =>
      rw [checkAlignedAnchors] at h
      split at h
      · obtain rfl := Except.ok.inj h
        exact tallyOf_empty rule 0
      split at h
      · obtain rfl := Except.ok.inj h
        exact tallyOf_empty rule 0
      split at h
      · split at h
        · split at h
          · cases h
          rename_i later hlater
          rw [← Except.ok.inj h]
          intro violation hv
          exact ih hlater violation hv
        · cases h
      · rename_i found hfound
        split at h
        · cases h
        rename_i later hlater
        obtain rfl := Except.ok.inj h
        exact (ih hlater).evaluated hfound

theorem evaluateAggregateRule_computed {rule : ConstraintRule} {data : WindowStatisticsData}
    {tally : RuleTally} (h : evaluateAggregateRule rule data = .ok tally) : TallyOf rule tally := by
  rw [evaluateAggregateRule] at h
  split at h
  · obtain rfl := Except.ok.inj h
    exact tallyOf_empty rule 1
  split at h
  · cases h
  rename_i found hfound
  obtain rfl := Except.ok.inj h
  exact (tallyOf_empty rule 0).evaluated hfound

/-- One rule over a window. -/
theorem checkWindowRule_computed {data : WindowData} {range : Option ConstraintCheckRange}
    {rule : ConstraintRule} {tally : RuleTally}
    (h : checkWindowRule data range rule = .ok tally) : TallyOf rule tally := by
  rw [checkWindowRule] at h
  split at h
  · cases h
  split at h
  · split at h
    · cases h
    split at h
    · cases h
    rename_i hrun
    obtain rfl := Except.ok.inj h
    exact evaluateAggregateRule_computed hrun
  split at h
  · cases h
  split at h
  · cases h
  split at h
  · obtain rfl := Except.ok.inj h
    exact tallyOf_empty rule 0
  split at h
  · cases h
  rename_i hrun
  obtain rfl := Except.ok.inj h
  exact checkAnchors_computed hrun

/-- One rule over aligned samples. -/
theorem checkAlignedRule_computed {data : AlignedWindowData} {range : Option ConstraintCheckRange}
    {rule : ConstraintRule} {tally : RuleTally}
    (h : checkAlignedRule data range rule = .ok tally) : TallyOf rule tally := by
  rw [checkAlignedRule] at h
  split at h
  · cases h
  split at h
  · cases h
  split at h
  · obtain rfl := Except.ok.inj h
    exact tallyOf_empty rule 0
  split at h
  · cases h
  rename_i hrun
  obtain rfl := Except.ok.inj h
  exact checkAlignedAnchors_computed hrun

/-- One rule over statistics. -/
theorem checkStatisticsRule_computed {data : WindowStatisticsData} {rule : ConstraintRule}
    {tally : RuleTally} (h : checkStatisticsRule data rule = .ok tally) : TallyOf rule tally := by
  rw [checkStatisticsRule] at h
  split at h
  · cases h
  split at h
  · cases h
  split at h
  · cases h
  rename_i hrun
  obtain rfl := Except.ok.inj h
  exact evaluateAggregateRule_computed hrun

/-! ## A list of rules -/

/-- Every violation was computed with a rule of the list. -/
def FromRules (rules : List ConstraintRule) (violations : List ConstraintViolation) : Prop :=
  ∀ violation ∈ violations, ∃ rule ∈ rules, ComputedWith rule violation

theorem fromRules_nil (rules : List ConstraintRule) : FromRules rules [] := by
  intro violation hv
  exact absurd hv List.not_mem_nil

theorem FromRules.append {rules : List ConstraintRule} {xs ys : List ConstraintViolation}
    (hxs : FromRules rules xs) (hys : FromRules rules ys) : FromRules rules (xs ++ ys) := by
  intro violation hv
  rcases List.mem_append.mp hv with hx | hy
  · exact hxs violation hx
  · exact hys violation hy

theorem FromRules.mono {rules others : List ConstraintRule} {violations : List ConstraintViolation}
    (h : FromRules rules violations) (hsub : rules ⊆ others) : FromRules others violations := by
  intro violation hv
  obtain ⟨rule, hrule, hcomputed⟩ := h violation hv
  exact ⟨rule, hsub hrule, hcomputed⟩

/-- A violation of a result comes from one of the outcomes. -/
theorem mem_combine {p : ProjectId} {outcomes : List RuleCheckOutcome}
    {violation : ConstraintViolation} (h : violation ∈ (combineRuleOutcomes p outcomes).violations) :
    ∃ outcome ∈ outcomes, violation ∈ outcome.tally.violations := by
  obtain ⟨key, -, hv⟩ := List.mem_flatMap.mp h
  rw [clauseViolations] at hv
  split at hv
  · cases hv
  · obtain ⟨outcome, houtcome, hmem⟩ := List.mem_flatMap.mp hv
    exact ⟨outcome, (List.mem_filter.mp houtcome).1, hmem⟩

/-- The violations of a finished check come from its rules. -/
theorem finishCheck_computed (p : ProjectId) (rules : List ConstraintRule)
    {one : ConstraintRule → Except OperationResult RuleTally}
    (hone : ∀ rule tally, one rule = .ok tally → TallyOf rule tally) :
    FromRules rules (finishCheck p (checkRules one rules)).violations := by
  cases hrun : checkRules one rules with
  | error operation => exact fromRules_nil rules
  | ok outcomes =>
      intro violation hv
      obtain ⟨hmap, hall⟩ := checkRules_ok hrun
      obtain ⟨outcome, houtcome, hmem⟩ := mem_combine hv
      refine ⟨outcome.rule, ?_, hone _ _ (hall outcome houtcome) violation hmem⟩
      rw [← hmap]
      exact List.mem_map_of_mem houtcome

/-- The violations of a window check come from its rules. -/
theorem checkWindow_computed (p : ProjectId) (rules : List ConstraintRule) (data : WindowData)
    (range : Option ConstraintCheckRange) :
    FromRules rules (checkWindow p rules data range).violations := by
  rw [checkWindow]
  split
  · exact fromRules_nil rules
  split
  · exact fromRules_nil rules
  split
  · exact fromRules_nil rules
  split
  · exact fromRules_nil rules
  · exact finishCheck_computed p rules fun _ _ h => checkWindowRule_computed h

theorem checkAligned_computed (p : ProjectId) (rules : List ConstraintRule)
    (data : AlignedWindowData) (range : Option ConstraintCheckRange) :
    FromRules rules (checkAligned p rules data range).violations := by
  rw [checkAligned]
  split
  · exact fromRules_nil rules
  split
  · exact fromRules_nil rules
  split
  · exact fromRules_nil rules
  split
  · exact fromRules_nil rules
  split
  · exact fromRules_nil rules
  · exact finishCheck_computed p rules fun _ _ h => checkAlignedRule_computed h

theorem checkStatistics_computed (p : ProjectId) (rules : List ConstraintRule)
    (data : WindowStatisticsData) : FromRules rules (checkStatistics p rules data).violations := by
  rw [checkStatistics]
  split
  · exact fromRules_nil rules
  split
  · exact fromRules_nil rules
  · exact finishCheck_computed p rules fun _ _ h => checkStatisticsRule_computed h

/-! ## A group and an aggregate -/

/-- The rules over several sequences. -/
theorem checkMultiRules_computed (p : ProjectId) (registry : RuntimeConfigRegistry)
    (multi : List ConstraintRule) (data : WindowData) (range : Option IncrementalRange) :
    FromRules multi (checkMultiRules p registry multi data range).violations := by
  unfold checkMultiRules
  cases range with
  | none =>
      simp only
      split
      · exact fromRules_nil multi
      · exact checkAligned_computed p multi _ _
  | some range =>
      simp only
      split
      · exact fromRules_nil multi
      · exact checkAligned_computed p multi _ _

/-- A continuous check. -/
theorem runContinuous_computed (p : ProjectId) (registry : RuntimeConfigRegistry)
    (rules group : List ConstraintRule) (data : WindowData) (range : Option IncrementalRange) :
    FromRules group (runContinuousConstraintCheck p registry rules group data range).violations := by
  rw [runContinuousConstraintCheck]
  split
  · exact fromRules_nil group
  simp only
  have hsub : ∀ keep chosen : ConstraintRule → Bool, (group.filter keep).filter chosen ⊆ group :=
    fun keep chosen => (List.filter_sublist.trans List.filter_sublist).subset
  generalize hsingle : (if ((group.filter fun rule => !(sequenceIdsFor rules rule).isEmpty &&
        containsAllSequences data (sequenceIdsFor rules rule)).filter fun rule =>
          decide ((sequenceIdsFor rules rule).length = 1)).isEmpty = true then
      ({ operation := okResult 0 "" } : ConstraintCheckResult)
    else checkSingleRules p rules ((group.filter fun rule => !(sequenceIdsFor rules rule).isEmpty &&
        containsAllSequences data (sequenceIdsFor rules rule)).filter fun rule =>
          decide ((sequenceIdsFor rules rule).length = 1)) data range) = singleResult
  have hfrom : FromRules group singleResult.violations := by
    rw [← hsingle]
    split
    · exact fromRules_nil group
    · exact (checkWindow_computed p _ data _).mono (hsub _ _)
  split
  · exact hfrom
  split
  · exact hfrom
  split
  · exact hfrom
  split
  · exact (checkMultiRules_computed p registry _ data range).mono (hsub _ _)
  · exact hfrom.append ((checkMultiRules_computed p registry _ data range).mono (hsub _ _))

/-- A group reports violations of its own rules. -/
theorem runGroup_computed {capacity : Nat} {p : ProjectId} {registry : RuntimeConfigRegistry}
    {rules : List ConstraintRule} {service : WindowService} {group : ConstraintGroupSpec}
    {execution : ConstraintGroupExecution}
    (h : runGroup capacity p registry rules service group = .ok execution) :
    execution.rules = group.rules ∧ FromRules group.rules execution.result.violations := by
  rw [runGroup] at h
  split at h
  · obtain rfl := Except.ok.inj h
    exact ⟨rfl, fromRules_nil _⟩
  split at h
  · cases h
  rename_i window hwindow
  obtain rfl := Except.ok.inj h
  refine ⟨rfl, ?_⟩
  simp only
  split
  · exact fromRules_nil _
  split
  · exact fromRules_nil _
  · exact runContinuous_computed p registry rules group.rules window.data group.range

/-- An aggregate rule reports its own violations. -/
theorem runAggregate_computed (p : ProjectId) (rules : List ConstraintRule) (rule : ConstraintRule)
    (service : WindowService) :
    (runAggregate p rules rule service).2.rules = [rule] ∧
      FromRules [rule] (runAggregate p rules rule service).2.result.violations := by
  refine ⟨rfl, ?_⟩
  rw [runAggregate]
  simp only
  split
  · exact fromRules_nil _
  · exact checkStatistics_computed p [rule] _

end ComputedViolations
