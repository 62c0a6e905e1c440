import TimeSeriesEngine.Alignment
import TimeSeriesEngine.DerivedSeries

/-!
# One ingest batch through the core service

`processHotIngest` of `timeseries_core_grpc_service.cpp`: update the hot window,
refresh the derived series, evaluate the constraint rules the batch affects and
publish their violations in the per-rule cache.

The steps the code separates by locks are definitions of their own:

* `hotUpdate` — the window update;
* `prepareCheck` — the rules to evaluate, grouped, from a snapshot of the cache;
* `runGroup`, `runAggregate` — one query and one check each;
* `publishExecutions` — the cache update under `constraint_state_mutex_`.

Rule groups and an independent derived refresh run as asynchronous tasks there;
they read or write disjoint sequences, so here they run one after another.
-/

namespace HotIngest

open TseTypes KeyedTable OrderedSeries HotWindow ConstraintCheck Registry SeqAlignment
open UpdateRange DerivedSeries

/-- What the cache holds of a rule. -/
structure CachedConstraintState where
  violations : List ConstraintViolation := []
  updateGeneration : Nat := 0
  initialized : Bool := false
  deriving DecidableEq

/-- The state behind `TimeseriesCoreGrpcService`. -/
structure CoreService where
  configs : RuntimeConfigRegistry := {}
  window : WindowService := {}
  lastPublishedGeneration : Nat := 0
  constraintStates : Table ProjectId (Table String CachedConstraintState) := KeyedTable.empty

/-! ## Which rules, in which groups -/

/-- `mappedSequenceIds`. -/
def mappedSequenceIds (rule : ConstraintRule) : List SequenceId :=
  sortUnique (fun sequenceId => sequenceId)
    ((mappingTargets rule).filter fun sequenceId => !sequenceId.isEmpty)

/-- `mapped_sequence_cache.at(id)`; of two rules with one id the first is cached. -/
def sequenceIdsFor (rules : List ConstraintRule) (rule : ConstraintRule) : List SequenceId :=
  ((rules.find? fun first => first.constraintId = rule.constraintId).map
    mappedSequenceIds).getD []

/-- `sequenceWasAffected`. -/
def wasAffected (update : WindowUpdateResult) (ids : List SequenceId) : Bool :=
  touches update.changedSequenceIds ids

/-- The cache of a project. -/
def cachedStates (projectId : ProjectId) (core : CoreService) :
    Table String CachedConstraintState :=
  (core.constraintStates.find projectId).getD KeyedTable.empty

/-- The entry of a rule; none has been evaluated yet. -/
def stateOf (constraintId : String) (states : Table String CachedConstraintState) :
    CachedConstraintState :=
  (states.find constraintId).getD {}

/-- Clauses with a changed sequence or with a violation on record. -/
def affectedClauses (rules : List ConstraintRule) (update : WindowUpdateResult)
    (states : Table String CachedConstraintState) : List String :=
  (rules.filter fun rule =>
    wasAffected update (sequenceIdsFor rules rule) ||
      !(stateOf rule.constraintId states).violations.isEmpty).map clauseKey

/-- The rules a batch reports on: touched by it, or with violations on record. -/
def selectRules (rules : List ConstraintRule) (update : WindowUpdateResult)
    (states : Table String CachedConstraintState) : List ConstraintRule :=
  rules.filter fun rule =>
    !(sequenceIdsFor rules rule).isEmpty &&
      decide (clauseKey rule ∈ affectedClauses rules update states)

/-- A selected rule is evaluated when its data changed or it never was. -/
def isEvaluated (rules : List ConstraintRule) (update : WindowUpdateResult)
    (states : Table String CachedConstraintState) (rule : ConstraintRule) : Bool :=
  wasAffected update (sequenceIdsFor rules rule) ||
    !(stateOf rule.constraintId states).initialized

/-- The rule reads statistics; its first term decides. -/
def isAggregate (rule : ConstraintRule) : Bool :=
  rule.terms.head?.any fun term => isWindowAggregation term.aggregation

/-- The largest offset of the terms. -/
def maximumOffset (rule : ConstraintRule) : Nat :=
  rule.terms.foldl (fun largest term => max largest term.sampleOffset) 0

/-- The rules that are checked together, their range and their query. -/
structure ConstraintGroupSpec where
  rules : List ConstraintRule
  range : Option IncrementalRange
  query : WindowQuery

/-- The sequences of a group, each once. -/
def groupSequences (rules group : List ConstraintRule) : List SequenceId :=
  group.foldl
    (fun seen rule =>
      (sequenceIdsFor rules rule).foldl (fun seen sequenceId => pushUnique sequenceId seen) seen)
    []

/-- The largest offset of the rules. -/
def groupOffset (group : List ConstraintRule) : Nat :=
  group.foldl (fun largest rule => max largest (maximumOffset rule)) 0

/-- `maximum_offset + 1`, in 64 bits. -/
def contextPoints (group : List ConstraintRule) : Nat :=
  (groupOffset group + 1) % (uint64Max + 1)

/-- `makeGroup`: the context is one point more than the largest offset, in 64 bits. -/
def makeGroup (rules group : List ConstraintRule) (range : Option IncrementalRange) :
    ConstraintGroupSpec :=
  { rules := group
    range := range
    query :=
      match range with
      | none => { sequenceIds := groupSequences rules group }
      | some range =>
          { sequenceIds := groupSequences rules group
            startTime := some range.startTime
            endTime := some (queryEnd range.endTime)
            precedingPoints := contextPoints group
            followingPoints := contextPoints group } }

/-- The incremental range of one rule. -/
def ruleRange (rules : List ConstraintRule) (update : WindowUpdateResult)
    (rule : ConstraintRule) : Option IncrementalRange :=
  incrementalRangeFor update (sequenceIdsFor rules rule)

/-- `splitRulesBySafety`, the safe side. -/
def safeRules (rules : List ConstraintRule) (update : WindowUpdateResult)
    (group : List ConstraintRule) : List ConstraintRule :=
  group.filter fun rule => (ruleRange rules update rule).isSome

/-- The rules of a group that are checked on the whole window. -/
def unsafeRules (rules : List ConstraintRule) (update : WindowUpdateResult)
    (group : List ConstraintRule) : List ConstraintRule :=
  group.filter fun rule => (ruleRange rules update rule).isNone

/-- `addRuleGroups`. -/
def addRuleGroups (rules : List ConstraintRule) (update : WindowUpdateResult)
    (group : List ConstraintRule) : List ConstraintGroupSpec :=
  let safe := safeRules rules update group
  let other := unsafeRules rules update group
  (if safe.isEmpty then []
    else [makeGroup rules safe (unionRange (safe.filterMap (ruleRange rules update)))]) ++
  (if other.isEmpty then [] else [makeGroup rules other none])

/-- `addWithoutMixingOrClauses`: a rule of an OR group is checked alone. -/
def addWithoutMixingOrClauses (rules : List ConstraintRule) (update : WindowUpdateResult)
    (group : List ConstraintRule) : List ConstraintGroupSpec :=
  ((group.filter fun rule => !rule.orGroupId.isEmpty).flatMap fun rule =>
    addRuleGroups rules update [rule]) ++
  addRuleGroups rules update (group.filter fun rule => rule.orGroupId.isEmpty)

/-- The selected rules that are evaluated in this batch. -/
def evaluatedRules (rules : List ConstraintRule) (update : WindowUpdateResult)
    (states : Table String CachedConstraintState) : List ConstraintRule :=
  (selectRules rules update states).filter (isEvaluated rules update states)

/-- The evaluated rules on samples of one sequence. -/
def singleRules (rules : List ConstraintRule) (update : WindowUpdateResult)
    (states : Table String CachedConstraintState) : List ConstraintRule :=
  (evaluatedRules rules update states).filter fun rule =>
    !isAggregate rule && decide ((sequenceIdsFor rules rule).length = 1)

/-- The evaluated rules on samples of several sequences. -/
def multiRules (rules : List ConstraintRule) (update : WindowUpdateResult)
    (states : Table String CachedConstraintState) : List ConstraintRule :=
  (evaluatedRules rules update states).filter fun rule =>
    !isAggregate rule && decide (1 < (sequenceIdsFor rules rule).length)

/-- What is decided before any rule is evaluated. -/
structure CheckPlan where
  enabledRules : List ConstraintRule
  selectedRules : List ConstraintRule
  groups : List ConstraintGroupSpec
  aggregateRules : List ConstraintRule

/-- The rules of a batch, selected and grouped. -/
def prepareCheck (projectId : ProjectId) (registry : RuntimeConfigRegistry)
    (update : WindowUpdateResult) (states : Table String CachedConstraintState) : CheckPlan :=
  let rules := allEnabledConstraints projectId registry
  { enabledRules := rules
    selectedRules := selectRules rules update states
    groups := addWithoutMixingOrClauses rules update (singleRules rules update states) ++
      addWithoutMixingOrClauses rules update (multiRules rules update states)
    aggregateRules := (evaluatedRules rules update states).filter isAggregate }

/-! ## Evaluating a group -/

/-- `containsAllSequences`. -/
def containsAllSequences (data : WindowData) (ids : List SequenceId) : Bool :=
  ids.all fun sequenceId => (data.sequenceValues.find sequenceId).isSome

/-- `hasTwoDistinctTimestamps`. -/
def hasTwoDistinctTimestamps (data : WindowData) : Bool :=
  match data.sequenceValues.keys.flatMap fun sequenceId =>
      (data.sequenceValues.find sequenceId).getD [] with
  | [] => false
  | first :: rest => rest.any fun point => point.time ≠ first.time

/-- One turn of the loop that moves the shared range start back to the first
    anchor that reads a point of the range. -/
def walkBack (data : WindowData) (rules : List ConstraintRule) (start : Timestamp)
    (rule : ConstraintRule) : Timestamp :=
  match (sequenceIdsFor rules rule).head?.bind data.sequenceValues.find with
  | none => start
  | some points =>
      let first := (below RawTimeseriesPoint.time start points).length
      match points[first - maximumOffset rule]? with
      | none => start
      | some anchor => min start anchor.time

/-- The single-sequence part of `runContinuousConstraintCheck`. -/
def checkSingleRules (projectId : ProjectId) (rules single : List ConstraintRule)
    (data : WindowData) (range : Option IncrementalRange) : ConstraintCheckResult :=
  checkWindow projectId single data
    (range.map fun range =>
      { startTime := single.foldl (walkBack data rules) range.startTime
        endTime := range.endTime })

/-- The multi-sequence part, on data with two distinct times. -/
def checkMultiRules (projectId : ProjectId) (registry : RuntimeConfigRegistry)
    (multi : List ConstraintRule) (data : WindowData) (range : Option IncrementalRange) :
    ConstraintCheckResult :=
  let alignment :=
    match range with
    | none => alignWindowData projectId registry data
    | some range =>
        alignRange projectId registry data
          { startTime := range.startTime
            endTime := range.endTime
            prefixSamples := groupOffset multi }
  if !isSuccessful alignment.operation.code then failure alignment.operation
  else
    checkAligned projectId multi alignment.alignedData
      (range.map fun range => { startTime := range.startTime, endTime := range.endTime })

/-- The closing message. -/
def continuousMessage (satisfied : Bool) (pending : Nat) : String :=
  (if satisfied then "continuous constraint checks completed; all satisfied"
    else "continuous constraint checks completed; violations found") ++
  (if pending ≠ 0 then "; " ++ toString pending ++ " aligned samples pending" else "")

/-- The result of rules that were checked one by one. -/
def continuousResult (projectId : ProjectId) (evaluated pending : Nat)
    (violations : List ConstraintViolation) : ConstraintCheckResult :=
  { operation := okResult evaluated (continuousMessage violations.isEmpty pending)
    projectId := projectId
    evaluatedCount := evaluated
    pendingCount := pending
    satisfied := violations.isEmpty
    violations := violations }

/-- `runContinuousConstraintCheck`. -/
def runContinuousConstraintCheck (projectId : ProjectId) (registry : RuntimeConfigRegistry)
    (rules group : List ConstraintRule) (data : WindowData) (range : Option IncrementalRange) :
    ConstraintCheckResult :=
  if group.isEmpty then
    { projectId := projectId
      satisfied := true
      operation := okResult 0 "constraint check skipped: no applicable enabled rules" }
  else
    -- a rule whose sequences are not in the data yet is skipped, not failed
    let applicable := group.filter fun rule =>
      !(sequenceIdsFor rules rule).isEmpty && containsAllSequences data (sequenceIdsFor rules rule)
    let single := applicable.filter fun rule => (sequenceIdsFor rules rule).length = 1
    let multi := applicable.filter fun rule => (sequenceIdsFor rules rule).length ≠ 1
    let singleResult : ConstraintCheckResult :=
      if single.isEmpty then { operation := okResult 0 "" }
      else checkSingleRules projectId rules single data range
    if !isSuccessful singleResult.operation.code then singleResult
    else if multi.isEmpty then
      continuousResult projectId singleResult.evaluatedCount 0 singleResult.violations
    else if !hasTwoDistinctTimestamps data then
      { operation := okResult singleResult.evaluatedCount
          (if singleResult.violations.isEmpty then
            "constraint check skipped: insufficient timestamps for ordinary alignment"
          else
            "single-sequence violations found; multi-sequence check skipped due to insufficient timestamps")
        projectId := projectId
        evaluatedCount := singleResult.evaluatedCount
        satisfied := singleResult.violations.isEmpty
        violations := singleResult.violations }
    else
      let multiResult := checkMultiRules projectId registry multi data range
      if !isSuccessful multiResult.operation.code then multiResult
      else
        continuousResult projectId
          (singleResult.evaluatedCount + multiResult.evaluatedCount) multiResult.pendingCount
          (singleResult.violations ++ multiResult.violations)

/-- A group, and what its check has found. -/
structure ConstraintGroupExecution where
  rules : List ConstraintRule
  range : Option IncrementalRange := none
  result : ConstraintCheckResult

/-- `run_group`. -/
def runGroup (capacity : Nat) (projectId : ProjectId) (registry : RuntimeConfigRegistry)
    (rules : List ConstraintRule) (service : WindowService) (group : ConstraintGroupSpec) :
    Except String ConstraintGroupExecution :=
  if group.rules.isEmpty then
    .ok
      { rules := group.rules
        range := group.range
        result :=
          { satisfied := true
            operation := okResult 0 "constraint check skipped: no rules in group" } }
  else
    match queryWindowData capacity projectId group.query service with
    | .error error => .error error
    | .ok window =>
        .ok
          { rules := group.rules
            range := group.range
            result :=
              if !isSuccessful window.operation.code then failure window.operation
              else if window.data.sequenceValues.keys.isEmpty then
                { satisfied := true
                  operation :=
                    okResult 0 "constraint check skipped because group has no data" }
              else
                runContinuousConstraintCheck projectId registry rules group.rules window.data
                  group.range }

/-- The task of one aggregate rule; the query may rebuild cached statistics. -/
def runAggregate (projectId : ProjectId) (rules : List ConstraintRule) (rule : ConstraintRule)
    (service : WindowService) : WindowService × ConstraintGroupExecution :=
  let (service, statistics) :=
    queryWindowStatistics projectId (sequenceIdsFor rules rule) service
  (service,
    { rules := [rule]
      result :=
        if !isSuccessful statistics.operation.code then failure statistics.operation
        else checkStatistics projectId [rule] statistics.data })

/-- The groups one after another, up to one that throws. -/
def runGroups (capacity : Nat) (projectId : ProjectId) (registry : RuntimeConfigRegistry)
    (rules : List ConstraintRule) (service : WindowService) :
    List ConstraintGroupSpec → Except String (List ConstraintGroupExecution)
  | [] => .ok []
  | group :: groups =>
      match runGroup capacity projectId registry rules service group with
      | .error error => .error error
      | .ok execution =>
          match runGroups capacity projectId registry rules service groups with
          | .error error => .error error
          | .ok executions => .ok (execution :: executions)

/-- The rules on statistics; reading them may rebuild windows. -/
def runAggregates (projectId : ProjectId) (rules : List ConstraintRule) :
    List ConstraintRule → WindowService → WindowService × List ConstraintGroupExecution
  | [], service => (service, [])
  | rule :: rest, service =>
      let (service, execution) := runAggregate projectId rules rule service
      let (service, executions) := runAggregates projectId rules rest service
      (service, execution :: executions)

/-! ## Publishing -/

/-- The cached violations a publication keeps: those outside the range it
    replaces, and inside the window. -/
def keptViolations (update : WindowUpdateResult) (range : Option IncrementalRange)
    (violations : List ConstraintViolation) : List ConstraintViolation :=
  match range with
  | none => []
  | some range =>
      (violations.filter fun violation =>
        decide (violation.anchorTime < range.startTime) ||
          (decide (range.endTime ≠ int64Max) &&
            decide (range.endTime < violation.anchorTime))).filter fun violation =>
        update.windowStartTime.all fun start => decide (start ≤ violation.anchorTime)

/-- The cache entry of one rule after a publication. -/
def publishedState (update : WindowUpdateResult) (execution : ConstraintGroupExecution)
    (constraintId : String) (state : CachedConstraintState) : CachedConstraintState :=
  if state.initialized && decide (update.updateGeneration < state.updateGeneration) then state
  else
    { violations :=
        assignAll ConstraintViolation.anchorTime
          (execution.result.violations.filter fun violation =>
            violation.constraintId = constraintId)
          (keptViolations update execution.range state.violations)
      updateGeneration := update.updateGeneration
      initialized := true }

/-- One rule of a group is published. -/
def publishRule (update : WindowUpdateResult) (execution : ConstraintGroupExecution)
    (states : Table String CachedConstraintState) (rule : ConstraintRule) :
    Table String CachedConstraintState :=
  put rule.constraintId
    (publishedState update execution rule.constraintId (stateOf rule.constraintId states)) states

/-- The cache update under `constraint_state_mutex_`. -/
def publishExecutions (update : WindowUpdateResult) (executions : List ConstraintGroupExecution)
    (states : Table String CachedConstraintState) : Table String CachedConstraintState :=
  executions.foldl
    (fun states execution => execution.rules.foldl (publishRule update execution) states) states

/-- A rule that leaves its clause satisfied. -/
def reportsNothing (states : Table String CachedConstraintState) (rule : ConstraintRule) :
    Bool :=
  match states.find rule.constraintId with
  | none => true
  | some state => !state.initialized || state.violations.isEmpty

/-- The persistent report: every cached violation of every clause without a
    satisfied rule. -/
def reportClauses (selected : List ConstraintRule) (states : Table String CachedConstraintState) :
    List ConstraintViolation :=
  let keys := selected.foldl (fun keys rule => pushUnique (clauseKey rule) keys) []
  keys.flatMap fun key =>
    let clause := selected.filter fun rule => clauseKey rule = key
    if clause.any (reportsNothing states) then []
    else clause.flatMap fun rule => (stateOf rule.constraintId states).violations

/-- What `tryEnqueue` is called with. -/
structure ConstraintNotification where
  projectId : ProjectId
  time : Timestamp
  constraintIds : List String
  sequenceIds : List SequenceId
  deriving DecidableEq

/-- The report on some violations. -/
def notificationFor (projectId : ProjectId) (rules : List ConstraintRule)
    (update : WindowUpdateResult) (violations : List ConstraintViolation) :
    ConstraintNotification :=
  { projectId := projectId
    time := update.affectedEndTime.getD (update.windowStartTime.getD 0)
    constraintIds :=
      sortUnique (fun id => id) (violations.map ConstraintViolation.constraintId)
    sequenceIds :=
      sortUnique (fun sequenceId => sequenceId)
        (violations.flatMap fun violation =>
          match rules.find? fun rule => rule.constraintId = violation.constraintId with
          | some rule => sequenceIdsFor rules rule
          | none => []) }

/-- The outcome of a batch; `constraintResult` is left open when the notification
    executor decides it. -/
structure IngestPipelineResult where
  windowResult : OperationResult
  derivedResult : OperationResult
  constraintResult : Option OperationResult := none
  notification : Option ConstraintNotification := none

/-- The first failed execution, if there is one. -/
def failedExecution (executions : List ConstraintGroupExecution) :
    Option ConstraintGroupExecution :=
  executions.find? fun execution => !isSuccessful execution.result.operation.code

/-- The part of the outcome the constraint stage decides. -/
def constraintOutcome (projectId : ProjectId) (plan : CheckPlan) (update : WindowUpdateResult)
    (executions : List ConstraintGroupExecution) (states : Table String CachedConstraintState) :
    Option OperationResult × Option ConstraintNotification :=
  let evaluated := (executions.map fun execution => execution.result.evaluatedCount).sum
  let pending := (executions.map fun execution => execution.result.pendingCount).sum
  let violations := reportClauses plan.selectedRules states
  if violations.isEmpty then
    (some (okResult evaluated
      (if pending = 0 then "no constraint violations; notification skipped"
      else "no currently evaluable constraint violations; " ++ toString pending ++
        " aligned samples pending")), none)
  else (none, some (notificationFor projectId plan.enabledRules update violations))

/-- What the constraint stage leaves: the windows, the cache if it was published,
    and the outcome. -/
structure StageResult where
  window : WindowService
  published : Option (Table String CachedConstraintState) := none
  outcome : Except String (Option OperationResult × Option ConstraintNotification)

/-- Evaluating and publishing, from the prepared groups on. -/
def constraintStage (capacity : Nat) (projectId : ProjectId) (registry : RuntimeConfigRegistry)
    (plan : CheckPlan) (update : WindowUpdateResult) (service : WindowService)
    (states : Table String CachedConstraintState) : StageResult :=
  let aggregated := runAggregates projectId plan.enabledRules plan.aggregateRules service
  match runGroups capacity projectId registry plan.enabledRules service plan.groups with
  | .error error => { window := aggregated.1, outcome := .error error }
  | .ok grouped =>
      let executions := grouped ++ aggregated.2
      match failedExecution executions with
      | some execution =>
          { window := aggregated.1
            outcome := .ok (some execution.result.operation, none) }
      | none =>
          let published := publishExecutions update executions states
          { window := aggregated.1
            published := some published
            outcome := .ok (constraintOutcome projectId plan update executions published) }

/-! ## The whole batch -/

/-- `buildTimeWindowIncremental`. -/
def hotUpdate (projectId : ProjectId) (data : TimeseriesBatch) (service : WindowService) :
    WindowService × WindowUpdateResult :=
  updateWindowIncremental projectId data none service

/-- The derived series that are switched on. -/
def enabledDerivedIds (projectId : ProjectId) (registry : RuntimeConfigRegistry) :
    List SequenceId :=
  ((allDerivedSeries projectId registry).filter fun config => config.enabled).map
    RuntimeDerivedSeriesConfig.derivedSequenceId

/-- The derived refresh of a successful update, when there is one to make. -/
def derivedStage (capacity : Nat) (projectId : ProjectId) (registry : RuntimeConfigRegistry)
    (update : WindowUpdateResult) (state : DerivedState) :
    Except String (DerivedState × OperationResult) :=
  if (enabledDerivedIds projectId registry).isEmpty then
    .ok (state, okResult 0 "no enabled derived series; refresh skipped")
  else refreshInternal capacity projectId registry (some update) state

/-- Some enabled rule reads an enabled derived series. -/
def dependsOnDerived (projectId : ProjectId) (registry : RuntimeConfigRegistry) : Bool :=
  let rules := allEnabledConstraints projectId registry
  rules.any fun rule =>
    (sequenceIdsFor rules rule).any fun sequenceId =>
      sequenceId ∈ enabledDerivedIds projectId registry

/-- The constraint part of a batch, on the windows the derived refresh left. -/
def constraintPart (capacity : Nat) (projectId : ProjectId) (update : WindowUpdateResult)
    (derivedResult : OperationResult) (core : CoreService) :
    CoreService × Except String IngestPipelineResult :=
  let result : IngestPipelineResult :=
    { windowResult := update.operation, derivedResult := derivedResult }
  let states := cachedStates projectId core
  let plan := prepareCheck projectId core.configs update states
  if plan.enabledRules.isEmpty then
    (core, .ok { result with
      constraintResult := some (okResult 0 "no enabled constraints; notification skipped") })
  else if plan.selectedRules.isEmpty then
    (core, .ok { result with
      constraintResult := some (okResult 0
        "no enabled constraints are affected by this window update; notification skipped") })
  else
    let stage := constraintStage capacity projectId core.configs plan update core.window states
    ({ core with
        window := stage.window
        constraintStates :=
          match stage.published with
          | some states => put projectId states core.constraintStates
          | none => core.constraintStates },
      stage.outcome.map fun outcome =>
        { result with constraintResult := outcome.1, notification := outcome.2 })

/-- `processHotIngest`; an `error` is an exception that leaves the function. -/
def processHotIngest (capacity : Nat) (projectId : ProjectId) (data : TimeseriesBatch)
    (core : CoreService) : CoreService × Except String IngestPipelineResult :=
  let (window, update) := hotUpdate projectId data core.window
  let core := { core with window := window }
  if !isSuccessful update.operation.code then
    (core, .ok
      { windowResult := update.operation
        derivedResult :=
          failedPrecondition "derived refresh skipped because hot window update failed"
        constraintResult :=
          some (okResult 0 "constraint check skipped because hot window update failed") })
  else
    match derivedStage capacity projectId core.configs update
        ⟨core.window, core.lastPublishedGeneration⟩ with
    | .ok (derived, derivedResult) =>
        constraintPart capacity projectId update derivedResult
          { core with
            window := derived.window
            lastPublishedGeneration := derived.lastPublishedGeneration }
    | .error error =>
        -- an asynchronous refresh is joined only after the cache was published
        if dependsOnDerived projectId core.configs then (core, .error error)
        else
          let checked := constraintPart capacity projectId update {} core
          (checked.1, checked.2.bind fun _ => .error error)

/-- `syncConstraints`: a successful upsert forgets the project's cache. -/
def syncConstraints (projectId : ProjectId) (items : List RuntimeConstraintConfig)
    (core : CoreService) : CoreService × OperationResult :=
  let (configs, result) := upsertConstraints projectId items core.configs
  let core := { core with configs := configs }
  if isSuccessful result.code then
    ({ core with constraintStates := erase projectId core.constraintStates }, result)
  else (core, result)

end HotIngest
