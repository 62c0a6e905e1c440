import TimeSeriesEngine.NotificationExecutor
import TimeSeriesEngine.IngestHandler
import TimeSeriesEngine.PersistentReport

/-!
# A batch in its sections

`processHotIngest` again, cut where a hot worker lets others run: it takes the rules, the
derived series and the cache one after another, evaluates on windows that move on, publishes
under `constraint_state_mutex_`, hands its report over, and only then waits for a derived
refresh that runs beside the checks.  Hot workers, configuration calls and the worker of the
queue interleave between any two of these.

* `Place`, `Service`, `Action`, `step` — the sections of any number of batches;
* `batch_alone` — the sections of one batch on its own leave what `processHotIngest` leaves.
-/

namespace BatchSections

open TseTypes KeyedTable HotWindow WindowUpdate ConstraintCheck Registry UpdateRange
open DerivedSeries HotIngest IngestStep PersistentReport NotificationExecutor Transition

/-- A batch, named by its place in the order in which batches are taken. -/
structure Batch where
  number : Nat
  projectId : ProjectId
  data : TimeseriesBatch

/-- The derived refresh of a batch: it has a result, or runs beside the checks. -/
inductive Refresh where
  | done (result : OperationResult)
  | running

/-- A report that was handed over, and what `tryEnqueue` said to it. -/
structure HandOver where
  batch : Batch
  report : ConstraintNotification
  result : OperationResult

/-- Where a hot worker stands in `processHotIngest`. -/
inductive Place where
  | free
  /-- In `buildTimeWindowIncremental`. -/
  | updating (batch : Batch)
  | updated (batch : Batch) (update : WindowUpdateResult)
  /-- Behind `allEnabledConstraints`, with the registry of that moment. -/
  | ruled (batch : Batch) (update : WindowUpdateResult) (registry : RuntimeConfigRegistry)
  /-- The derived refresh is skipped, made, or runs. -/
  | refreshed (batch : Batch) (update : WindowUpdateResult) (registry : RuntimeConfigRegistry)
      (refresh : Refresh)
  | prepared (batch : Batch) (update : WindowUpdateResult) (refresh : Refresh) (plan : CheckPlan)
  | evaluated (batch : Batch) (update : WindowUpdateResult) (refresh : Refresh)
      (plan : CheckPlan) (executions : List ConstraintGroupExecution)
  /-- In front of `tryEnqueue`. -/
  | reporting (batch : Batch) (update : WindowUpdateResult) (refresh : Refresh)
      (report : ConstraintNotification)
  /-- In front of `finishDerived`, with the result of the constraint part. -/
  | joining (batch : Batch) (update : WindowUpdateResult) (refresh : Refresh)
      (decided : OperationResult) (handed : Option HandOver)
  /-- Out of the function, in front of the completion. -/
  | returned (batch : Batch) (handed : Option HandOver)
      (result : IngestExecutor.IngestPipelineResult)

/-- A completed batch: its hand-over, and the result its request waits for. -/
structure Answer where
  batch : Batch
  handed : Option HandOver
  result : IngestExecutor.IngestPipelineResult

/-- The service, its queue, where the hot workers stand, and what has been done so far. -/
structure Service where
  core : CoreService := {}
  reports : NotificationExecutor.Executor := {}
  workers : Nat → Place := fun _ => .free
  taken : Nat := 0
  handed : List HandOver := []
  answers : List Answer := []

/-- A worker moves. -/
def Service.setPlace (s : Service) (worker : Nat) (place : Place) : Service :=
  { s with workers := Function.update s.workers worker place }

/-- The parameters of a run: the windows a project may keep, the bound of the queue, and
    whether the receiver has an address. -/
structure Setting where
  windows : Nat
  capacity : Nat
  configured : Bool

/-! ## The sections -/

/-- What a group reads: the configuration of its alignment, and the windows of its query.
    Other sections come between the queries, so each group has its own. -/
structure Reading where
  configs : RuntimeConfigRegistry
  window : WindowService

/-- The asynchronous tasks of the groups, each on what it finds. -/
def evaluateGroups (capacity : Nat) (projectId : ProjectId) (rules : List ConstraintRule) :
    (Nat → Reading) → List ConstraintGroupSpec → Except String (List ConstraintGroupExecution)
  | _, [] => .ok []
  | found, group :: groups =>
      match runGroup capacity projectId (found 0).configs rules (found 0).window group with
      | .error error => .error error
      | .ok execution =>
          match evaluateGroups capacity projectId rules (fun i => found (i + 1)) groups with
          | .error error => .error error
          | .ok executions => .ok (execution :: executions)

/-- The rules on statistics, each on the windows it finds. -/
def evaluateAggregates (projectId : ProjectId) (rules : List ConstraintRule) :
    (Nat → WindowService) → List ConstraintRule → List ConstraintGroupExecution
  | _, [] => []
  | windows, rule :: rest =>
      (runAggregate projectId rules rule (windows 0)).2 ::
        evaluateAggregates projectId rules (fun i => windows (i + 1)) rest

/-- An exception that leaves the function, as the hot worker answers it. -/
def threw (batch : Batch) (what : String) : IngestExecutor.IngestPipelineResult :=
  IngestExecutor.hotFailure batch.data.points.length ("hot ingest worker failed: " ++ what)

/-- Some of the rules read one of the derived series. -/
def readsDerived (rules : List ConstraintRule) (derivedIds : List SequenceId) : Bool :=
  rules.any fun rule =>
    (sequenceIdsFor rules rule).any fun sequenceId => sequenceId ∈ derivedIds

/-- The derived series are taken; `outcome` is what a refresh the rules wait for comes to. -/
def refreshStep (configs : RuntimeConfigRegistry) (outcome : Except String OperationResult)
    (batch : Batch) (update : WindowUpdateResult) (registry : RuntimeConfigRegistry) : Place :=
  if !isSuccessful update.operation.code then
    .joining batch update
      (.done (failedPrecondition "derived refresh skipped because hot window update failed"))
      (okResult 0 "constraint check skipped because hot window update failed") none
  else
    let derivedIds := enabledDerivedIds batch.projectId configs
    if derivedIds.isEmpty then
      .refreshed batch update registry
        (.done (okResult 0 "no enabled derived series; refresh skipped"))
    else if readsDerived (allEnabledConstraints batch.projectId registry) derivedIds then
      match outcome with
      | .ok result => .refreshed batch update registry (.done result)
      | .error what => .returned batch none (threw batch what)
    else .refreshed batch update registry .running

/-- The cache is read, and the rules are grouped. -/
def prepareStep (states : Table String CachedConstraintState) (batch : Batch)
    (update : WindowUpdateResult) (registry : RuntimeConfigRegistry) (refresh : Refresh) : Place :=
  let plan := prepareCheck batch.projectId registry update states
  if plan.enabledRules.isEmpty then
    .joining batch update refresh
      (okResult 0 "no enabled constraints; notification skipped") none
  else if plan.selectedRules.isEmpty then
    .joining batch update refresh
      (okResult 0
        "no enabled constraints are affected by this window update; notification skipped") none
  else .prepared batch update refresh plan

/-- All tasks have returned. -/
def evaluateStep (batch : Batch) (update : WindowUpdateResult) (refresh : Refresh)
    (plan : CheckPlan) (executed : Except String (List ConstraintGroupExecution)) : Place :=
  match executed with
  | .error what => .returned batch none (threw batch what)
  | .ok executions =>
      match failedExecution executions with
      | some execution => .joining batch update refresh execution.result.operation none
      | none => .evaluated batch update refresh plan executions

/-- What the published cache comes to: a result, or a report. -/
def publishStep (states : Table String CachedConstraintState) (batch : Batch)
    (update : WindowUpdateResult) (refresh : Refresh) (plan : CheckPlan)
    (executions : List ConstraintGroupExecution) : Place :=
  match (constraintOutcome batch.projectId plan update executions states).2 with
  | some report => .reporting batch update refresh report
  | none =>
      .joining batch update refresh
        ((constraintOutcome batch.projectId plan update executions states).1.getD {}) none

/-- The result of a batch behind its refresh. -/
def finished (batch : Batch) (windowResult decided : OperationResult) :
    Except String OperationResult → IngestExecutor.IngestPipelineResult
  | .ok derivedResult =>
      { windowResult := windowResult
        derivedResult := derivedResult
        constraintNotificationResult := decided }
  | .error what => threw batch what

/-- `finishDerived`; `outcome` is what a refresh that ran beside came to. -/
def joinStep (outcome : Except String OperationResult) (batch : Batch)
    (update : WindowUpdateResult) (refresh : Refresh) (decided : OperationResult)
    (handed : Option HandOver) : Place :=
  match refresh with
  | .done result => .returned batch handed (finished batch update.operation decided (.ok result))
  | .running => .returned batch handed (finished batch update.operation decided outcome)

/-- A section that moves its own worker only. -/
inductive OwnSection where
  /-- `buildTimeWindowIncremental` returns. -/
  | update (update : WindowUpdateResult)
  | rules
  | refresh (outcome : Except String OperationResult)
  | prepare
  | evaluate (found : Nat → Reading) (windows : Nat → WindowService)
  | join (outcome : Except String OperationResult)

/-- Where a section takes its worker; one that is not the worker's next does nothing. -/
def next (capacity : Nat) (core : CoreService) : OwnSection → Place → Place
  | .update update, .updating batch => .updated batch update
  | .rules, .updated batch update => .ruled batch update core.configs
  | .refresh outcome, .ruled batch update registry =>
      refreshStep core.configs outcome batch update registry
  | .prepare, .refreshed batch update registry refresh =>
      prepareStep (cachedStates batch.projectId core) batch update registry refresh
  | .evaluate found windows, .prepared batch update refresh plan =>
      evaluateStep batch update refresh plan
        ((evaluateGroups capacity batch.projectId plan.enabledRules found plan.groups).map
          fun grouped =>
            grouped ++
              evaluateAggregates batch.projectId plan.enabledRules windows plan.aggregateRules)
  | .join outcome, .joining batch update refresh decided handed =>
      joinStep outcome batch update refresh decided handed
  | _, place => place

/-- The sections of a run, and the worker that makes each. -/
inductive Action where
  /-- A free hot worker takes a batch. -/
  | take (worker : Nat) (projectId : ProjectId) (data : TimeseriesBatch)
  | own (worker : Nat) (taken : OwnSection)
  /-- The publication under `constraint_state_mutex_`. -/
  | publish (worker : Nat)
  /-- The call of `tryEnqueue`. -/
  | report (worker : Nat)
  /-- The hot worker stores the result its request waits for. -/
  | complete (worker : Nat)
  /-- A section of another call, or one of a batch that writes the windows. -/
  | locked (taken : LockedSection)
  /-- A step of the queue; reports come from the hot workers alone. -/
  | queue (action : NotificationExecutor.Action)

/-- One section; one that is not the next of its worker does nothing. -/
def step (setting : Setting) (s : Service) : Action → Service
  | .take worker projectId data =>
      match s.workers worker with
      | .free =>
          Service.setPlace { s with taken := s.taken + 1 } worker
            (.updating { number := s.taken, projectId := projectId, data := data })
      | _ => s
  | .own worker taken =>
      s.setPlace worker (next setting.windows s.core taken (s.workers worker))
  | .publish worker =>
      match s.workers worker with
      | .evaluated batch update refresh plan executions =>
          let core := enter s.core (.publish batch.projectId update executions)
          Service.setPlace { s with core := core } worker
            (publishStep (cachedStates batch.projectId core) batch update refresh plan executions)
      | _ => s
  | .report worker =>
      match s.workers worker with
      | .reporting batch update refresh report =>
          let (reports, result) := tryEnqueue setting.capacity report s.reports
          let handed : HandOver := { batch := batch, report := report, result := result }
          Service.setPlace { s with reports := reports, handed := s.handed ++ [handed] } worker
            (.joining batch update refresh result (some handed))
      | _ => s
  | .complete worker =>
      match s.workers worker with
      | .returned batch handed result =>
          let answer : Answer := { batch := batch, handed := handed, result := result }
          Service.setPlace { s with answers := s.answers ++ [answer] } worker .free
      | _ => s
  | .locked (.publish _ _ _) => s
  | .locked taken => { s with core := enter s.core taken }
  | .queue (.enqueue _) => s
  | .queue action =>
      { s with reports := perform setting.capacity setting.configured s.reports action }

/-- The state after an interleaving. -/
def reached (setting : Setting) (actions : List Action) : Service :=
  run (step setting) {} actions

/-! ## One batch on its own -/

@[simp] theorem setPlace_self (s : Service) (worker : Nat) (place : Place) :
    (s.setPlace worker place).workers worker = place := Function.update_self ..

theorem setPlace_other (s : Service) {worker other : Nat} (place : Place)
    (h : other ≠ worker) : (s.setPlace worker place).workers other = s.workers other :=
  Function.update_of_ne h ..

@[simp] theorem setPlace_setPlace (s : Service) (worker : Nat) (first second : Place) :
    (s.setPlace worker first).setPlace worker second = s.setPlace worker second := by
  simp only [Service.setPlace, Function.update_idem]

@[simp] theorem setPlace_core (s : Service) (worker : Nat) (place : Place) :
    (s.setPlace worker place).core = s.core := rfl

/-- A worker that is put where it stands. -/
theorem setPlace_eq {s : Service} {worker : Nat} {place : Place} (h : s.workers worker = place) :
    s.setPlace worker place = s := by
  rw [Service.setPlace, ← h, Function.update_eq_self]

/-- `tryEnqueue` with the report of a batch, if it has one. -/
def handOver (capacity : Nat) (batch : Batch) (report : Option ConstraintNotification)
    (reports : NotificationExecutor.Executor) : NotificationExecutor.Executor × Option HandOver :=
  match report with
  | none => (reports, none)
  | some report =>
      ((tryEnqueue capacity report reports).1,
        some { batch := batch, report := report, result := (tryEnqueue capacity report reports).2 })

/-- The report of a constraint part. -/
def reportOf (outcome : Except String HotIngest.IngestPipelineResult) :
    Option ConstraintNotification :=
  match outcome with
  | .ok result => result.notification
  | .error _ => none

/-- What the constraint part of a batch comes to, behind its hand-over. -/
def decidedBy (result : HotIngest.IngestPipelineResult) (handed : Option HandOver) :
    OperationResult :=
  result.constraintResult.getD ((handed.map HandOver.result).getD {})

/-- What a batch is answered with. -/
def completion (batch : Batch) (outcome : Except String HotIngest.IngestPipelineResult)
    (handed : Option HandOver) : IngestExecutor.IngestPipelineResult :=
  match outcome with
  | .error what => threw batch what
  | .ok result =>
      { windowResult := result.windowResult
        derivedResult := result.derivedResult
        constraintNotificationResult := decidedBy result handed }

/-- Groups that all meet one state are the groups of the core service. -/
theorem evaluateGroups_alone (capacity : Nat) (p : ProjectId) (registry : RuntimeConfigRegistry)
    (rules : List ConstraintRule) (service : WindowService) (groups : List ConstraintGroupSpec) :
    evaluateGroups capacity p rules (fun _ => { configs := registry, window := service }) groups =
      runGroups capacity p registry rules service groups := by
  induction groups with
  | nil => rfl
  | cons group groups ih =>
      rw [evaluateGroups, ih]
      rfl

/-- A query of statistics may leave other windows behind for the next one. -/
theorem evaluateAggregates_alone (p : ProjectId) (rules aggregates : List ConstraintRule)
    (service : WindowService) :
    ∃ windows, evaluateAggregates p rules windows aggregates =
      (runAggregates p rules aggregates service).2 := by
  induction aggregates generalizing service with
  | nil => exact ⟨fun _ => service, rfl⟩
  | cons rule rest ih =>
      obtain ⟨windows, hrest⟩ := ih (runAggregate p rules rule service).1
      refine ⟨fun i => if i = 0 then service else windows (i - 1), ?_⟩
      rw [evaluateAggregates, runAggregates]
      exact congrArg _ hrest

section Alone

variable {setting : Setting} {s : Service} {worker : Nat} {batch : Batch}
  {update : WindowUpdateResult} {refresh : Refresh}

/-- Sections of the constraint part, from the cache to the queue. -/
def checkActions (worker : Nat) (found : Nat → Reading) (windows : Nat → WindowService)
    (written : LockedSection) : List Action :=
  [.own worker .prepare, .own worker (.evaluate found windows), .locked written,
    .publish worker, .report worker]

/-- Where the constraint part leaves its worker. -/
def concluded (batch : Batch) (update : WindowUpdateResult) (refresh : Refresh)
    (handed : Option HandOver) : Except String HotIngest.IngestPipelineResult → Place
  | .error what => .returned batch none (threw batch what)
  | .ok result => .joining batch update refresh (decidedBy result handed) handed

/-- The service behind the constraint part of a batch on its own. -/
def afterCheck (setting : Setting) (s : Service) (worker : Nat) (batch : Batch)
    (update : WindowUpdateResult) (refresh : Refresh)
    (part : CoreService × Except String HotIngest.IngestPipelineResult) : Service :=
  let handing := handOver setting.capacity batch (reportOf part.2) s.reports
  Service.setPlace
    { s with core := part.1, reports := handing.1, handed := s.handed ++ handing.2.toList } worker
    (concluded batch update refresh handing.2 part.2)

/-- A batch that publishes nothing stays where its sections have left it. -/
theorem run_unpublished {place : Place} (written : LockedSection) {core : CoreService}
    (hplace : s.workers worker = place)
    (hpublish : ∀ batch update refresh plan executions,
      place ≠ .evaluated batch update refresh plan executions)
    (hreport : ∀ batch update refresh report, place ≠ .reporting batch update refresh report)
    (hwritten : step setting s (.locked written) = { s with core := core }) :
    run (step setting) s [.locked written, .publish worker, .report worker] =
      { s with core := core } := by
  rw [run_cons, hwritten, run_cons, step]
  split
  · rename_i heq
    exact absurd (hplace.symm.trans heq) (hpublish _ _ _ _ _)
  rw [run_cons, step]
  split
  · rename_i heq
    exact absurd (hplace.symm.trans heq) (hreport _ _ _ _)
  · rfl

/-- A constraint part without a report. -/
theorem afterCheck_quiet {part : CoreService × Except String HotIngest.IngestPipelineResult}
    (h : reportOf part.2 = none) :
    afterCheck setting s worker batch update refresh part =
      Service.setPlace { s with core := part.1 } worker
        (concluded batch update refresh none part.2) := by
  rw [afterCheck, h, handOver]
  simp only [Option.toList_none, List.append_nil]

/-- A constraint part that publishes nothing ends where its sections have left the batch. -/
theorem unpublished_alone {window : WindowService} {generation : Nat} {place : Place}
    {part : CoreService × Except String HotIngest.IngestPipelineResult}
    (hquiet : reportOf part.2 = none) (hplace : place = concluded batch update refresh none part.2)
    (hwritten : enter s.core (.windows window generation) = part.1) :
    run (step setting) (s.setPlace worker place)
        [.locked (.windows window generation), .publish worker, .report worker] =
      afterCheck setting s worker batch update refresh part := by
  rw [afterCheck_quiet hquiet, hplace, ← hwritten]
  cases part.2 with
  | error what =>
      rw [run_unpublished _ (setPlace_self ..) (fun _ _ _ _ _ h => by cases h)
        (fun _ _ _ _ h => by cases h) rfl]
      rfl
  | ok result =>
      rw [run_unpublished _ (setPlace_self ..) (fun _ _ _ _ _ h => by cases h)
        (fun _ _ _ _ h => by cases h) rfl]
      rfl

@[simp] theorem afterCheck_setPlace (place : Place)
    (part : CoreService × Except String HotIngest.IngestPipelineResult) :
    afterCheck setting (s.setPlace worker place) worker batch update refresh part =
      afterCheck setting s worker batch update refresh part := by
  simp only [afterCheck, Service.setPlace, Function.update_idem]

/-- A report leaves the result to `tryEnqueue`. -/
theorem constraintOutcome_left {p : ProjectId} {plan : CheckPlan}
    {executions : List ConstraintGroupExecution} {states : Table String CachedConstraintState}
    {report : ConstraintNotification}
    (h : (constraintOutcome p plan update executions states).2 = some report) :
    (constraintOutcome p plan update executions states).1 = none := by
  unfold constraintOutcome at h ⊢
  simp only at h ⊢
  split
  · rename_i hempty
    rw [if_pos hempty] at h
    cases h
  · rfl

/-- The publication of a batch and its hand-over. -/
theorem publish_alone {plan : CheckPlan} {executions : List ConstraintGroupExecution}
    (hplace : s.workers worker = .evaluated batch update refresh plan executions)
    (window : WindowService) (derivedResult : OperationResult) :
    let outcome := constraintOutcome batch.projectId plan update executions
      (publishExecutions update executions (cachedStates batch.projectId s.core))
    run (step setting) s [.locked (.windows window s.core.lastPublishedGeneration),
        .publish worker, .report worker] =
      afterCheck setting s worker batch update refresh
        (enter { s.core with window := window } (.publish batch.projectId update executions),
          .ok
            { windowResult := update.operation
              derivedResult := derivedResult
              constraintResult := outcome.1
              notification := outcome.2 }) := by
  intro outcome
  have hpublished : step setting
      (step setting s (.locked (.windows window s.core.lastPublishedGeneration)))
        (.publish worker) =
      Service.setPlace
        { s with
          core := enter { s.core with window := window }
            (.publish batch.projectId update executions) } worker
        (publishStep (publishExecutions update executions (cachedStates batch.projectId s.core))
          batch update refresh plan executions) := by
    simp only [step, hplace]
    rw [cachedStates_publish]
    rfl
  rw [run_cons, run_cons, run_cons, run_nil, hpublished, publishStep]
  show step setting (Service.setPlace _ worker (match outcome.2 with | some report => _ | none => _))
    (.report worker) = _
  cases hreport : outcome.2 with
  | none =>
      rw [afterCheck_quiet rfl]
      simp only [step, setPlace_self]
      rfl
  | some report =>
      have hleft : outcome.1 = none := constraintOutcome_left hreport
      simp only [step, afterCheck, concluded, reportOf, handOver, decidedBy, hleft,
        Option.getD_none, Option.map_some, Option.getD_some, Option.toList_some,
        Service.setPlace, Function.update_self, Function.update_idem]

/-- The check of a worker that nobody disturbs. -/
theorem check_alone (hplace : s.workers worker = .refreshed batch update s.core.configs refresh)
    (derivedResult : OperationResult) :
    let part := constraintPart setting.windows batch.projectId update derivedResult s.core
    ∃ found windows, run (step setting) s (checkActions worker found windows
        (.windows part.1.window s.core.lastPublishedGeneration)) =
      afterCheck setting s worker batch update refresh part := by
  intro part
  have hpart : part = constraintPart setting.windows batch.projectId update derivedResult s.core :=
    rfl
  obtain ⟨windows, haggregates⟩ := evaluateAggregates_alone batch.projectId
    (prepareCheck batch.projectId s.core.configs update
      (cachedStates batch.projectId s.core)).enabledRules
    (prepareCheck batch.projectId s.core.configs update
      (cachedStates batch.projectId s.core)).aggregateRules s.core.window
  refine ⟨fun _ => { configs := s.core.configs, window := s.core.window }, windows, ?_⟩
  clear_value part
  rw [checkActions, run_cons, run_cons, step, step, setPlace_self, setPlace_setPlace, setPlace_core,
    hplace, next, prepareStep]
  unfold constraintPart at hpart
  simp only at hpart ⊢
  split
  · rename_i hempty
    rw [if_pos hempty] at hpart
    subst hpart
    exact unpublished_alone rfl rfl rfl
  rename_i hrules
  rw [if_neg hrules] at hpart
  split
  · rename_i hempty
    rw [if_pos hempty] at hpart
    subst hpart
    exact unpublished_alone rfl rfl rfl
  rename_i hselected
  rw [if_neg hselected] at hpart
  rw [next, evaluateGroups_alone, haggregates]
  unfold constraintStage at hpart
  simp only at hpart
  cases hgrouped : runGroups setting.windows batch.projectId s.core.configs
      (prepareCheck batch.projectId s.core.configs update
        (cachedStates batch.projectId s.core)).enabledRules s.core.window
      (prepareCheck batch.projectId s.core.configs update
        (cachedStates batch.projectId s.core)).groups with
  | error what =>
      rw [hgrouped] at hpart
      subst hpart
      simp only [Except.map, evaluateStep]
      exact unpublished_alone rfl rfl rfl
  | ok grouped =>
      rw [hgrouped] at hpart
      simp only [Except.map, evaluateStep] at hpart ⊢
      cases hfailed : failedExecution (grouped ++ (runAggregates batch.projectId
          (prepareCheck batch.projectId s.core.configs update
            (cachedStates batch.projectId s.core)).enabledRules
          (prepareCheck batch.projectId s.core.configs update
            (cachedStates batch.projectId s.core)).aggregateRules s.core.window).2) with
      | some execution =>
          simp only [hfailed] at hpart ⊢
          subst hpart
          exact unpublished_alone rfl rfl rfl
      | none =>
          simp only [hfailed] at hpart ⊢
          subst hpart
          exact (publish_alone (setPlace_self ..) _ derivedResult).trans (afterCheck_setPlace _ _)

/-- What the join of the refresh leaves of the outcome of the constraint part. -/
def joined (derived : Except String OperationResult)
    (outcome : Except String HotIngest.IngestPipelineResult) :
    Except String HotIngest.IngestPipelineResult :=
  outcome.bind fun result => derived.map fun derivedResult =>
    { result with derivedResult := derivedResult }

/-- The constraint part carries the results of the update and the refresh along. -/
theorem constraintPart_joined (capacity : Nat) (p : ProjectId) (update : WindowUpdateResult)
    (derivedResult : OperationResult) (core : CoreService) :
    constraintPart capacity p update derivedResult core =
      ((constraintPart capacity p update {} core).1,
        joined (.ok derivedResult) (constraintPart capacity p update {} core).2) := by
  unfold constraintPart
  simp only
  split
  · rfl
  split
  · rfl
  · generalize constraintStage capacity p core.configs _ update core.window _ = stage
    obtain ⟨window, cache, outcome⟩ := stage
    cases outcome with
    | error what => rfl
    | ok outcome => rfl

/-- A check reports the update it belongs to. -/
theorem constraintPart_windowResult {capacity : Nat} {p : ProjectId} {update : WindowUpdateResult}
    {derivedResult : OperationResult} {core : CoreService}
    {result : HotIngest.IngestPipelineResult}
    (h : (constraintPart capacity p update derivedResult core).2 = .ok result) :
    result.windowResult = update.operation := by
  unfold constraintPart at h
  simp only at h
  split at h
  · obtain rfl := Except.ok.inj h
    rfl
  split at h
  · obtain rfl := Except.ok.inj h
    rfl
  · generalize constraintStage capacity p core.configs _ update core.window _ = stage at h
    obtain ⟨window, cache, outcome⟩ := stage
    cases outcome with
    | error what => cases h
    | ok outcome =>
        obtain rfl := Except.ok.inj h
        rfl

/-- The section is one of the worker's batch, or writes the windows. -/
def Action.Of (worker : Nat) : Action → Prop
  | .take taker _ _ => taker = worker
  | .own mover _ => mover = worker
  | .publish publisher => publisher = worker
  | .report reporter => reporter = worker
  | .complete completer => completer = worker
  | .locked (.windows _ _) => True
  | .locked _ => False
  | .queue _ => False

/-- A batch that has returned is completed. -/
theorem complete_alone {handed : Option HandOver} {result : IngestExecutor.IngestPipelineResult}
    (hplace : s.workers worker = .returned batch handed result)
    (derived : Except String OperationResult) :
    run (step setting) s [.own worker (.join derived), .complete worker] =
      Service.setPlace
        { s with answers := s.answers ++ [{ batch := batch, handed := handed, result := result }] }
        worker .free := by
  have hstay : step setting s (.own worker (.join derived)) = s := by
    rw [step, hplace]
    exact setPlace_eq hplace
  rw [run_cons, hstay, run_cons, run_nil]
  simp only [step, hplace]

/-- A batch that waits for its refresh is joined with it and completed. -/
theorem join_alone {decided : OperationResult} {handed : Option HandOver}
    (hplace : s.workers worker = .joining batch update refresh decided handed)
    {derived : Except String OperationResult}
    (hdone : ∀ result, refresh = .done result → derived = .ok result) :
    run (step setting) s [.own worker (.join derived), .complete worker] =
      Service.setPlace
        { s with
          answers := s.answers ++
            [{ batch := batch
               handed := handed
               result := finished batch update.operation decided derived }] } worker .free := by
  have hjoined : joinStep derived batch update refresh decided handed =
      .returned batch handed (finished batch update.operation decided derived) := by
    cases refresh with
    | done result => rw [hdone result rfl, joinStep]
    | running => rfl
  have hstep : step setting s (.own worker (.join derived)) =
      s.setPlace worker (joinStep derived batch update refresh decided handed) := by
    rw [step, hplace]
    rfl
  rw [run_cons, hstep, hjoined, run_cons, run_nil]
  simp only [step, Service.setPlace, Function.update_self, Function.update_idem]

/-- From the refresh on. -/
theorem rest_alone (hplace : s.workers worker = .refreshed batch update s.core.configs refresh)
    (derived : Except String OperationResult)
    (hdone : ∀ result, refresh = .done result → derived = .ok result) :
    let part := constraintPart setting.windows batch.projectId update {} s.core
    let handing := handOver setting.capacity batch (reportOf part.2) s.reports
    ∃ actions, (∀ action ∈ actions, action.Of worker) ∧
      run (step setting) s actions =
        Service.setPlace
          { s with
            core := part.1
            reports := handing.1
            handed := s.handed ++ handing.2.toList
            answers := s.answers ++
              [{ batch := batch
                 handed := handing.2
                 result := completion batch (joined derived part.2) handing.2 }] } worker .free := by
  intro part handing
  obtain ⟨found, windows, hcheck⟩ := @check_alone setting s worker batch update refresh hplace {}
  change run (step setting) s (checkActions worker found windows
    (.windows part.1.window s.core.lastPublishedGeneration)) =
      afterCheck setting s worker batch update refresh part at hcheck
  have hwindow : ∀ result, part.2 = .ok result → result.windowResult = update.operation :=
    fun result h => constraintPart_windowResult h
  refine ⟨checkActions worker found windows
    (.windows part.1.window s.core.lastPublishedGeneration) ++
      [.own worker (.join derived), .complete worker], ?_, ?_⟩
  · simp [checkActions, Action.Of]
  rw [run_append, hcheck]
  have hafter : (afterCheck setting s worker batch update refresh part).workers worker =
      concluded batch update refresh handing.2 part.2 := setPlace_self ..
  cases hpart : part.2 with
  | error what =>
      have hquiet : handing.2 = none := by
        show (handOver _ _ (reportOf part.2) _).2 = none
        rw [hpart]
        rfl
      rw [hpart] at hafter
      rw [complete_alone hafter, hquiet]
      simp only [afterCheck, Service.setPlace, Function.update_idem]
      rw [show (handOver setting.capacity batch (reportOf part.2) s.reports).2 = none from hquiet]
      rfl
  | ok result =>
      rw [hpart] at hafter
      rw [join_alone hafter hdone]
      have hcompletion : completion batch (joined derived (.ok result)) handing.2 =
          finished batch update.operation (decidedBy result handing.2) derived := by
        rw [← hwindow result hpart]
        cases derived with
        | ok derivedResult => rfl
        | error what => rfl
      rw [hcompletion]
      simp only [afterCheck, Service.setPlace, Function.update_idem]
      rfl

/-- The sections in front of the refresh. -/
def startActions (worker : Nat) (p : ProjectId) (data : TimeseriesBatch) (core : CoreService) :
    List Action :=
  [.take worker p data,
    .locked (.windows (hotUpdate p data core.window).1 core.lastPublishedGeneration),
    .own worker (.update (batchReport p data core)), .own worker .rules]

/-- The first sections of a worker that nobody disturbs update the window as one. -/
theorem start_alone (hfree : s.workers worker = .free) (p : ProjectId) (data : TimeseriesBatch) :
    run (step setting) s (startActions worker p data s.core) =
      Service.setPlace
        { s with
          core := { s.core with window := (hotUpdate p data s.core.window).1 }
          taken := s.taken + 1 } worker
        (.ruled { number := s.taken, projectId := p, data := data } (batchReport p data s.core)
          s.core.configs) := by
  simp only [startActions, run_cons, run_nil, step, hfree, next, Service.setPlace,
    Function.update_self, Function.update_idem]
  rfl

/-- A batch whose refresh does not stop it, on the windows the refresh leaves. -/
theorem batch_refreshed (hfree : s.workers worker = .free) {p : ProjectId} {data : TimeseriesBatch}
    {outcome derived : Except String OperationResult}
    (hrefresh : refreshStep s.core.configs outcome
        { number := s.taken, projectId := p, data := data } (batchReport p data s.core)
        s.core.configs =
      .refreshed { number := s.taken, projectId := p, data := data } (batchReport p data s.core)
        s.core.configs refresh)
    (hdone : ∀ result, refresh = .done result → derived = .ok result) (core : CoreService)
    (hconfigs : core.configs = s.core.configs)
    (hstates : core.constraintStates = s.core.constraintStates) :
    let batch : Batch := { number := s.taken, projectId := p, data := data }
    let part := constraintPart setting.windows p (batchReport p data s.core) {} core
    let handing := handOver setting.capacity batch (reportOf part.2) s.reports
    ∃ actions, (∀ action ∈ actions, action.Of worker) ∧
      run (step setting) s actions =
        { s with
          core := part.1
          reports := handing.1
          taken := s.taken + 1
          handed := s.handed ++ handing.2.toList
          answers := s.answers ++
            [{ batch := batch
               handed := handing.2
               result := completion batch (joined derived part.2) handing.2 }] } := by
  intro batch part handing
  have hstart := @start_alone setting s worker hfree p data
  have hmoved : run (step setting) s (startActions worker p data s.core ++
      [.own worker (.refresh outcome),
        .locked (.windows core.window core.lastPublishedGeneration)]) =
      Service.setPlace { s with core := core, taken := s.taken + 1 } worker
        (.refreshed batch (batchReport p data s.core) s.core.configs refresh) := by
    rw [run_append, hstart, run_cons, run_cons, run_nil]
    simp only [step, setPlace_self, setPlace_setPlace, setPlace_core, next, hrefresh, enter]
    rw [← hconfigs, ← hstates]
    rfl
  obtain ⟨actions, howned, hrest⟩ := @rest_alone setting
    (Service.setPlace { s with core := core, taken := s.taken + 1 } worker
      (.refreshed batch (batchReport p data s.core) s.core.configs refresh)) worker batch
    (batchReport p data s.core) refresh
    ((setPlace_self ..).trans (by rw [setPlace_core, hconfigs])) derived hdone
  refine ⟨startActions worker p data s.core ++
    [.own worker (.refresh outcome),
      .locked (.windows core.window core.lastPublishedGeneration)] ++ actions, ?_, ?_⟩
  · intro action haction
    rcases List.mem_append.mp haction with hfront | hback
    · simp only [startActions, List.mem_append, List.mem_cons, List.not_mem_nil, or_false] at hfront
      rcases hfront with (rfl | rfl | rfl | rfl) | rfl | rfl <;> trivial
    · exact howned action hback
  · rw [run_append, hmoved, hrest]
    simp only [Service.setPlace, Function.update_idem]
    rw [← hfree, Function.update_eq_self]

/-- A batch that its refresh ends. -/
theorem batch_ended (hfree : s.workers worker = .free) {p : ProjectId} {data : TimeseriesBatch}
    {outcome : Except String OperationResult} {place : Place}
    (hrefresh : refreshStep s.core.configs outcome
        { number := s.taken, projectId := p, data := data } (batchReport p data s.core)
        s.core.configs = place)
    {result : IngestExecutor.IngestPipelineResult}
    (hended : ∀ other : Service, other.workers worker = place →
      run (step setting) other [.own worker (.join outcome), .complete worker] =
        Service.setPlace
          { other with
            answers := other.answers ++
              [{ batch := { number := s.taken, projectId := p, data := data }
                 handed := none
                 result := result }] } worker .free) :
    ∃ actions, (∀ action ∈ actions, action.Of worker) ∧
      run (step setting) s actions =
        { s with
          core := { s.core with window := (hotUpdate p data s.core.window).1 }
          taken := s.taken + 1
          answers := s.answers ++
            [{ batch := { number := s.taken, projectId := p, data := data }
               handed := none
               result := result }] } := by
  refine ⟨startActions worker p data s.core ++ [.own worker (.refresh outcome)] ++
    [.own worker (.join outcome), .complete worker], ?_, ?_⟩
  · intro action haction
    simp only [startActions, List.mem_append, List.mem_cons, List.not_mem_nil, or_false] at haction
    rcases haction with ((rfl | rfl | rfl | rfl) | rfl) | rfl | rfl <;> trivial
  · have hmoved : run (step setting) s (startActions worker p data s.core ++
        [.own worker (.refresh outcome)]) =
        Service.setPlace
          { s with
            core := { s.core with window := (hotUpdate p data s.core.window).1 }
            taken := s.taken + 1 } worker place := by
      rw [run_append, start_alone hfree, run_cons, run_nil]
      simp only [step, setPlace_self, setPlace_setPlace, setPlace_core, next, hrefresh]
    rw [run_append, hmoved, hended _ (setPlace_self ..)]
    simp only [Service.setPlace, Function.update_idem]
    rw [← hfree, Function.update_eq_self]

section Cases

variable {capacity : Nat} {p : ProjectId} {data : TimeseriesBatch} {core : CoreService}

/-- The window update is rejected. -/
theorem process_rejected
    (hno : (!isSuccessful (batchReport p data core).operation.code) = true) :
    submitted capacity p data core = none ∧
      processHotIngest capacity p data core =
        ({ core with window := (hotUpdate p data core.window).1 }, .ok
          { windowResult := (batchReport p data core).operation
            derivedResult :=
              failedPrecondition "derived refresh skipped because hot window update failed"
            constraintResult :=
              some (okResult 0 "constraint check skipped because hot window update failed") }) := by
  have hreport : (hotUpdate p data core.window).2 = batchReport p data core := rfl
  constructor
  · rw [submitted, checkedCore, if_pos hno]
    rfl
  · simp only [processHotIngest, hreport]
    rw [if_pos hno]

/-- The refresh throws, and the rules wait for it. -/
theorem process_ended
    (hok : ¬ (!isSuccessful (batchReport p data core).operation.code) = true) {what : String}
    (hderived : derivedStage capacity p core.configs (batchReport p data core)
      ⟨(hotUpdate p data core.window).1, core.lastPublishedGeneration⟩ = .error what)
    (hwaits : dependsOnDerived p core.configs = true) :
    submitted capacity p data core = none ∧
      processHotIngest capacity p data core =
        ({ core with window := (hotUpdate p data core.window).1 }, .error what) := by
  have hreport : (hotUpdate p data core.window).2 = batchReport p data core := rfl
  constructor
  · simp only [submitted, checkedCore, if_neg hok, hderived, if_pos hwaits]
    rfl
  · simp only [processHotIngest, hreport, if_neg hok, hderived, if_pos hwaits]

/-- The refresh comes to a result. -/
theorem process_derived
    (hok : ¬ (!isSuccessful (batchReport p data core).operation.code) = true)
    {derived : DerivedState} {derivedResult : OperationResult}
    (hderived : derivedStage capacity p core.configs (batchReport p data core)
      ⟨(hotUpdate p data core.window).1, core.lastPublishedGeneration⟩ =
        .ok (derived, derivedResult)) :
    let part := constraintPart capacity p (batchReport p data core) {}
      { core with
        window := derived.window
        lastPublishedGeneration := derived.lastPublishedGeneration }
    submitted capacity p data core = reportOf part.2 ∧
      processHotIngest capacity p data core = (part.1, joined (.ok derivedResult) part.2) := by
  have hreport : (hotUpdate p data core.window).2 = batchReport p data core := rfl
  intro part
  constructor
  · simp only [submitted, checkedCore, if_neg hok, hderived]
    rfl
  · simp only [processHotIngest, hreport, if_neg hok, hderived]
    rw [constraintPart_joined]

/-- The refresh throws, and the rules do not wait for it. -/
theorem process_threw
    (hok : ¬ (!isSuccessful (batchReport p data core).operation.code) = true) {what : String}
    (hderived : derivedStage capacity p core.configs (batchReport p data core)
      ⟨(hotUpdate p data core.window).1, core.lastPublishedGeneration⟩ = .error what)
    (hwaits : ¬ dependsOnDerived p core.configs = true) :
    let part := constraintPart capacity p (batchReport p data core) {}
      { core with window := (hotUpdate p data core.window).1 }
    submitted capacity p data core = reportOf part.2 ∧
      processHotIngest capacity p data core = (part.1, joined (.error what) part.2) := by
  have hreport : (hotUpdate p data core.window).2 = batchReport p data core := rfl
  intro part
  constructor
  · simp only [submitted, checkedCore, if_neg hok, hderived, if_neg hwaits]
    rfl
  · simp only [processHotIngest, hreport, if_neg hok, hderived, if_neg hwaits]
    rfl

end Cases

/-- **One batch on its own**: its sections leave what `processHotIngest` leaves, its report
    is handed over, and its request is answered. -/
theorem batch_alone (hfree : s.workers worker = .free) (p : ProjectId) (data : TimeseriesBatch) :
    let processed := processHotIngest setting.windows p data s.core
    let batch : Batch := { number := s.taken, projectId := p, data := data }
    let handing :=
      handOver setting.capacity batch (submitted setting.windows p data s.core) s.reports
    ∃ actions, (∀ action ∈ actions, action.Of worker) ∧
      run (step setting) s actions =
        { s with
          core := processed.1
          reports := handing.1
          taken := s.taken + 1
          handed := s.handed ++ handing.2.toList
          answers := s.answers ++
            [{ batch := batch
               handed := handing.2
               result := completion batch processed.2 handing.2 }] } := by
  intro processed batch handing
  have hprocessed : processed = processHotIngest setting.windows p data s.core := rfl
  have hhanding : handing =
      handOver setting.capacity batch (submitted setting.windows p data s.core) s.reports := rfl
  clear_value processed handing
  by_cases hno : (!isSuccessful (batchReport p data s.core).operation.code) = true
  · obtain ⟨hsubmitted, hprocess⟩ := @process_rejected setting.windows p data s.core hno
    rw [hprocessed, hhanding, hsubmitted, hprocess, handOver, Option.toList_none, List.append_nil]
    refine @batch_ended setting s worker hfree p data
      (.ok (failedPrecondition "derived refresh skipped because hot window update failed")) _
      (if_pos hno) _ fun other hplace => join_alone hplace fun result hdone => ?_
    rw [Refresh.done.inj hdone]
  have hwaits : dependsOnDerived p s.core.configs =
      readsDerived (allEnabledConstraints p s.core.configs)
        (enabledDerivedIds p s.core.configs) := rfl
  by_cases hids : (enabledDerivedIds p s.core.configs).isEmpty = true
  · have hderived : derivedStage setting.windows p s.core.configs (batchReport p data s.core)
        ⟨(hotUpdate p data s.core.window).1, s.core.lastPublishedGeneration⟩ = _ := if_pos hids
    obtain ⟨hsubmitted, hprocess⟩ := process_derived hno hderived
    rw [hprocessed, hhanding, hsubmitted, hprocess]
    have hrefresh : refreshStep s.core.configs (.ok {}) batch (batchReport p data s.core)
        s.core.configs = .refreshed batch (batchReport p data s.core) s.core.configs
          (.done (okResult 0 "no enabled derived series; refresh skipped")) := by
      unfold refreshStep
      simp only [if_neg hno, batch, if_pos hids]
    exact batch_refreshed hfree hrefresh (fun result h => by rw [Refresh.done.inj h]) _ rfl rfl
  cases hderived : derivedStage setting.windows p s.core.configs (batchReport p data s.core)
      ⟨(hotUpdate p data s.core.window).1, s.core.lastPublishedGeneration⟩ with
  | ok stage =>
      obtain ⟨derived, derivedResult⟩ := stage
      obtain ⟨hsubmitted, hprocess⟩ := process_derived hno hderived
      rw [hprocessed, hhanding, hsubmitted, hprocess]
      by_cases hreads : readsDerived (allEnabledConstraints p s.core.configs)
          (enabledDerivedIds p s.core.configs) = true
      · have hrefresh : refreshStep s.core.configs (.ok derivedResult) batch
            (batchReport p data s.core) s.core.configs =
              .refreshed batch (batchReport p data s.core) s.core.configs
                (.done derivedResult) := by
          unfold refreshStep
          simp only [if_neg hno, batch, if_neg hids, if_pos hreads]
        exact batch_refreshed hfree hrefresh (fun result h => by rw [Refresh.done.inj h]) _ rfl rfl
      · have hrefresh : refreshStep s.core.configs (.ok {}) batch (batchReport p data s.core)
            s.core.configs =
              .refreshed batch (batchReport p data s.core) s.core.configs .running := by
          unfold refreshStep
          simp only [if_neg hno, batch, if_neg hids, if_neg hreads]
        exact batch_refreshed hfree hrefresh (fun result h => by cases h) _ rfl rfl
  | error what =>
      by_cases hreads : readsDerived (allEnabledConstraints p s.core.configs)
          (enabledDerivedIds p s.core.configs) = true
      · obtain ⟨hsubmitted, hprocess⟩ := process_ended hno hderived (hwaits.trans hreads)
        rw [hprocessed, hhanding, hsubmitted, hprocess, handOver, Option.toList_none,
          List.append_nil]
        have hrefresh : refreshStep s.core.configs (.error what) batch (batchReport p data s.core)
            s.core.configs = .returned batch none (threw batch what) := by
          unfold refreshStep
          simp only [if_neg hno, batch, if_neg hids, if_pos hreads]
        exact batch_ended hfree hrefresh fun other hplace => complete_alone hplace _
      · obtain ⟨hsubmitted, hprocess⟩ := process_threw hno hderived
          fun hdepends => hreads (hwaits.symm.trans hdepends)
        rw [hprocessed, hhanding, hsubmitted, hprocess]
        have hrefresh : refreshStep s.core.configs (.ok {}) batch (batchReport p data s.core)
            s.core.configs =
              .refreshed batch (batchReport p data s.core) s.core.configs .running := by
          unfold refreshStep
          simp only [if_neg hno, batch, if_neg hids, if_neg hreads]
        exact batch_refreshed hfree hrefresh (fun result h => by cases h) _ rfl rfl

end Alone

end BatchSections
