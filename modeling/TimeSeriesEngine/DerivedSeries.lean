import TimeSeriesEngine.Registry
import TimeSeriesEngine.UpdateRange

/-!
# Refreshing derived series

`derived_series_service.cpp`.  A refresh computes every enabled formula whose
sources changed and publishes the results one by one:

* `computeOne` — the item of one formula, computed from one shared query;
* `publishItem` — one publication under the publish lock, with its generation
  test;
* `refreshInternal` — all of it in sequence.

A formula is evaluated at ascending times with one forward cursor per source.
-/

namespace DerivedSeries

open TseTypes KeyedTable OrderedSeries HotWindow Registry UpdateRange

/-! ## Values -/

/-- A point as a number. -/
structure NumericPoint where
  time : Timestamp
  value : ℚ
  deriving DecidableEq

/-- The numbers of a source, and how many of its points are none. -/
structure NumericSource where
  points : List NumericPoint := []
  kind : SeriesKind := .unspecified
  invalidValueCount : Nat := 0
  deriving DecidableEq

/-- A source and the place up to which it has been read. -/
structure NumericCursor where
  source : NumericSource
  rightIndex : Nat := 0
  deriving DecidableEq

/-- The cursors, by the ids of their sources. -/
abbrev NumericCursorMap := SequenceId → Option NumericCursor

/-- A number, a gap, or an error. -/
inductive EvaluationResult where
  | value (q : ℚ)
  | missing
  | error (message : String)
  deriving DecidableEq

/-- Move the cursor to the first point that is not older than `time`. -/
def advanceCursor (cursor : NumericCursor) (time : Timestamp) : NumericCursor :=
  { cursor with
    rightIndex := cursor.rightIndex +
      (below NumericPoint.time time (cursor.source.points.drop cursor.rightIndex)).length }

/-- The value between two neighbours. -/
def interpolate (left right : NumericPoint) (time : Timestamp) : ℚ :=
  left.value + (right.value - left.value) *
    (((time - left.time : Int) : ℚ) / ((right.time - left.time : Int) : ℚ))

/-- What `valueAt` reads once its cursor stands at `index`. -/
def readAt (source : NumericSource) (index : Nat) (time : Timestamp) : Option ℚ :=
  let previous := if index = 0 then none else source.points[index - 1]?
  match source.points[index]? with
  | some right =>
      if right.time = time then some right.value
      else if source.kind = .continuous then
        previous.bind fun left =>
          if right.time - left.time ≤ 0 then none else some (interpolate left right time)
      else previous.map NumericPoint.value
  | none =>
      if source.kind = .continuous then none else previous.map NumericPoint.value

/-- `valueAt` through the cursor map. -/
def valueAt (sequenceId : SequenceId) (time : Timestamp) (cursors : NumericCursorMap) :
    NumericCursorMap × Option ℚ :=
  match cursors sequenceId with
  | none => (cursors, none)
  | some cursor =>
      let moved := advanceCursor cursor time
      (Function.update cursors sequenceId (some moved), readAt moved.source moved.rightIndex time)

/-- One binary operation on two values. -/
def applyOperator (operation : DerivedOperator) (left right : ℚ) : EvaluationResult :=
  match operation with
  | .add => .value (left + right)
  | .subtract => .value (left - right)
  | .multiply => .value (left * right)
  | .divide => if right = 0 then .error "derived division by zero" else .value (left / right)
  | .unspecified => .error "derived operator is unspecified"

/-- Errors of the left side first, then of the right side, then missing values. -/
def combineValues (operation : DerivedOperator) : EvaluationResult → EvaluationResult →
    EvaluationResult
  | .error message, _ => .error message
  | _, .error message => .error message
  | .value left, .value right => applyOperator operation left right
  | _, _ => .missing

/-- `evaluateExpression`; the cursors move on. -/
def evaluateExpression (time : Timestamp) : DerivedExpression → NumericCursorMap →
    NumericCursorMap × EvaluationResult
  | .sequence sequenceId, cursors =>
      match valueAt sequenceId time cursors with
      | (cursors, some value) => (cursors, .value value)
      | (cursors, none) => (cursors, .missing)
  | .constant value, cursors => (cursors, .value (number value))
  | .binary operation left right, cursors =>
      if left = .missing ∨ right = .missing then
        (cursors, .error "derived binary expression is incomplete")
      else
        let (cursors, leftResult) := evaluateExpression time left cursors
        let (cursors, rightResult) := evaluateExpression time right cursors
        (cursors, combineValues operation leftResult rightResult)
  | .missing, cursors => (cursors, .error "unknown derived expression node")

/-- The sum over the terms, or `missing` at the first term without a value. -/
def evaluateTerms (time : Timestamp) : List DerivedLinearTerm → ℚ → NumericCursorMap →
    NumericCursorMap × EvaluationResult
  | [], value, cursors => (cursors, .value value)
  | term :: terms, value, cursors =>
      match valueAt term.sequenceId time cursors with
      | (cursors, none) => (cursors, .missing)
      | (cursors, some sourceValue) =>
          evaluateTerms time terms (value + number term.coefficient * sourceValue) cursors

/-- `evaluateFormula`; the cursors move on. -/
def evaluateFormula (formula : DerivedFormula) (time : Timestamp) (cursors : NumericCursorMap) :
    NumericCursorMap × EvaluationResult :=
  match formula with
  | .linear combination =>
      evaluateTerms time combination.terms (number combination.bias) cursors
  | .expression expression => evaluateExpression time expression cursors

/-! ## Sources -/

/-- `collectSources`: the sequences an expression reads, each once. -/
def collectSources : DerivedExpression → List SequenceId → List SequenceId
  | .sequence sequenceId, seen => pushUnique sequenceId seen
  | .constant _, seen => seen
  | .binary _ left right, seen => collectSources right (collectSources left seen)
  | .missing, seen => seen

/-- `sourcesFor`: the sequences a formula reads, each once. -/
def sourcesFor (config : RuntimeDerivedSeriesConfig) : List SequenceId :=
  match config.formula with
  | .linear combination =>
      combination.terms.foldl (fun seen term => pushUnique term.sequenceId seen) []
  | .expression expression => collectSources expression []

/-- `changed`. -/
def touches (changedSequenceIds sourceIds : List SequenceId) : Bool :=
  sourceIds.any fun sourceId => sourceId ∈ changedSequenceIds

/-- A source that is registered as a continuous numeric sequence. -/
def numericSourceConfig (projectId : ProjectId) (registry : RuntimeConfigRegistry)
    (sourceId : SequenceId) : Bool :=
  (findInstance projectId sourceId registry).any continuousNumeric

/-- Enabled, and not left out because no source changed. -/
def selected (update : Option WindowUpdateResult) (config : RuntimeDerivedSeriesConfig) : Bool :=
  config.enabled &&
    match update with
    | none => true
    | some update => touches update.changedSequenceIds (sourcesFor config)

/-- The range of an incremental refresh; `none` asks for the full window. -/
def refreshRange (projectId : ProjectId) (registry : RuntimeConfigRegistry)
    (update : Option WindowUpdateResult) (config : RuntimeDerivedSeriesConfig) :
    Option IncrementalRange :=
  match update.bind fun update => incrementalRangeFor update (sourcesFor config) with
  | none => none
  | some range =>
      if (sourcesFor config).all (numericSourceConfig projectId registry) then some range
      else none

/-! ## Queries -/

/-- `range->end_time + 1`, unless that would overflow. -/
def queryEnd (finish : Timestamp) : Timestamp := if finish = int64Max then finish else finish + 1

/-- `buildQuery`. -/
def buildQuery (sequenceIds : List SequenceId) (range : Option IncrementalRange) : WindowQuery :=
  match range with
  | none => { sequenceIds := sequenceIds }
  | some range =>
      { sequenceIds := sequenceIds
        startTime := some range.startTime
        endTime := some (queryEnd range.endTime)
        precedingPoints := 1
        followingPoints := 1 }

/-- The sources of some formulas, each once. -/
def sourceUnion (configs : List RuntimeDerivedSeriesConfig) : List SequenceId :=
  configs.foldl
    (fun seen config =>
      (sourcesFor config).foldl (fun seen sourceId => pushUnique sourceId seen) seen)
    []

/-- The formulas an incremental refresh computes, with their ranges. -/
def incrementalConfigs (projectId : ProjectId) (registry : RuntimeConfigRegistry)
    (update : Option WindowUpdateResult) (configs : List RuntimeDerivedSeriesConfig) :
    List (RuntimeDerivedSeriesConfig × IncrementalRange) :=
  (configs.filter (selected update)).filterMap fun config =>
    (refreshRange projectId registry update config).map fun range => (config, range)

/-- The configurations that are computed from all points. -/
def fullConfigs (projectId : ProjectId) (registry : RuntimeConfigRegistry)
    (update : Option WindowUpdateResult) (configs : List RuntimeDerivedSeriesConfig) :
    List RuntimeDerivedSeriesConfig :=
  (configs.filter (selected update)).filter fun config =>
    (refreshRange projectId registry update config).isNone

/-- `mergeIncrementalRange` over all incremental formulas. -/
def unionRange (ranges : List IncrementalRange) : Option IncrementalRange :=
  ranges.foldl (fun range new => some (joinRange range new)) none

/-- A query that is only made when it has something to ask for. -/
def queryFor (capacity : Nat) (projectId : ProjectId) (sequenceIds : List SequenceId)
    (range : Option IncrementalRange) (service : WindowService) :
    Except String (Option WindowQueryResult) :=
  if sequenceIds.isEmpty then .ok none
  else
    match queryWindowData capacity projectId (buildQuery sequenceIds range) service with
    | .error error => .error error
    | .ok result => .ok (some result)

/-! ## One formula -/

/-- What a refresh has computed for one series. -/
structure DerivedRefreshItem where
  sequenceId : SequenceId
  points : TimeseriesBatch := {}
  patchStart : Timestamp := 0
  patchEnd : Timestamp := 0
  skip : Bool := false
  publish : Bool := false
  clearOnly : Bool := false
  incremental : Bool := false
  failedCount : Nat := 0
  firstError : String := ""
  deriving DecidableEq

/-- The first error stays. -/
def firstErrorOf (old new : String) : String := if old.isEmpty then new else old

/-- `buildNumericSnapshot`, one source. -/
def numericSource (projectId : ProjectId) (registry : RuntimeConfigRegistry) (data : WindowData)
    (sourceId : SequenceId) : Option NumericSource :=
  match findInstance projectId sourceId registry with
  | none => none
  | some config =>
      if continuousNumeric config then
        let points := (data.sequenceValues.find sourceId).getD []
        some
          { points := points.filterMap fun point =>
              (numericValue point.value).map fun value => ⟨point.time, value⟩
            kind := config.seriesKind
            invalidValueCount := points.countP fun point => (numericValue point.value).isNone }
      else none

/-- The failures one source contributes, with the text of the first. -/
def sourceFailure (projectId : ProjectId) (registry : RuntimeConfigRegistry) (data : WindowData)
    (sourceId : SequenceId) : Nat × String :=
  match findInstance projectId sourceId registry with
  | none => (1, "derived source sequence is not registered: " ++ sourceId)
  | some config =>
      if continuousNumeric config then
        match numericSource projectId registry data sourceId with
        | none => (0, "")
        | some source =>
            (source.invalidValueCount,
              if source.invalidValueCount ≠ 0 then
                "derived source contains a non-finite numeric value"
              else "")
      else
        (1, "derived source is no longer a continuous numeric sequence: " ++ sourceId)

/-- The candidate times of a formula. -/
def candidateTimes (projectId : ProjectId) (registry : RuntimeConfigRegistry) (data : WindowData)
    (sourceIds : List SequenceId) : List Timestamp :=
  sortUnique (fun time => time)
    (sourceIds.flatMap fun sourceId =>
      ((numericSource projectId registry data sourceId).map fun source =>
        source.points.map NumericPoint.time).getD [])

/-- The earliest returned point in front of the affected range. -/
def patchStartOf (data : WindowData) (start : Timestamp) (sourceIds : List SequenceId) :
    Timestamp :=
  sourceIds.foldl
    (fun earliest sourceId =>
      match (below RawTimeseriesPoint.time start
          ((data.sequenceValues.find sourceId).getD [])).getLast? with
      | some predecessor => min earliest predecessor.time
      | none => earliest)
    start

/-- What the evaluation loop adds up. -/
structure Evaluated where
  points : List RawTimeseriesPoint := []
  errors : Nat := 0
  firstError : String := ""

/-- The evaluation loop over the candidate times. -/
def evaluateTimes (projectId : ProjectId) (config : RuntimeDerivedSeriesConfig)
    (keep : Timestamp → Bool) : List Timestamp → NumericCursorMap → Evaluated
  | [], _ => {}
  | time :: times, cursors =>
      if !keep time then evaluateTimes projectId config keep times cursors
      else
        let (cursors, result) := evaluateFormula config.formula time cursors
        let rest := evaluateTimes projectId config keep times cursors
        match result with
        | .missing => rest
        | .error message =>
            { rest with errors := rest.errors + 1, firstError := message }
        | .value value =>
            { rest with
              points :=
                { time := time
                  sequenceId := config.derivedSequenceId
                  value := .double (.finite value)
                  projectId := projectId } :: rest.points }

/-- The item of a formula whose window was queried. -/
def computeFrom (projectId : ProjectId) (registry : RuntimeConfigRegistry)
    (range : Option IncrementalRange) (data : WindowData) (config : RuntimeDerivedSeriesConfig) :
    DerivedRefreshItem :=
  let sourceIds := sourcesFor config
  let failures := sourceIds.map (sourceFailure projectId registry data)
  let patchStart :=
    match range with
    | none => data.windowStartTime
    | some range => patchStartOf data range.startTime sourceIds
  let patchEnd :=
    match range with
    | none =>
        if data.windowEndTime = int64Min then data.windowEndTime else data.windowEndTime - 1
    | some range => range.endTime
  let keep (time : Timestamp) : Bool :=
    range.isNone || (decide (patchStart ≤ time) && decide (time ≤ patchEnd))
  let cursors : NumericCursorMap := fun sourceId =>
    if sourceId ∈ sourceIds then
      (numericSource projectId registry data sourceId).map fun source => { source := source }
    else none
  let evaluated := evaluateTimes projectId config keep
    (candidateTimes projectId registry data sourceIds) cursors
  { sequenceId := config.derivedSequenceId
    points := { points := evaluated.points }
    patchStart := patchStart
    patchEnd := patchEnd
    publish := true
    incremental := range.isSome
    failedCount := (failures.map Prod.fst).sum + evaluated.errors
    firstError :=
      firstErrorOf ((failures.map Prod.snd).foldl firstErrorOf "") evaluated.firstError }

/-- `computeOne`. -/
def computeOne (projectId : ProjectId) (registry : RuntimeConfigRegistry)
    (update : Option WindowUpdateResult) (incrementalWindow fullWindow : Option WindowQueryResult)
    (config : RuntimeDerivedSeriesConfig) : DerivedRefreshItem :=
  if !config.enabled then
    if update.isSome then { sequenceId := config.derivedSequenceId, skip := true }
    else { sequenceId := config.derivedSequenceId, publish := true, clearOnly := true }
  else if !selected update config then { sequenceId := config.derivedSequenceId, skip := true }
  else
    let range := refreshRange projectId registry update config
    match if range.isSome then incrementalWindow else fullWindow with
    | none =>
        { sequenceId := config.derivedSequenceId
          incremental := range.isSome
          failedCount := 1
          firstError := "derived source query was not prepared" }
    | some window =>
        if window.operation.code ≠ .ok then
          { sequenceId := config.derivedSequenceId
            incremental := range.isSome
            failedCount := 1
            firstError := window.operation.message }
        else computeFrom projectId registry range window.data config

/-! ## The refresh -/

/-- Everything up to the publication: the two queries and all items. -/
def computeItems (capacity : Nat) (projectId : ProjectId) (registry : RuntimeConfigRegistry)
    (update : Option WindowUpdateResult) (service : WindowService) :
    Except String (List DerivedRefreshItem) :=
  let configs := allDerivedSeries projectId registry
  let incremental := incrementalConfigs projectId registry update configs
  match queryFor capacity projectId (sourceUnion (incremental.map Prod.fst))
      (unionRange (incremental.map Prod.snd)) service with
  | .error error => .error error
  | .ok incrementalWindow =>
      match queryFor capacity projectId
          (sourceUnion (fullConfigs projectId registry update configs)) none service with
      | .error error => .error error
      | .ok fullWindow =>
          .ok (configs.map (computeOne projectId registry update incrementalWindow fullWindow))

/-- What the derived service writes: the windows and its own publication counter. -/
structure DerivedState where
  window : WindowService := {}
  lastPublishedGeneration : Nat := 0

/-- One publication under `publish_mutex_`. -/
def publishItem (projectId : ProjectId) (update : Option WindowUpdateResult)
    (item : DerivedRefreshItem) (state : DerivedState) : DerivedState × OperationResult :=
  if item.clearOnly then
    let (window, result) := replaceDerivedSequence projectId item.sequenceId {} state.window
    ({ state with window := window }, result)
  else
    match item.incremental, update with
    | true, some update =>
        if update.updateGeneration ≠ 0 ∧
            update.updateGeneration < state.lastPublishedGeneration then
          (state, okResult 0 "stale derived refresh skipped after newer window update")
        else
          let (window, result) := patchDerivedSequence projectId item.sequenceId item.patchStart
            item.patchEnd item.points state.window
          ({ window := window
             lastPublishedGeneration :=
               max state.lastPublishedGeneration update.updateGeneration },
            result)
    | true, none =>
        let (window, result) := patchDerivedSequence projectId item.sequenceId item.patchStart
          item.patchEnd item.points state.window
        ({ state with window := window }, result)
    | false, _ =>
        let (window, result) := replaceDerivedSequence projectId item.sequenceId item.points
          state.window
        ({ state with window := window }, result)

/-- What the publication loop adds up. -/
structure RefreshTally where
  successCount : Nat := 0
  failedCount : Nat := 0
  firstError : String := ""

/-- One turn of the publication loop. -/
def publishTurn (projectId : ProjectId) (update : Option WindowUpdateResult)
    (item : DerivedRefreshItem) (turn : DerivedState × RefreshTally) :
    DerivedState × RefreshTally :=
  let (state, tally) := turn
  if item.skip then (state, tally)
  else if !item.publish then
    (state,
      { tally with
        failedCount := tally.failedCount + item.failedCount
        firstError := firstErrorOf tally.firstError item.firstError })
  else
    let (state, published) :=
      if item.sequenceId.isEmpty then (state, okResult 0 "")
      else publishItem projectId update item state
    let failed := if published.code ≠ .ok then 1 else 0
    let firstError :=
      if published.code ≠ .ok then firstErrorOf tally.firstError published.message
      else tally.firstError
    (state,
      { successCount :=
          if item.sequenceId.isEmpty then tally.successCount
          else tally.successCount + item.points.points.length
        failedCount := tally.failedCount + failed + item.failedCount
        firstError := firstErrorOf firstError item.firstError })

/-- The publication loop. -/
def publishAll (projectId : ProjectId) (update : Option WindowUpdateResult)
    (items : List DerivedRefreshItem) (state : DerivedState) : DerivedState × RefreshTally :=
  items.foldl (fun turn item => publishTurn projectId update item turn) (state, {})

/-- What a refresh reports. -/
def refreshResult (tally : RefreshTally) : OperationResult :=
  if tally.failedCount ≠ 0 then
    { code := .partialSuccess
      successCount := tally.successCount
      failedCount := tally.failedCount
      message := "derived hot windows refreshed with partial failures: " ++ tally.firstError }
  else okResult tally.successCount "derived hot windows refreshed"

/-- `refreshInternal`. -/
def refreshInternal (capacity : Nat) (projectId : ProjectId) (registry : RuntimeConfigRegistry)
    (update : Option WindowUpdateResult) (state : DerivedState) :
    Except String (DerivedState × OperationResult) :=
  match update with
  | some result =>
      if !isSuccessful result.operation.code then .ok (state, result.operation)
      else
        match computeItems capacity projectId registry update state.window with
        | .error error => .error error
        | .ok items =>
            let (state, tally) := publishAll projectId update items state
            .ok (state, refreshResult tally)
  | none =>
      match computeItems capacity projectId registry none state.window with
      | .error error => .error error
      | .ok items =>
          let (state, tally) := publishAll projectId none items state
          .ok (state, refreshResult tally)

end DerivedSeries
