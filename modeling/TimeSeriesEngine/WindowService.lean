import TimeSeriesEngine.SequenceWindow

/-!
# The hot-window service

The state of `WindowService` and its operations.  An update is the composition
of the steps the code protects by separate locks, and each step is a definition
of its own:

* `metadataStep` — window size, watermark, generation, index (one lock);
* `sequenceStep` — one prepared update on one sequence (that sequence's lock);
* `pruneStep` — one prune on one sequence (that sequence's lock);
* `reportEvictions` — the pure end of the call.

Grouping sequences into executor tasks changes which thread runs a step, never
what it does, and is left out; so are the timing fields.
-/

namespace HotWindow

open TseTypes KeyedTable OrderedSeries SeqWindow

/-- The windows of all projects, their watermarks, sizes and counters. -/
structure WindowService where
  sequenceWindows : Table String SequenceWindow := KeyedTable.empty
  watermarks : Table ProjectId Timestamp := KeyedTable.empty
  windowSizes : Table ProjectId Int := KeyedTable.empty
  updateGenerations : Table ProjectId Nat := KeyedTable.empty

/-! ## Window bounds -/

/-- `windowSize`. -/
def windowSize (projectId : ProjectId) (service : WindowService) : Int :=
  (service.windowSizes.find (effectiveProject projectId)).getD kDefaultWindowSizeMs

/-- Where eviction starts; the subtraction saturates. -/
def windowStart (watermark size : Int) : Timestamp :=
  if watermark < int64Min + size then int64Min else watermark - size

/-- End of the default live window. -/
def liveEnd (watermark : Timestamp) : Timestamp :=
  if watermark = int64Max then watermark else watermark + 1

/-- Start of the default live window. -/
def liveStart (watermark size : Int) : Timestamp := windowStart (liveEnd watermark) size

/-! ## Pruning -/

/-- Prune one sequence under its lock. -/
def pruneStep (start : Timestamp) (key : String) (windows : Table String SequenceWindow) :
    Table String SequenceWindow :=
  adjust key (fun w => (pruneOne start w).1) windows

/-- Whether that prune evicts anything. -/
def pruneEvicts (start : Timestamp) (key : String) (windows : Table String SequenceWindow) :
    Bool :=
  match windows.find key with
  | some w => (pruneOne start w).2
  | none => false

/-- `pruneExpiredPoints` over a snapshot of keys: the new windows and the keys
    that lost points. -/
def pruneExpiredPoints (start : Timestamp) :
    List String → Table String SequenceWindow → Table String SequenceWindow × List String
  | [], windows => (windows, [])
  | key :: keys, windows =>
      let rest := pruneExpiredPoints start keys (pruneStep start key windows)
      (rest.1, if pruneEvicts start key windows then key :: rest.2 else rest.2)

/-- The sequences whose key starts with the project's prefix. -/
def projectKeys (projectId : ProjectId) (service : WindowService) : List String :=
  service.sequenceWindows.keys.filter (hasPrefix (scopePrefix projectId))

/-- `sequence_key.substr(prefix.size())`. -/
def stripPrefix (pre key : String) : SequenceId :=
  String.ofList (key.toList.drop pre.toList.length)

/-! ## Configuration and derived writes -/

/-- `configureWindowSize`. -/
def configureWindowSize (projectId : ProjectId) (size : Int) (service : WindowService) :
    WindowService × OperationResult :=
  let project := effectiveProject projectId
  if size ≤ 0 then (service, invalidArgument "window_size must be positive")
  else
    let service := { service with windowSizes := put project size service.windowSizes }
    let windows :=
      match service.watermarks.find project with
      | none => service.sequenceWindows
      | some watermark =>
          (pruneExpiredPoints (windowStart watermark size) (projectKeys project service)
            service.sequenceWindows).1
    ({ service with sequenceWindows := windows }, okResult 0 "hot window size configured")

/-- The checks of a derived write on its points; `extra` is the check only a
    patch makes. -/
def validateDerivedPoints (projectId : ProjectId) (sequenceId : SequenceId)
    (extra : RawTimeseriesPoint → Option String) (data : TimeseriesBatch) : Option String :=
  data.points.findSome? fun point =>
    match validateRawPoint (effectiveProject projectId) point with
    | some error => some error
    | none =>
        if point.sequenceId != sequenceId then
          some "derived point sequence_id does not match output sequence"
        else extra point

/-- The checks of `replaceDerivedSequence`. -/
def validateReplace (projectId : ProjectId) (sequenceId : SequenceId) (data : TimeseriesBatch) :
    Option String :=
  if sequenceId.isEmpty then some "derived sequence_id must not be empty"
  else
    match validateBatchContext (effectiveProject projectId) data with
    | some error => some error
    | none => validateDerivedPoints projectId sequenceId (fun _ => none) data

/-- The checks of `patchDerivedSequence`. -/
def validatePatch (projectId : ProjectId) (sequenceId : SequenceId)
    (startTime endTime : Timestamp) (data : TimeseriesBatch) : Option String :=
  if sequenceId.isEmpty then some "derived sequence_id must not be empty"
  else if endTime < startTime then
    some "derived patch start time must not be after end time"
  else
    match validateBatchContext (effectiveProject projectId) data with
    | some error => some error
    | none =>
        validateDerivedPoints projectId sequenceId
          (fun point =>
            if point.time < startTime || endTime < point.time then
              some "derived patch contains a point outside its affected range"
            else none)
          data

/-- Find or create the output sequence and write it. -/
def writeSequence (projectId : ProjectId) (sequenceId : SequenceId)
    (write : SequenceWindow → SequenceWindow) (windows : Table String SequenceWindow) :
    Table String SequenceWindow :=
  let key := scopedSequenceKey projectId sequenceId
  adjust key write (ensure key {} windows)

/-- `replaceDerivedSequence`. -/
def replaceDerivedSequence (projectId : ProjectId) (sequenceId : SequenceId)
    (data : TimeseriesBatch) (service : WindowService) : WindowService × OperationResult :=
  match validateReplace projectId sequenceId data with
  | some error => (service, invalidArgument error)
  | none =>
      let project := effectiveProject projectId
      let service :=
        { service with
          sequenceWindows :=
            writeSequence projectId sequenceId (fun w => replaceSequence w data)
              service.sequenceWindows }
      let windows :=
        match service.watermarks.find project with
        | none => service.sequenceWindows
        | some watermark =>
            (pruneExpiredPoints (windowStart watermark (windowSize projectId service))
              (projectKeys project service) service.sequenceWindows).1
      ({ service with sequenceWindows := windows },
        okResult data.points.length "derived hot window replaced")

/-- `patchDerivedSequence`. -/
def patchDerivedSequence (projectId : ProjectId) (sequenceId : SequenceId)
    (startTime endTime : Timestamp) (data : TimeseriesBatch) (service : WindowService) :
    WindowService × OperationResult :=
  match validatePatch projectId sequenceId startTime endTime data with
  | some error => (service, invalidArgument error)
  | none =>
      ({ service with
          sequenceWindows :=
            writeSequence projectId sequenceId
              (fun w => patchSequence w startTime endTime data) service.sequenceWindows },
        okResult data.points.length "derived hot window patched")

/-! ## Updating -/

/-- `if (!x || time < *x) x = time`. -/
def widenStart (time : Timestamp) : Option Timestamp → Option Timestamp
  | none => some time
  | some old => if time < old then some time else some old

/-- `if (!x || time > *x) x = time`. -/
def widenEnd (time : Timestamp) : Option Timestamp → Option Timestamp
  | none => some time
  | some old => if old < time then some time else some old

/-- The affected range takes in a time. -/
def widenUpdate (time : Timestamp) (update : SequenceWindowUpdate) : SequenceWindowUpdate :=
  { update with
    affectedStartTime := widenStart time update.affectedStartTime
    affectedEndTime := widenEnd time update.affectedEndTime }

/-- `sequence_updates[id]`, default-constructed when absent. -/
def sequenceUpdateOf (sequenceId : SequenceId) (result : WindowUpdateResult) :
    SequenceWindowUpdate :=
  (result.sequenceUpdates.find sequenceId).getD {}

/-- The report of one sequence is changed. -/
def setSequenceUpdate (sequenceId : SequenceId)
    (change : SequenceWindowUpdate → SequenceWindowUpdate) (result : WindowUpdateResult) :
    WindowUpdateResult :=
  { result with
    sequenceUpdates :=
      put sequenceId (change (sequenceUpdateOf sequenceId result)) result.sequenceUpdates }

/-- An id is appended if it is new. -/
def pushUnique (x : SequenceId) (xs : List SequenceId) : List SequenceId :=
  if x ∈ xs then xs else xs ++ [x]

/-- The bookkeeping of one accepted point. -/
def notePoint (result : WindowUpdateResult) (point : RawTimeseriesPoint) : WindowUpdateResult :=
  let result := setSequenceUpdate point.sequenceId (widenUpdate point.time) result
  { result with
    changedSequenceIds := pushUnique point.sequenceId result.changedSequenceIds
    affectedStartTime := widenStart point.time result.affectedStartTime
    affectedEndTime := widenEnd point.time result.affectedEndTime }

/-- The loop over the batch, which stops at the first invalid point. -/
def readPoints (project : ProjectId) :
    List RawTimeseriesPoint → WindowUpdateResult → WindowUpdateResult × Option String
  | [], result => (result, none)
  | point :: points, result =>
      match validateRawPoint project point with
      | some error => (result, some error)
      | none => readPoints project points (notePoint result point)

/-- The part of an update in front of every lock: the result so far, and the
    reason for rejecting the batch if there is one. -/
def readBatch (projectId : ProjectId) (data : TimeseriesBatch) (override : Option Int) :
    WindowUpdateResult × Option String :=
  let project := effectiveProject projectId
  let result : WindowUpdateResult := { projectId := project }
  if data.points.isEmpty then (result, some "window input must not be empty")
  else if override.any (fun size => decide (size ≤ 0)) then
    (result, some "window_size must be positive")
  else
    match validateBatchContext project data with
    | some error => (result, some error)
    | none => readPoints project data.points result

/-- The watermark loop.  `hadWatermark` is read once, before the loop. -/
def advanceWatermark (found : Option Timestamp) (points : List RawTimeseriesPoint) : Timestamp :=
  points.foldl
    (fun watermark point =>
      if found.isNone || decide (watermark < point.time) then point.time else watermark)
    (found.getD 0)

/-- The update counter saturates. -/
def nextGeneration (generation : Nat) : Nat :=
  if generation ≠ uint64Max then generation + 1 else generation

theorem le_nextGeneration (n : Nat) : n ≤ nextGeneration n := by
  unfold nextGeneration
  split
  · exact Nat.le_succ n
  · exact Nat.le_refl n

/-- `incoming_by_sequence[id]`. -/
def incomingFor (sequenceId : SequenceId) (points : List RawTimeseriesPoint) :
    List RawTimeseriesPoint :=
  points.filter (fun point => point.sequenceId = sequenceId)

/-- What the metadata step hands to the rest of the call. -/
structure UpdatePlan where
  generation : Nat
  windowStart : Timestamp
  sequences : List String

/-- `if (window_size_override) window_sizes_[project] = *window_size_override`. -/
def applyOverride (project : ProjectId) (override : Option Int) (sizes : Table ProjectId Int) :
    Table ProjectId Int :=
  match override with
  | some size => put project size sizes
  | none => sizes

/-- The step under the service's own lock. -/
def metadataStep (project : ProjectId) (override : Option Int)
    (points : List RawTimeseriesPoint) (changedIds : List SequenceId) (service : WindowService) :
    WindowService × UpdatePlan :=
  let windowSizes := applyOverride project override service.windowSizes
  let watermark := advanceWatermark (service.watermarks.find project) points
  let generation := nextGeneration ((service.updateGenerations.find project).getD 0)
  let size := (windowSizes.find project).getD kDefaultWindowSizeMs
  let windows := changedIds.foldl
    (fun acc sequenceId => ensure (scopedSequenceKey project sequenceId) {} acc)
    service.sequenceWindows
  let service : WindowService :=
    { sequenceWindows := windows
      watermarks := put project watermark service.watermarks
      windowSizes := windowSizes
      updateGenerations := put project generation service.updateGenerations }
  (service,
    { generation := generation
      windowStart := HotWindow.windowStart watermark size
      sequences := projectKeys project service })

/-- One prepared update under the lock of its sequence. -/
def sequenceStep (project : ProjectId) (prepared : PreparedSequenceUpdate)
    (windows : Table String SequenceWindow) : Table String SequenceWindow :=
  adjust (scopedSequenceKey project prepared.sequenceId)
    (fun w => (updateSequence w prepared).1) windows

/-- What that update reports. -/
def sequenceSafe (project : ProjectId) (prepared : PreparedSequenceUpdate)
    (windows : Table String SequenceWindow) : Bool :=
  match windows.find (scopedSequenceKey project prepared.sequenceId) with
  | some w => (updateSequence w prepared).2
  | none => false

/-- Whether the update of a sequence was an append. -/
def noteSafety (sequenceId : SequenceId) (safe : Bool) (result : WindowUpdateResult) :
    WindowUpdateResult :=
  setSequenceUpdate sequenceId (fun update => { update with incrementalSafe := safe })
    { result with incrementalSafe := safe && result.incrementalSafe }

/-- All prepared updates, one after another. -/
def runSequenceSteps (project : ProjectId) :
    List PreparedSequenceUpdate → Table String SequenceWindow × WindowUpdateResult →
      Table String SequenceWindow × WindowUpdateResult
  | [], state => state
  | prepared :: rest, (windows, result) =>
      runSequenceSteps project rest
        (sequenceStep project prepared windows,
          noteSafety prepared.sequenceId (sequenceSafe project prepared windows) result)

/-- What the report says about one evicted sequence. -/
def noteEviction (start : Timestamp) (sequenceId : SequenceId) (result : WindowUpdateResult) :
    WindowUpdateResult :=
  let result := setSequenceUpdate sequenceId
    (fun update =>
      { update with
        windowEvicted := true
        affectedStartTime := some (update.affectedStartTime.getD start)
        affectedEndTime :=
          some (update.affectedEndTime.getD (result.affectedEndTime.getD start)) })
    result
  { result with changedSequenceIds := pushUnique sequenceId result.changedSequenceIds }

/-- The report of the evictions, sequence by sequence. -/
def reportEvictions (start : Timestamp) (evicted : List SequenceId)
    (result : WindowUpdateResult) : WindowUpdateResult :=
  let result := result.changedSequenceIds.foldl
    (fun acc sequenceId =>
      setSequenceUpdate sequenceId
        (fun update => { update with windowEvicted := decide (sequenceId ∈ evicted) }) acc)
    { result with windowEvicted := !evicted.isEmpty }
  evicted.foldl (fun acc sequenceId => noteEviction start sequenceId acc) result

/-- The batch split by sequence, sorted and deduplicated. -/
def preparedUpdates (points : List RawTimeseriesPoint) (changedIds : List SequenceId) :
    List PreparedSequenceUpdate :=
  changedIds.map fun sequenceId => prepareUpdate sequenceId (incomingFor sequenceId points)

/-- `updateWindowIncremental`. -/
def updateWindowIncremental (projectId : ProjectId) (data : TimeseriesBatch)
    (override : Option Int) (service : WindowService) : WindowService × WindowUpdateResult :=
  match readBatch projectId data override with
  | (result, some error) => (service, { result with operation := invalidArgument error })
  | (result, none) =>
      let project := effectiveProject projectId
      let (service, plan) :=
        metadataStep project override data.points result.changedSequenceIds service
      let result :=
        { result with
          updateGeneration := plan.generation
          windowStartTime := some plan.windowStart
          incrementalSafe := true }
      let (windows, result) :=
        runSequenceSteps project (preparedUpdates data.points result.changedSequenceIds)
          (service.sequenceWindows, result)
      let (windows, evictedKeys) := pruneExpiredPoints plan.windowStart plan.sequences windows
      let result :=
        reportEvictions plan.windowStart
          (evictedKeys.map (stripPrefix (scopePrefix project))) result
      ({ service with sequenceWindows := windows },
        { result with operation := okResult data.points.length "hot window updated" })

/-! ## Queries -/

/-- The sequences of a query that exist, or the error for an empty id. -/
def findSequences (project : ProjectId) (emptyIdMessage : String) (service : WindowService) :
    List SequenceId → Except String (List (SequenceId × SequenceWindow))
  | [] => .ok []
  | sequenceId :: rest =>
      if sequenceId.isEmpty then .error emptyIdMessage
      else
        match findSequences project emptyIdMessage service rest with
        | .error message => .error message
        | .ok found =>
            match service.sequenceWindows.find (scopedSequenceKey project sequenceId) with
            | none => .ok found
            | some w => .ok ((sequenceId, w) :: found)

/-- Append one sequence's output to the result; an empty output leaves no entry. -/
def addOutput (query : WindowQuery) (start finish : Timestamp)
    (values : Table SequenceId (List RawTimeseriesPoint)) (entry : SequenceId × SequenceWindow) :
    Table SequenceId (List RawTimeseriesPoint) :=
  let output := (values.find entry.1).getD [] ++
    querySequence entry.2 start finish query.precedingPoints query.followingPoints
  if output.isEmpty then erase entry.1 values else put entry.1 output values

/-- The points one sequence contributes to the count of the result. -/
def outputCount (query : WindowQuery) (start finish : Timestamp)
    (entry : SequenceId × SequenceWindow) : Nat :=
  (querySequence entry.2 start finish query.precedingPoints query.followingPoints).length

/-- `queryWindowData`.  The context loop reserves room for `precedingPoints`
    points; beyond `capacity`, the most a vector can reserve, that throws. -/
def queryWindowData (capacity : Nat) (projectId : ProjectId) (query : WindowQuery)
    (service : WindowService) : Except String WindowQueryResult :=
  let project := effectiveProject projectId
  let reject (message : String) : WindowQueryResult :=
    { operation := invalidArgument message, projectId := project, data := { projectId := project } }
  if query.sequenceIds.isEmpty then
    .ok (reject "window query sequence_ids must not be empty")
  else if query.startTime.any (fun start => query.endTime.any (fun finish => decide (finish < start)))
  then .ok (reject "window query start_time must not be after end_time")
  else
    match findSequences project "window query sequence_id must not be empty" service
        query.sequenceIds with
    | .error message => .ok (reject message)
    | .ok sequences =>
        let size := windowSize projectId service
        match service.watermarks.find project with
        | none =>
            .ok { operation := okResult 0 "window is empty", projectId := project,
                  data := { projectId := project } }
        | some watermark =>
            if size ≤ 0 then
              .ok { operation := okResult 0 "window is empty", projectId := project,
                    data := { projectId := project } }
            else
              let finish := query.endTime.getD (liveEnd watermark)
              let start := query.startTime.getD (liveStart watermark size)
              if finish < start then .ok (reject "window query time range is invalid")
              else if query.precedingPoints ≠ 0 ∧ capacity < query.precedingPoints ∧ sequences ≠ []
              then .error "vector::reserve"
              else
                .ok
                  { operation :=
                      okResult ((sequences.map (outputCount query start finish)).sum)
                        "window query completed"
                    projectId := project
                    data :=
                      { windowStartTime :=
                          if query.preserveWindowBounds then liveStart watermark size else start
                        windowEndTime :=
                          if query.preserveWindowBounds then liveEnd watermark else finish
                        sequenceValues :=
                          sequences.foldl (addOutput query start finish) KeyedTable.empty
                        projectId := project } }

/-- `std::unordered_map::emplace`: the first value stays. -/
def emplace {ν : Type} (key : String) (value : ν) (table : Table String ν) : Table String ν :=
  if (table.find key).isSome then table else put key value table

/-- The statistics loop; each turn may rebuild a sequence's cache. -/
def statisticsLoop (project : ProjectId) :
    List SequenceId → Table String SequenceWindow → Table SequenceId SequenceWindowStatistics →
      Nat → Table String SequenceWindow × Table SequenceId SequenceWindowStatistics ×
        Except String Nat
  | [], windows, statistics, count => (windows, statistics, .ok count)
  | sequenceId :: rest, windows, statistics, count =>
      let key := scopedSequenceKey project sequenceId
      match windows.find key with
      | none => statisticsLoop project rest windows statistics count
      | some w =>
          let w := if w.statisticsValid then w else rebuildStatistics w
          let windows := adjust key (fun _ => w) windows
          if w.statisticsNonNumericCount ≠ 0 then
            (windows, KeyedTable.empty, .error
              ("window aggregate constraint values must be finite numeric values for sequence: "
                ++ sequenceId))
          else if w.statisticsCount = 0 then
            statisticsLoop project rest windows statistics count
          else
            match w.statisticsMinimum, w.statisticsMaximum with
            | minimum :: _, maximum :: _ =>
                statisticsLoop project rest windows
                  (emplace sequenceId
                    { count := w.statisticsCount
                      average := w.statisticsSum / w.statisticsCount
                      maximum := maximum.2
                      minimum := minimum.2 } statistics)
                  (count + w.statisticsCount)
            | _, _ =>
                (windows, KeyedTable.empty, .error
                  ("window aggregate statistics are not finite for sequence: " ++ sequenceId))

/-- `queryWindowStatistics`; reading may rebuild the windows. -/
def queryWindowStatistics (projectId : ProjectId) (sequenceIds : List SequenceId)
    (service : WindowService) : WindowService × WindowStatisticsResult :=
  let project := effectiveProject projectId
  if sequenceIds.isEmpty then
    (service, { operation := invalidArgument "window statistics sequence_ids must not be empty",
                data := { projectId := project } })
  else
    match findSequences project "window statistics sequence_id must not be empty" service
        sequenceIds with
    | .error message =>
        (service, { operation := invalidArgument message, data := { projectId := project } })
    | .ok _ =>
        let size := windowSize projectId service
        match service.watermarks.find project with
        | none =>
            (service, { operation := okResult 0 "window statistics are empty",
                        data := { projectId := project } })
        | some watermark =>
            if size ≤ 0 then
              (service, { operation := okResult 0 "window statistics are empty",
                          data := { projectId := project } })
            else
              let (windows, statistics, outcome) :=
                statisticsLoop project sequenceIds service.sequenceWindows KeyedTable.empty 0
              ({ service with sequenceWindows := windows },
                { operation :=
                    match outcome with
                    | .ok count => okResult count "window statistics query completed"
                    | .error message => invalidArgument message
                  data :=
                    { windowStartTime := windowStart watermark size
                      windowEndTime := liveEnd watermark
                      sequenceStatistics := statistics
                      projectId := project } })

/-- A statistics query leaves the service alone or reads the windows, rebuilding on
    the way. -/
theorem queryWindowStatistics_service (projectId : ProjectId) (sequenceIds : List SequenceId)
    (service : WindowService) :
    (queryWindowStatistics projectId sequenceIds service).1 = service ∨
      (queryWindowStatistics projectId sequenceIds service).1 =
        { service with
          sequenceWindows := (statisticsLoop (effectiveProject projectId) sequenceIds
            service.sequenceWindows KeyedTable.empty 0).1 } := by
  simp only [queryWindowStatistics]
  by_cases hids : sequenceIds.isEmpty = true
  · rw [if_pos hids]
    exact Or.inl rfl
  rw [if_neg hids]
  cases findSequences (effectiveProject projectId)
      "window statistics sequence_id must not be empty" service sequenceIds with
  | error message => exact Or.inl rfl
  | ok sequences =>
      simp only
      cases service.watermarks.find (effectiveProject projectId) with
      | none => exact Or.inl rfl
      | some watermark =>
          simp only
          by_cases hsize : windowSize projectId service ≤ 0
          · rw [if_pos hsize]
            exact Or.inl rfl
          · rw [if_neg hsize]
            exact Or.inr rfl

end HotWindow
