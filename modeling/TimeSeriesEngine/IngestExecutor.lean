import Mathlib.Data.List.Sort
import TimeSeriesEngine.WindowService
import TimeSeriesEngine.Library.Transition

/-!
# The ingest task executor

`ingest_task_executor.cpp`: one task is admitted to a hot queue, served by any
number of workers, and to one cold queue for each writer shard it has points of,
served by one worker each.

A step is what one thread does between two points where others can interfere:
one lookup under the routing lock, one admission under the queue lock, one pop,
one wait for a predecessor, the start and the return of a callback, one update of
a task under its lock, one promise.  `step` is partial; a thread whose step is not
enabled is blocked.  What a worker has reached in its loop is recorded at the lane
it works on (`Stage`), and what the run has done so far in `log`.
-/

namespace IngestExecutor

open TseTypes KeyedTable HotWindow Transition

/-! ## Configuration -/

/-- The digits of an environment variable; `none` where the code falls back. -/
def readDigits (maximum : Nat) : List Char → Nat → Option Nat
  | [], value => some value
  | c :: cs, value =>
      if c < '0' ∨ '9' < c then none
      else
        let digit := c.toNat - '0'.toNat
        if (maximum - digit) / 10 < value then none
        else readDigits maximum cs (value * 10 + digit)

/-- A size from the environment, cut to a maximum. -/
def configuredSize (text : Option String) (fallback maximum : Nat) : Nat :=
  match text with
  | none => fallback
  | some text =>
      if text.isEmpty then fallback
      else
        match readDigits maximum text.toList 0 with
        | none => fallback
        | some value => if value = 0 ∨ maximum < value then fallback else value

/-- A configured size is positive. -/
theorem configuredSize_pos (text : Option String) {fallback : Nat} (maximum : Nat)
    (h : 0 < fallback) : 0 < configuredSize text fallback maximum := by
  cases text with
  | none => exact h
  | some text =>
      rw [configuredSize]
      split
      · exact h
      · cases readDigits maximum text.toList 0 with
        | none => exact h
        | some value =>
            simp only
            split
            · exact h
            · omega

/-- The numbers of workers and the room for tasks; none is zero. -/
structure Config where
  coldWorkerCount : Nat
  queueCapacity : Nat
  hotWorkerCount : Nat
  cold_pos : 0 < coldWorkerCount
  capacity_pos : 0 < queueCapacity
  hot_pos : 0 < hotWorkerCount

/-- The constructor's configuration, from the three environment variables. -/
def executorConfig (coldWorkers queueCapacity hotWorkers : Option String) : Config where
  coldWorkerCount := configuredSize coldWorkers 4 64
  queueCapacity := configuredSize queueCapacity 128 100000
  hotWorkerCount := configuredSize hotWorkers 1 64
  cold_pos := configuredSize_pos _ _ (by decide)
  capacity_pos := configuredSize_pos _ _ (by decide)
  hot_pos := configuredSize_pos _ _ (by decide)

/-! ## Results -/

/-- What the stages of a batch report. -/
structure IngestPipelineResult where
  storageResult : OperationResult := {}
  windowResult : OperationResult := {}
  derivedResult : OperationResult := {}
  constraintNotificationResult : OperationResult := {}
  deriving DecidableEq

/-- A refusal of the executor. -/
def unavailable (failedCount : Nat) (message : String) : OperationResult :=
  { code := .unavailable, failedCount := failedCount, message := message }

/-- What a stage reports when its worker has caught an exception. -/
def workerFailure (failedCount : Nat) (message : String) : OperationResult :=
  { code := .internalError, failedCount := failedCount, message := message }

/-- The aggregate and whether it has been initialized. -/
def mergeStorageResult (aggregate : OperationResult) (initialized : Bool)
    (part : OperationResult) : OperationResult × Bool :=
  if !initialized then (part, true)
  else
    let successCount := aggregate.successCount + part.successCount
    let code :=
      if !isSuccessful aggregate.code || !isSuccessful part.code then
        if successCount = 0 then aggregate.code else .partialSuccess
      else if aggregate.code = .partialSuccess ∨ part.code = .partialSuccess then .partialSuccess
      else aggregate.code
    let message :=
      if part.message ≠ "" ∧ part.message ≠ aggregate.message then
        (if aggregate.message ≠ "" then aggregate.message ++ "; " else aggregate.message) ++
          part.message
      else aggregate.message
    ({ code := code
       successCount := successCount
       failedCount := aggregate.failedCount + part.failedCount
       message := message }, true)

/-- How a callback ends; an exception that is no `std::exception` has no text. -/
inductive Callback where
  | hot (result : IngestPipelineResult)
  | cold (result : OperationResult)
  | threw (what : Option String)

/-- The same for all stages of the hot lane. -/
def hotFailure (count : Nat) (message : String) : IngestPipelineResult where
  windowResult := workerFailure count message
  derivedResult := workerFailure count message
  constraintNotificationResult := workerFailure count message

/-- What the hot worker makes of its callback. -/
def hotOutcome (count : Nat) : Callback → Option IngestPipelineResult
  | .hot result => some result
  | .cold _ => none
  | .threw (some what) => some (hotFailure count ("hot ingest worker failed: " ++ what))
  | .threw none => some (hotFailure count "hot ingest worker failed: unknown exception")

/-- What a cold worker makes of its callback. -/
def coldOutcome (count : Nat) : Callback → Option OperationResult
  | .hot _ => none
  | .cold result => some result
  | .threw (some what) => some (workerFailure count ("cold ingest worker failed: " ++ what))
  | .threw none => some (workerFailure count "cold ingest worker failed: unknown exception")

/-! ## Tasks -/

/-- What a task carries from its admission on.  A task is named by its place in the
    order of admission. -/
structure Task where
  data : TimeseriesBatch := {}
  coldBatches : Nat → TimeseriesBatch := fun _ => {}
  hotPredecessors : List Nat := []

/-- What its workers change. -/
structure TaskState where
  hotOrderCompleted : Bool := false
  hotCompletion : Option IngestPipelineResult := none
  completion : Option IngestPipelineResult := none
  result : IngestPipelineResult := {}
  storageInitialized : Bool := false
  remainingLanes : Nat := 1

/-- The lanes of a task. -/
inductive Lane where
  | hot
  | cold (index : Nat)
  deriving DecidableEq

/-- Where the worker of a lane is. -/
inductive Stage where
  /-- Not popped yet. -/
  | queued
  /-- In front of the callback; the hot predecessors still to wait for. -/
  | waiting (predecessors : List Nat)
  | calling
  /-- Hot: the callback is over, the order promise not yet set. -/
  | returned (result : IngestPipelineResult)
  /-- Hot: in front of `completeHot`. -/
  | ordered (result : IngestPipelineResult)
  /-- Hot: in front of `hot_completion.set_value`. -/
  | announcing (result : IngestPipelineResult)
  /-- Cold: in front of `completeCold`. -/
  | merging (result : OperationResult)
  /-- In front of `--remaining_lanes`. -/
  | counting
  /-- The last lane, in front of `completion.set_value`. -/
  | finishing (result : IngestPipelineResult)
  /-- The last lane, in front of `--pending_tasks_`. -/
  | releasing
  | done

/-- The lanes of a task: the hot one, and one for each shard with points. -/
def lanes (config : Config) (task : Task) : List Lane :=
  .hot :: ((List.range config.coldWorkerCount).filter fun index =>
    !(task.coldBatches index).points.isEmpty).map .cold

/-- A thread of the executor. -/
inductive Worker where
  | hot (index : Nat)
  | cold (index : Nat)
  deriving DecidableEq

/-- The lane a worker serves. -/
def Worker.lane : Worker → Lane
  | .hot _ => .hot
  | .cold index => .cold index

/-- The workers the constructor starts. -/
def started (config : Config) : Worker → Bool
  | .hot index => decide (index < config.hotWorkerCount)
  | .cold index => decide (index < config.coldWorkerCount)

/-! ## The state -/

/-- A call of `trySubmit` between its routing steps. -/
structure Submission where
  data : TimeseriesBatch
  unrouted : List SequenceId
  batchWriters : Table SequenceId Nat := KeyedTable.empty

/-- What the log keeps of a run. -/
inductive Event where
  | accepted (task : Nat)
  | rejected (call : Nat) (result : OperationResult)
  /-- The callback of a lane starts. -/
  | started (task : Nat) (lane : Lane)
  /-- It has returned or thrown. -/
  | returned (task : Nat) (lane : Lane)
  | hotCompleted (task : Nat)
  /-- The lane has been counted off. -/
  | finished (task : Nat) (lane : Lane)
  /-- `completion` has been set, by this lane. -/
  | completed (task : Nat) (lane : Lane)
  | released (task : Nat)
  deriving DecidableEq

/-- The queues, the tasks, where their lanes are, and what has happened. -/
structure Executor where
  sequenceWriters : Table String Nat := KeyedTable.empty
  nextWriterIndex : Nat := 0
  submissions : Nat → Option Submission := fun _ => none
  coldQueues : Nat → List Nat := fun _ => []
  hotQueue : List Nat := []
  sequenceHotTails : Table String Nat := KeyedTable.empty
  pendingTasks : Nat := 0
  stopping : Bool := false
  tasks : List Task := []
  states : Nat → TaskState := fun _ => {}
  holding : Worker → Option Nat := fun _ => none
  exited : Worker → Bool := fun _ => false
  stage : Nat → Lane → Stage := fun _ _ => .queued
  log : List Event := []

/-- A task by its number. -/
def Executor.task (s : Executor) (t : Nat) : Task := s.tasks.getD t {}

/-- The queue of a lane. -/
def Executor.queue (s : Executor) : Lane → List Nat
  | .hot => s.hotQueue
  | .cold index => s.coldQueues index

/-! ## Submitting -/

/-- The key of a sequence in the routing table and in the hot tails. -/
def sequenceKey (projectId : ProjectId) (sequenceId : SequenceId) : String :=
  scopePrefix projectId ++ sequenceId

/-- The distinct sequences of a batch, sorted. -/
def batchSequenceIds (points : List RawTimeseriesPoint) : List SequenceId :=
  (points.foldl (fun seen point => pushUnique point.sequenceId seen) []).insertionSort
    fun left right => left ≤ right

/-- `writerForSequence`: the table, the next index and the writer. -/
def writerForSequence (config : Config) (key : String) (writers : Table String Nat) (next : Nat) :
    Table String Nat × Nat × Nat :=
  match writers.find key with
  | some existing => (writers, next, existing)
  | none => (put key next writers, (next + 1) % config.coldWorkerCount, next)

/-- The cold sub-batches.  `batch_writers.at` finds every sequence of the batch. -/
def partition (writers : Table SequenceId Nat) (points : List RawTimeseriesPoint) :
    Nat → TimeseriesBatch :=
  points.foldl
    (fun batches point =>
      match writers.find point.sequenceId with
      | some shard =>
          Function.update batches shard
            { batches shard with points := (batches shard).points ++ [point] }
      | none => batches)
    fun _ => {}

/-- The admission loop over the sequences: their former tails, and the new ones. -/
def linkHotTails (task : Nat) :
    List String → Table String Nat → List Nat → Table String Nat × List Nat
  | [], tails, predecessors => (tails, predecessors)
  | key :: keys, tails, predecessors =>
      linkHotTails task keys (put key task tails)
        (match tails.find key with
        | some predecessor => predecessors ++ [predecessor]
        | none => predecessors)

/-- Why an admission is refused; `none` admits. -/
def rejection (config : Config) (failedCount : Nat) (s : Executor) : Option OperationResult :=
  if s.stopping then some (unavailable failedCount "ingest executor is shutting down")
  else if config.queueCapacity ≤ s.pendingTasks then
    some (unavailable failedCount "ingest queue is full; retry later")
  else none

/-- The admitted state. -/
def admitTask (config : Config) (submission : Submission) (s : Executor) : Executor :=
  let id := s.tasks.length
  let keys := (batchSequenceIds submission.data.points).map
    (sequenceKey submission.data.projectId)
  let (tails, predecessors) := linkHotTails id keys s.sequenceHotTails []
  let task : Task :=
    { data := submission.data
      coldBatches := partition submission.batchWriters submission.data.points
      hotPredecessors := predecessors }
  { s with
    tasks := s.tasks ++ [task]
    states := Function.update s.states id { remainingLanes := (lanes config task).length }
    sequenceHotTails := tails
    pendingTasks := s.pendingTasks + 1
    coldQueues := fun index =>
      if Lane.cold index ∈ lanes config task then s.coldQueues index ++ [id]
      else s.coldQueues index
    hotQueue := s.hotQueue ++ [id]
    log := s.log ++ [.accepted id] }

/-- The arguments of `trySubmit`; a null pointer is `none`. -/
structure Request where
  resolved : Option TimeseriesBatch
  coldWrite : Bool := true
  hotUpdate : Bool := true

/-! ## Workers -/

/-- What one step of a worker does to its lane. -/
structure Effect where
  stage : Stage
  state : TaskState
  events : List Event := []
  releases : Bool := false

/-- One step of the worker of a lane, by where it is; `none` where it is blocked. -/
def laneEffect (s : Executor) (t : Nat) (lane : Lane) (callback : Callback) : Option Effect :=
  let state := s.states t
  match s.stage t lane with
  | .queued => none
  | .waiting (predecessor :: rest) =>
      if (s.states predecessor).hotOrderCompleted then
        some { stage := .waiting rest, state := state }
      else none
  | .waiting [] => some { stage := .calling, state := state, events := [.started t lane] }
  | .calling =>
      match lane with
      | .hot =>
          (hotOutcome (s.task t).data.points.length callback).map fun result =>
            { stage := .returned result, state := state, events := [.returned t lane] }
      | .cold index =>
          (coldOutcome ((s.task t).coldBatches index).points.length callback).map fun result =>
            { stage := .merging result, state := state, events := [.returned t lane] }
  | .returned result =>
      some { stage := .ordered result, state := { state with hotOrderCompleted := true } }
  | .ordered result =>
      some
        { stage := .announcing
            { windowResult := result.windowResult
              derivedResult := result.derivedResult
              constraintNotificationResult := result.constraintNotificationResult }
          state :=
            { state with
              result :=
                { state.result with
                  windowResult := result.windowResult
                  derivedResult := result.derivedResult
                  constraintNotificationResult := result.constraintNotificationResult } } }
  | .announcing result =>
      some { stage := .counting, state := { state with hotCompletion := some result }
             events := [.hotCompleted t] }
  | .merging result =>
      let (storageResult, initialized) :=
        mergeStorageResult state.result.storageResult state.storageInitialized result
      some { stage := .counting
             state := { state with
               result := { state.result with storageResult := storageResult }
               storageInitialized := initialized } }
  | .counting =>
      let remaining := state.remainingLanes - 1
      some { stage := if remaining = 0 then .finishing state.result else .done
             state := { state with remainingLanes := remaining }
             events := [.finished t lane] }
  | .finishing result =>
      some { stage := .releasing, state := { state with completion := some result }
             events := [.completed t lane] }
  | .releasing =>
      some { stage := .done, state := state, events := [.released t], releases := true }
  | .done => none

/-- The stage of one lane changed. -/
def setStage (stage : Nat → Lane → Stage) (t : Nat) (lane : Lane) (new : Stage) :
    Nat → Lane → Stage :=
  fun t' lane' => if t' = t ∧ lane' = lane then new else stage t' lane'

/-- The effect of a worker's step; the worker lets go of a task whose lane is done. -/
def applyEffect (s : Executor) (w : Worker) (t : Nat) (effect : Effect) : Executor :=
  { s with
    stage := setStage s.stage t w.lane effect.stage
    states := Function.update s.states t effect.state
    pendingTasks :=
      if effect.releases ∧ s.pendingTasks ≠ 0 then s.pendingTasks - 1 else s.pendingTasks
    holding :=
      match effect.stage with
      | .done => Function.update s.holding w none
      | _ => s.holding
    log := s.log ++ effect.events }

/-- The stage a popped lane is in. -/
def popped (s : Executor) (t : Nat) : Lane → Stage
  | .hot => .waiting (s.task t).hotPredecessors
  | .cold _ => .waiting []

/-- The head of a queue is taken. -/
def popQueue (s : Executor) (lane : Lane) : Executor :=
  match lane with
  | .hot => { s with hotQueue := s.hotQueue.tail }
  | .cold index =>
      { s with coldQueues := Function.update s.coldQueues index (s.coldQueues index).tail }

/-! ## Steps and runs -/

/-- What the callers, the workers and the destructor do in one piece. -/
inductive Action where
  /-- `trySubmit` is called; calls in progress are told apart by a number. -/
  | submit (call : Nat) (request : Request)
  /-- One `writerForSequence` of a call. -/
  | route (call : Nat)
  /-- The part of a call under the queue lock. -/
  | admission (call : Nat)
  | pop (worker : Worker)
  | work (worker : Worker) (callback : Callback)
  | exit (worker : Worker)
  /-- The destructor sets `stopping_`. -/
  | stop

/-- Steps of workers. -/
def Action.byWorker : Action → Bool
  | .pop _ => true
  | .work _ _ => true
  | .exit _ => true
  | _ => false

/-- The worker is between two tasks. -/
def idle (config : Config) (s : Executor) (w : Worker) : Bool :=
  started config w && (s.holding w).isNone && !s.exited w

/-- One step, if it can be taken. -/
def step (config : Config) (s : Executor) : Action → Option Executor
  | .submit call request =>
      match s.submissions call with
      | some _ => none
      | none =>
          match request.resolved with
          | none =>
              some { s with
                log := s.log ++
                  [.rejected call (invalidArgument "ingest task submission is incomplete")] }
          | some data =>
              if request.coldWrite && request.hotUpdate then
                some { s with
                  submissions := Function.update s.submissions call
                    (some { data := data, unrouted := batchSequenceIds data.points }) }
              else
                some { s with
                  log := s.log ++
                    [.rejected call (invalidArgument "ingest task submission is incomplete")] }
  | .route call =>
      match s.submissions call with
      | none => none
      | some submission =>
          match submission.unrouted with
          | [] => none
          | sequenceId :: rest =>
              let (writers, next, writer) := writerForSequence config
                (sequenceKey submission.data.projectId sequenceId) s.sequenceWriters
                s.nextWriterIndex
              some { s with
                sequenceWriters := writers
                nextWriterIndex := next
                submissions := Function.update s.submissions call
                  (some { submission with
                    unrouted := rest
                    batchWriters := put sequenceId writer submission.batchWriters }) }
  | .admission call =>
      match s.submissions call with
      | none => none
      | some submission =>
          if submission.unrouted ≠ [] then none
          else
            let s := { s with submissions := Function.update s.submissions call none }
            match rejection config submission.data.points.length s with
            | some result => some { s with log := s.log ++ [.rejected call result] }
            | none => some (admitTask config submission s)
  | .pop w =>
      if idle config s w then
        match s.queue w.lane with
        | [] => none
        | t :: _ =>
            some { popQueue s w.lane with
              stage := setStage s.stage t w.lane (popped s t w.lane)
              holding := Function.update s.holding w (some t) }
      else none
  | .work w callback =>
      match s.holding w with
      | none => none
      | some t => (laneEffect s t w.lane callback).map (applyEffect s w t)
  | .exit w =>
      if idle config s w && s.stopping && (s.queue w.lane).isEmpty then
        some { s with exited := Function.update s.exited w true }
      else none
  | .stop => some { s with stopping := true }

/-- A step that is not enabled does not happen. -/
def perform (config : Config) (s : Executor) (action : Action) : Executor :=
  (step config s action).getD s

/-- The state after an interleaving. -/
def reached (config : Config) (actions : List Action) : Executor :=
  run (perform config) {} actions

end IngestExecutor
