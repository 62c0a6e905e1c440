import TimeSeriesEngine.HotIngest
import TimeSeriesEngine.ProtoConversion
import TimeSeriesEngine.RelationAlignment
import TimeSeriesEngine.ServedWindows
import TimeSeriesEngine.StatisticsService

/-!
# The requests that analyse a window

Statistics, constraint checks and alignment take a window that the caller sends, or the name
of a window the service has; naming it avoids returning a window and sending it back.

* `computeBasicStatistics`, `checkConstraints`, `alignWindowData` — the handlers;
* `Resent` — a window that has been to the caller and back;
* `sources_agree` — both ways have the same answer.
-/

namespace AnalysisHandlers

open TseTypes KeyedTable ConstraintCheck Registry HotWindow SeqAlignment RelationAlignment
open StatisticsService ProtoConversion HotIngest

/-! ## The messages -/

/-- The request of a window query. -/
structure QueryWindowDataRequest where
  sequenceIds : List String := []
  startTime : Option Timestamp := none
  endTime : Option Timestamp := none
  projectId : String := ""

/-- Its answer; the window goes back as a message. -/
structure QueryWindowDataResponse where
  operation : OperationResult
  data : WindowDataMessage := {}
  projectId : ProjectId

/-- The role of a sequence on the wire; a number outside the enumeration is kept. -/
inductive VariableRoleMessage where
  | unspecified
  | independent
  | dependent
  | unknown (number : Int)

/-- An aggregation on the wire; a number outside the enumeration is kept. -/
inductive BucketAggregationMessage where
  | unspecified
  | first
  | last
  | average
  | maximum
  | minimum
  | unknown (number : Int)

/-- A fill method on the wire; a number outside the enumeration is kept. -/
inductive GapFillMethodMessage where
  | unspecified
  | near
  | previous
  | next
  | linear
  | unknown (number : Int)

/-- A sequence to align, on the wire. -/
structure SequenceAlignmentConfigMessage where
  sequenceId : String := ""
  role : VariableRoleMessage := .unspecified
  aggregation : Option BucketAggregationMessage := none
  fillMethod : Option GapFillMethodMessage := none

/-- An alignment configuration on the wire. -/
structure AlignmentConfigMessage where
  sequences : List SequenceAlignmentConfigMessage := []
  bucketInterval : Option Int := none

/-- `oneof source` of the statistics and of the constraint checks. -/
inductive AnalysisSource where
  | notSet
  | windowData (data : WindowDataMessage)
  | alignedData (data : AlignedWindowDataMessage)
  | windowQuery (query : QueryWindowDataRequest)

/-- The request for statistics, with a relation or without. -/
structure ComputeStatisticsRequest where
  source : AnalysisSource := .notSet
  relationId : String := ""
  projectId : String := ""

/-- The request for a check of some rules. -/
structure CheckConstraintsRequest where
  constraintIds : List String := []
  source : AnalysisSource := .notSet
  projectId : String := ""

/-- Where an alignment takes its window from. -/
inductive AlignmentSource where
  | notSet
  | data (data : WindowDataMessage)
  | windowQuery (query : QueryWindowDataRequest)

/-- The request for an alignment. -/
structure AlignWindowDataRequest where
  source : AlignmentSource := .notSet
  config : Option AlignmentConfigMessage := none
  relationIds : List String := []
  projectId : String := ""

/-! ## Decoding a configuration -/

/-- The role is checked; the alignment does not read it. -/
def roleError : VariableRoleMessage → Option String
  | .independent | .dependent | .unspecified => none
  | .unknown _ => some "alignment variable role is unspecified"

/-- `fromProto` of an aggregation; none where it is unspecified. -/
def aggregationFromProto : BucketAggregationMessage → Except String (Option BucketAggregation)
  | .first => .ok (some .first)
  | .last => .ok (some .last)
  | .average => .ok (some .average)
  | .maximum => .ok (some .maximum)
  | .minimum => .ok (some .minimum)
  | .unspecified => .ok none
  | .unknown _ => .error "unknown alignment aggregation"

/-- `fromProto` of a fill method; none where it is unspecified. -/
def fillMethodFromProto : GapFillMethodMessage → Except String (Option GapFillMethod)
  | .near => .ok (some .near)
  | .previous => .ok (some .previous)
  | .next => .ok (some .next)
  | .linear => .ok (some .linear)
  | .unspecified => .ok none
  | .unknown _ => .error "unknown alignment fill method"

/-- One turn of the loop over the sequences. -/
def sequenceConfigFromProto (sequence : SequenceAlignmentConfigMessage) :
    Except String SequenceAlignmentConfig :=
  if sequence.sequenceId.isEmpty then .error "alignment sequence_id must not be empty"
  else
    match roleError sequence.role with
    | some error => .error error
    | none =>
        match sequence.aggregation.elim (.ok none) aggregationFromProto with
        | .error error => .error error
        | .ok aggregation =>
            match sequence.fillMethod.elim (.ok none) fillMethodFromProto with
            | .error error => .error error
            | .ok fillMethod =>
                .ok
                  { sequenceId := sequence.sequenceId
                    aggregation := aggregation
                    fillMethod := fillMethod }

/-- `fromProto` of an alignment configuration. -/
def alignmentConfigFromProto (source : AlignmentConfigMessage) : Except String AlignmentConfig :=
  if source.bucketInterval.any fun interval => decide (interval ≤ 0) then
    .error "bucket_interval must be positive"
  else
    (source.sequences.mapM sequenceConfigFromProto).map fun sequences =>
      { sequences := sequences, bucketInterval := source.bucketInterval }

/-- `fromProto` of a window query; it asks for no context points. -/
def windowQueryFromProto (source : QueryWindowDataRequest) : WindowQuery where
  sequenceIds := source.sequenceIds
  startTime := source.startTime
  endTime := source.endTime

/-! ## The handlers -/

/-- An answer with the code of an internal error. -/
def internalError (message : String) : OperationResult :=
  { code := .internalError, message := message }

/-- `validTimeRange`: the start is not behind the end. -/
def validTimeRange (start finish : Option Timestamp) : Bool :=
  start.all fun first => finish.all fun last => decide (first ≤ last)

/-- `joinConstraintIds`. -/
def joinConstraintIds (ids : List String) : String := ", ".intercalate ids

section Handlers

variable {K : Type} [Field K] [LinearOrder K]

/-- The handler of `queryWindowData`. -/
def queryWindowData (capacity : Nat) (walk : Walk (List RawTimeseriesPoint)) (core : CoreService)
    (request : QueryWindowDataRequest) : QueryWindowDataResponse :=
  let projectId := effectiveProject request.projectId
  let query := windowQueryFromProto request
  if query.sequenceIds.isEmpty || !validTimeRange query.startTime query.endTime then
    { operation := invalidArgument
        "sequence_ids must not be empty and time range must be ordered"
      projectId := projectId }
  else
    match HotWindow.queryWindowData capacity projectId query core.window with
    | .error message => { operation := internalError message, projectId := projectId }
    | .ok result =>
        { operation := result.operation
          data := windowToProto walk result.data {}
          projectId := projectId }

/-- The window a query names, or why there is none; an exception ends in `guardedCall`. -/
def queriedWindow (capacity : Nat) (core : CoreService) (projectId : ProjectId)
    (query : QueryWindowDataRequest) : Except OperationResult WindowData :=
  match HotWindow.queryWindowData capacity projectId (windowQueryFromProto query) core.window with
  | .error message => .error (internalError message)
  | .ok result =>
      if isSuccessful result.operation.code then .ok result.data else .error result.operation

/-- The window a caller sends. -/
def sentWindow (projectId : ProjectId) (message : WindowDataMessage) :
    Except OperationResult WindowData :=
  match windowFromProto message {} with
  | .error error => .error (invalidArgument (error.getD ""))
  | .ok data => .ok { data with projectId := projectId }

/-- The handler of `computeBasicStatistics`; with a relation the window is aligned first. -/
def computeBasicStatistics (capacity : Nat) (sqrt : K → K) (core : CoreService)
    (request : ComputeStatisticsRequest) : StatisticsResult K :=
  let projectId := effectiveProject request.projectId
  let refused (operation : OperationResult) : StatisticsResult K :=
    { operation := operation, projectId := projectId }
  match request.source with
  | .windowData message =>
      if !request.relationId.isEmpty then
        refused (invalidArgument "relation_id requires aligned_data as the statistics source")
      else
        match sentWindow projectId message with
        | .error operation => refused operation
        | .ok data => StatisticsService.computeBasicStatistics sqrt projectId data
  | .alignedData message =>
      match alignedFromProto message {} with
      | .error error =>
          let text := error.getD ""
          refused (invalidArgument (if text.isEmpty then "aligned data is required" else text))
      | .ok data =>
          if request.relationId.isEmpty then
            refused (invalidArgument "relation_id is required for aligned statistics")
          else
            match findRelation projectId request.relationId core.configs with
            | none =>
                refused
                  { code := .notFound
                    message := "relation is not registered: " ++ request.relationId }
            | some relation =>
                if !relation.enabled then
                  refused (failedPrecondition ("relation is not enabled: " ++ request.relationId))
                else
                  computeAlignedStatistics sqrt projectId { data with projectId := projectId }
                    relation
  | .windowQuery query =>
      if !request.relationId.isEmpty then
        refused (invalidArgument "relation_id requires aligned_data as the statistics source")
      else
        match queriedWindow capacity core projectId query with
        | .error operation => refused operation
        | .ok data => StatisticsService.computeBasicStatistics sqrt projectId data
  | .notSet => refused (invalidArgument "statistics source is required")

end Handlers

/-- Why the requested rules cannot be checked. -/
def lookupError (lookup : ConstraintLookupResult) : Option OperationResult :=
  if lookup.missingIds.isEmpty && lookup.disabledIds.isEmpty then none
  else
    some (failedPrecondition
      ("requested constraints are not all enabled" ++
        (if lookup.missingIds.isEmpty then ""
          else "; missing=[" ++ joinConstraintIds lookup.missingIds ++ "]") ++
        if lookup.disabledIds.isEmpty then ""
        else "; disabled=[" ++ joinConstraintIds lookup.disabledIds ++ "]"))

/-- The handler of `checkConstraints`. -/
def checkConstraints (capacity : Nat) (core : CoreService) (request : CheckConstraintsRequest) :
    ConstraintCheckResult :=
  let projectId := effectiveProject request.projectId
  let refused (operation : OperationResult) : ConstraintCheckResult :=
    { operation := operation, projectId := projectId }
  if request.constraintIds.isEmpty then
    refused (invalidArgument "constraint_ids must not be empty")
  else
    let lookup := lookupConstraints projectId core.configs request.constraintIds
    match lookupError lookup with
    | some operation => refused operation
    | none =>
        match request.source with
        | .windowData message =>
            match sentWindow projectId message with
            | .error operation => refused operation
            | .ok data => checkWindow projectId lookup.enabledRules data none
        | .alignedData message =>
            match alignedFromProto message {} with
            | .error error => refused (invalidArgument (error.getD ""))
            | .ok data =>
                checkAligned projectId lookup.enabledRules { data with projectId := projectId } none
        | .windowQuery query =>
            match queriedWindow capacity core projectId query with
            | .error operation => refused operation
            | .ok data => checkWindow projectId lookup.enabledRules data none
        | .notSet => refused (invalidArgument "constraint input source is required")

/-- A point of a project. -/
def inProject (projectId : ProjectId) (point : RawTimeseriesPoint) : RawTimeseriesPoint :=
  { point with projectId := projectId }

/-- The loop that puts every point of a window in a project. -/
def pointsInProject (projectId : ProjectId) (data : WindowData) : WindowData :=
  { data with
    sequenceValues :=
      { keys := data.sequenceValues.keys
        find := fun s => (data.sequenceValues.find s).map (·.map (inProject projectId))
        nodup := data.sequenceValues.nodup
        mem_keys := fun s => by rw [Option.isSome_map, data.sequenceValues.mem_keys] } }

/-- The window an alignment is to work on. -/
def alignmentWindow (capacity : Nat) (core : CoreService) (projectId : ProjectId) :
    AlignmentSource → Except OperationResult WindowData
  | .data message => (sentWindow projectId message).map (pointsInProject projectId)
  | .windowQuery query => queriedWindow capacity core projectId query
  | .notSet => .error (invalidArgument "alignment source is required")

/-- The loop over the requested relations. -/
def alignmentRelation (core : CoreService) (projectId : ProjectId) (relationId : String) :
    Except OperationResult RuntimeRelationConfig :=
  if relationId.isEmpty then
    .error (invalidArgument "alignment relation_id must not be empty")
  else
    match findRelation projectId relationId core.configs with
    | none =>
        .error { code := .notFound, message := "relation is not registered: " ++ relationId }
    | some relation =>
        if !relation.enabled then
          .error (failedPrecondition ("relation is not enabled: " ++ relationId))
        else .ok relation

/-- The configuration of a request, or the default one. -/
def requestedConfig (request : AlignWindowDataRequest) : Except OperationResult AlignmentConfig :=
  match request.config with
  | none => .ok {}
  | some message =>
      match alignmentConfigFromProto message with
      | .error error =>
          .error (invalidArgument (if error.isEmpty then "alignment config is invalid" else error))
      | .ok config => .ok config

/-- The handler of `alignWindowData`. -/
def alignWindowData (capacity : Nat) (core : CoreService) (request : AlignWindowDataRequest) :
    AlignmentResult :=
  let projectId := effectiveProject request.projectId
  let refused (operation : OperationResult) : AlignmentResult :=
    { operation := operation, projectId := projectId }
  match requestedConfig request with
  | .error operation => refused operation
  | .ok config =>
      match alignmentWindow capacity core projectId request.source with
      | .error operation => refused operation
      | .ok data =>
          match request.relationIds.mapM (alignmentRelation core projectId) with
          | .error operation => refused operation
          | .ok relations => alignWithRelations projectId core.configs data config relations

/-! ## A window that has been away -/

section Resent

variable {projectId : ProjectId} {data data' : WindowData}

/-- The window again, with its points in a project. -/
structure Resent (projectId : ProjectId) (data data' : WindowData) : Prop where
  start : data'.windowStartTime = data.windowStartTime
  finish : data'.windowEndTime = data.windowEndTime
  project : data'.projectId = data.projectId
  values : ∀ s, data'.sequenceValues.find s =
    (data.sequenceValues.find s).map (·.map (inProject projectId))

theorem Resent.keys (h : Resent projectId data data') :
    data'.sequenceValues.keys.Perm data.sequenceValues.keys := by
  refine (List.perm_ext_iff_of_nodup data'.sequenceValues.nodup data.sequenceValues.nodup).mpr
    fun s => ?_
  rw [data'.sequenceValues.mem_keys, data.sequenceValues.mem_keys, h.values, Option.isSome_map]

theorem Resent.keys_isEmpty (h : Resent projectId data data') :
    data'.sequenceValues.keys.isEmpty = data.sequenceValues.keys.isEmpty := by
  rw [Bool.eq_iff_iff, List.isEmpty_iff, List.isEmpty_iff]
  exact ⟨fun hnil => List.Perm.eq_nil (hnil ▸ h.keys.symm),
    fun hnil => List.Perm.eq_nil (hnil ▸ h.keys)⟩

theorem Resent.points (h : Resent projectId data data') (s : SequenceId) :
    (data'.sequenceValues.find s).getD [] =
      ((data.sequenceValues.find s).getD []).map (inProject projectId) := by
  rw [h.values]
  cases data.sequenceValues.find s <;> rfl

/-- A window with the project written into its points is one sent back. -/
theorem Resent.pointsInProject (h : Resent projectId data data') :
    Resent projectId data (pointsInProject projectId data') := by
  refine ⟨h.start, h.finish, h.project, fun s => ?_⟩
  show (data'.sequenceValues.find s).map _ = _
  rw [h.values, Option.map_map]
  refine congrArg (fun change => Option.map change (data.sequenceValues.find s)) ?_
  funext points
  exact List.map_map

/-- The checks pass again. -/
theorem Resent.valid (h : Resent projectId data data') (hproject : data.projectId = projectId)
    (hvalid : validateWindowData projectId data = none) :
    validateWindowData projectId data' = none := by
  rw [validateWindowData, if_neg (by simp [hproject])] at hvalid
  split at hvalid
  · cases hvalid
  rename_i hordered
  rw [validateWindowData, if_neg (by simp [h.project, hproject]), h.start, h.finish,
    if_neg hordered]
  refine List.findSome?_eq_none_iff.mpr fun s hs => ?_
  obtain ⟨hid, hpoints⟩ := validateSequenceValues_eq_none.mp
    (List.findSome?_eq_none_iff.mp hvalid s (h.keys.mem_iff.mp hs))
  rw [h.points]
  refine validateSequenceValues_eq_none.mpr ⟨hid, fun q hq => ?_⟩
  obtain ⟨point, hpoint, rfl⟩ := List.mem_map.mp hq
  obtain ⟨hsequence, hraw⟩ := hpoints point hpoint
  exact ⟨hsequence, validateRawPoint_eq_none.mpr
    ⟨Or.inr rfl, (validateRawPoint_eq_none.mp hraw).2⟩⟩

/-! ## The wire -/

/-- A walk of one table, for another one with the same keys. -/
def walkOf {ν : Type} (walk : Walk ν) (table : Table SequenceId ν) : Walk ν where
  order other := if other.keys = table.keys then walk.order table else other.keys
  perm other := by
    split
    · rename_i hkeys
      rw [hkeys]
      exact walk.perm table
    · exact List.Perm.refl _

/-- The project of a point does not travel. -/
theorem sequenceToProto_inProject (s : SequenceId) (points : List RawTimeseriesPoint) :
    sequenceToProto s (points.map (inProject projectId)) = sequenceToProto s points := by
  rw [sequenceToProto_eq, sequenceToProto_eq, List.map_map]
  rfl

/-- The project of the points does not go over the wire. -/
theorem windowToProto_inProject (walk : Walk (List RawTimeseriesPoint)) (data : WindowData)
    (target : WindowDataMessage) :
    windowToProto (walkOf walk data.sequenceValues) (pointsInProject projectId data) target =
      windowToProto walk data target := by
  rw [windowToProto, windowToProto, walkOf]
  show List.foldl _ _ (if data.sequenceValues.keys = data.sequenceValues.keys then _ else _) = _
  rw [if_pos rfl]
  refine congrArg (fun step => List.foldl step _ (walk.order data.sequenceValues)) ?_
  funext target s
  cases hfind : data.sequenceValues.find s with
  | none => simp only [addSequenceToProto, pointsInProject, hfind, Option.map_none]
  | some points =>
      simp only [addSequenceToProto, pointsInProject, hfind, Option.map_some,
        sequenceToProto_inProject]

/-- **There and back.**  What a service decodes from the window it has handed out. -/
theorem sentWindow_resent (walk : Walk (List RawTimeseriesPoint))
    (hproject : data.projectId = projectId)
    (hvalid : validateWindowData projectId data = none) :
    ∃ data', sentWindow projectId (windowToProto walk data {}) = .ok data' ∧
      Resent projectId data data' := by
  rw [validateWindowData, if_neg (by simp [hproject])] at hvalid
  split at hvalid
  · cases hvalid
  have hsequences := fun s hs => validateSequenceValues_eq_none.mp
    (List.findSome?_eq_none_iff.mp hvalid s hs)
  have hwire : WireWindow (pointsInProject projectId data) := by
    refine ⟨fun s hs => (hsequences s hs).1.1, fun s points hfind q hq => ?_⟩
    obtain ⟨own, hown, rfl⟩ := Option.map_eq_some_iff.mp hfind
    obtain ⟨point, hpoint, rfl⟩ := List.mem_map.mp hq
    have hs := (data.sequenceValues.mem_keys s).mpr (by rw [hown]; rfl)
    have hmem : point ∈ (data.sequenceValues.find s).getD [] := by
      rw [hown]
      exact hpoint
    exact ⟨((hsequences s hs).2 point hmem).1, hproject.symm⟩
  obtain ⟨result, hdecode, hsame⟩ :=
    window_round_trip (walkOf walk data.sequenceValues) hwire {} {}
  rw [windowToProto_inProject] at hdecode
  refine ⟨{ result with projectId := projectId }, ?_, hsame.start, hsame.finish, hproject.symm,
    hsame.values⟩
  rw [sentWindow, hdecode]

/-! ## Constraint checks -/

theorem resolveSample_inProject (window : List RawTimeseriesPoint) :
    resolveSample (window.map (inProject projectId)) = resolveSample window := by
  funext term mapped
  rw [resolveSample, resolveSample, List.getElem?_map]
  cases window[term.sampleOffset]? <;> rfl

/-- The check of the anchors reads no project. -/
theorem checkAnchors_inProject (rule : ConstraintRule) (maximumOffset : Nat)
    (rangeEnd : Option Timestamp) (points : List RawTimeseriesPoint) :
    checkAnchors rule maximumOffset rangeEnd (points.map (inProject projectId)) =
      checkAnchors rule maximumOffset rangeEnd points := by
  induction points with
  | nil => rfl
  | cons anchor rest ih =>
      have hresolve := @resolveSample_inProject projectId (anchor :: rest)
      rw [List.map_cons] at hresolve ⊢
      rw [checkAnchors, checkAnchors, ih, List.length_map, hresolve]
      rfl

/-- The numbers of a window do not depend on the project. -/
theorem windowNumbers_inProject (start finish : Timestamp) (points : List RawTimeseriesPoint) :
    windowNumbers start finish (points.map (inProject projectId)) =
      windowNumbers start finish points := by
  induction points with
  | nil => rfl
  | cons point points ih =>
      rw [List.map_cons, windowNumbers, windowNumbers, ih]
      rfl

/-- A window sent back has the same statistics. -/
theorem Resent.buildStatistics (h : Resent projectId data data') (rule : ConstraintRule)
    (terms : List ConstraintTerm) (statistics : Table SequenceId SequenceWindowStatistics)
    (seen : List SequenceId) :
    buildStatistics rule data' terms statistics seen =
      buildStatistics rule data terms statistics seen := by
  induction terms generalizing statistics seen with
  | nil => rfl
  | cons term terms ih =>
      rw [ConstraintCheck.buildStatistics, ConstraintCheck.buildStatistics, h.values]
      cases data.sequenceValues.find (mappedSequence rule term) with
      | none => simp only [ih, Option.map_none]
      | some points =>
          simp only [ih, Option.map_some, h.start, h.finish, windowNumbers_inProject]

/-- A rule is checked alike on a window sent back. -/
theorem Resent.checkWindowRule (h : Resent projectId data data') (rule : ConstraintRule) :
    checkWindowRule data' none rule = checkWindowRule data none rule := by
  rw [ConstraintCheck.checkWindowRule, ConstraintCheck.checkWindowRule]
  cases validateConstraintRule rule with
  | error message => rfl
  | ok properties =>
      simp only [h.buildStatistics, h.start, h.finish, h.project]
      cases singleSequence rule with
      | none => rfl
      | some s =>
          simp only [h.values]
          cases data.sequenceValues.find s with
          | none => rfl
          | some points =>
              simp only [Option.map_some, List.length_map, fromFirstAnchor,
                checkAnchors_inProject]

theorem Resent.checkWindow (h : Resent projectId data data')
    (hproject : data.projectId = projectId) (hvalid : validateWindowData projectId data = none)
    (rules : List ConstraintRule) :
    checkWindow projectId rules data' none = checkWindow projectId rules data none := by
  rw [ConstraintCheck.checkWindow, ConstraintCheck.checkWindow, h.valid hproject hvalid, hvalid,
    h.start, h.finish, h.keys_isEmpty, funext h.checkWindowRule]

/-! ## Statistics -/

/-- Equal, with the metrics compared sequence by sequence. -/
structure SameStatistics {K : Type} (result result' : StatisticsResult K) : Prop where
  operation : result'.operation = result.operation
  metrics : ∀ s, result'.sequenceMetrics.find s = result.sequenceMetrics.find s
  correlations : result'.correlationVector = result.correlationVector
  project : result'.projectId = result.projectId

theorem numericValues_inProject (points : List RawTimeseriesPoint) :
    numericValues (points.map (inProject projectId)) = numericValues points := by
  induction points with
  | nil => rfl
  | cons point points ih =>
      rw [List.map_cons, numericValues, numericValues, ih]
      rfl

theorem minmaxTime_inProject (points : List RawTimeseriesPoint) :
    minmaxTime (points.map (inProject projectId)) = minmaxTime points := by
  cases points with
  | nil => rfl
  | cons point points =>
      rw [List.map_cons, minmaxTime, minmaxTime, List.foldl_map, List.foldl_map]
      rfl

theorem metricsOf_inProject (points : List RawTimeseriesPoint) :
    metricsOf (points.map (inProject projectId)) = metricsOf points := by
  rw [metricsOf, metricsOf, addWindowMetadata, addWindowMetadata, numericValues_inProject,
    minmaxTime_inProject, List.length_map]

theorem Resent.usable (h : Resent projectId data data') (s : SequenceId) :
    usable data' s = usable data s := by
  rw [StatisticsService.usable, StatisticsService.usable, h.points, numericValues_inProject,
    List.isEmpty_map]

theorem Resent.filed (h : Resent projectId data data') (s : SequenceId) :
    filed data' s = filed data s := by
  rw [StatisticsService.filed, StatisticsService.filed, h.points, metricsOf_inProject,
    List.isEmpty_map]

/-- A window sent back has the same statistics, up to the order of its sequences. -/
theorem Resent.statistics (h : Resent projectId data data')
    (hproject : data.projectId = projectId) (hvalid : validateWindowData projectId data = none) :
    SameStatistics (StatisticsService.computeBasicStatistics Real.sqrt projectId data)
      (StatisticsService.computeBasicStatistics Real.sqrt projectId data') := by
  obtain ⟨hsuccess, hfailed, hfind⟩ := tallyOf_spec data
  obtain ⟨hsuccess', hfailed', hfind'⟩ := tallyOf_spec data'
  have hoperation : statisticsOperation (tallyOf Real.sqrt data') =
      statisticsOperation (tallyOf Real.sqrt data) := by
    rw [statisticsOperation, statisticsOperation, hsuccess, hsuccess', hfailed, hfailed',
      funext h.usable, h.keys.countP_eq, h.keys.countP_eq]
  rw [StatisticsService.computeBasicStatistics, StatisticsService.computeBasicStatistics,
    h.valid hproject hvalid, hvalid, h.start, h.finish, h.keys_isEmpty, hoperation]
  simp only
  split
  · exact ⟨rfl, fun _ => rfl, rfl, rfl⟩
  split
  · exact ⟨rfl, fun _ => rfl, rfl, rfl⟩
  refine ⟨rfl, fun s => ?_, rfl, rfl⟩
  rw [hfind, hfind', h.filed]
  exact if_congr h.keys.mem_iff rfl rfl

/-! ## Alignment -/

theorem gapTimes_inProject (points : List RawTimeseriesPoint) :
    gapTimes (points.map (inProject projectId)) = gapTimes points := by
  rw [gapTimes, gapTimes, List.map_map]
  rfl

/-- The bucket width inferred from a window sent back. -/
theorem Resent.inferBucketInterval (h : Resent projectId data data')
    (sequences : List SequenceAlignmentConfig) :
    inferBucketInterval data' sequences = inferBucketInterval data sequences := by
  rw [SeqAlignment.inferBucketInterval, SeqAlignment.inferBucketInterval]
  refine congrArg (fun step => List.foldl step none sequences) ?_
  funext smallest sequence
  rw [h.values]
  cases data.sequenceValues.find sequence.sequenceId with
  | none => rfl
  | some points => simp only [Option.map_some, List.length_map, gapTimes_inProject]

/-- The buckets of a sequence do not depend on the project. -/
theorem addPoints_inProject (grid : Grid) (s : SequenceId) (aggregation : BucketAggregation)
    (shift : Int) (points : List RawTimeseriesPoint) (buckets : Nat → Option BucketAccumulator) :
    addPoints grid s aggregation shift (points.map (inProject projectId)) buckets =
      addPoints grid s aggregation shift points buckets := by
  induction points generalizing buckets with
  | nil => rfl
  | cons point points ih =>
      rw [List.map_cons, addPoints, addPoints]
      simp only [ih]
      rfl

/-- The columns of a window sent back. -/
theorem Resent.alignSequences (h : Resent projectId data data') (grid : Grid)
    (shift : SequenceId → Int)
    (sequences : List (SequenceId × BucketAggregation × GapFillMethod)) :
    alignSequences grid data' shift sequences = alignSequences grid data shift sequences := by
  induction sequences with
  | nil => rfl
  | cons sequence sequences ih =>
      rw [SeqAlignment.alignSequences, SeqAlignment.alignSequences, ih, alignSequence,
        alignSequence, h.points, addPoints_inProject]

/-- The columns a failed call leaves are the same as well. -/
theorem Resent.columnsBefore (h : Resent projectId data data') (grid : Grid)
    (shift : SequenceId → Int)
    (sequences : List (SequenceId × BucketAggregation × GapFillMethod)) :
    columnsBefore grid data' shift sequences = columnsBefore grid data shift sequences := by
  induction sequences with
  | nil => rfl
  | cons sequence sequences ih =>
      rw [SeqAlignment.columnsBefore, SeqAlignment.columnsBefore, ih, alignSequence, alignSequence,
        h.points, addPoints_inProject]

theorem Resent.failedOnGrid (h : Resent projectId data data') (samples : List AlignedSample)
    (message : String) :
    failedOnGrid projectId data' samples message = failedOnGrid projectId data samples message := by
  rw [SeqAlignment.failedOnGrid, SeqAlignment.failedOnGrid, h.start, h.finish]

/-- A configuration that names its sequences decides in which order they are aligned. -/
theorem Resent.alignWithRelations (h : Resent projectId data data')
    (hproject : data.projectId = projectId) (hvalid : validateWindowData projectId data = none)
    (configs : RuntimeConfigRegistry) {config : AlignmentConfig} (hnamed : config.sequences ≠ [])
    (relations : List RuntimeRelationConfig) :
    alignWithRelations projectId configs data' config relations =
      alignWithRelations projectId configs data config relations := by
  have hrequested : ∀ data : WindowData, requestedSequences data config = config.sequences :=
    fun data => if_neg fun hempty => hnamed (List.isEmpty_iff.mp hempty)
  have hgrid : ∀ interval, RangeAlignment.gridOf data' interval =
      RangeAlignment.gridOf data interval := by
    intro interval
    rw [RangeAlignment.gridOf, RangeAlignment.gridOf, h.start, h.finish]
  simp only [RelationAlignment.alignWithRelations, h.valid hproject hvalid, hvalid, hrequested,
    h.start, h.finish, hgrid, h.inferBucketInterval, h.alignSequences, h.columnsBefore,
    h.failedOnGrid]

end Resent

/-! ## The two ways to a window -/

section Sources

variable {capacity : Nat} {walk : Walk (List RawTimeseriesPoint)} {core : CoreService}
  {query : QueryWindowDataRequest}

/-- What a query is refused for by its handler, the window service refuses as well. -/
theorem queriedWindow_refused
    (h : ((windowQueryFromProto query).sequenceIds.isEmpty || !validTimeRange
      (windowQueryFromProto query).startTime (windowQueryFromProto query).endTime) = true)
    (projectId : ProjectId) : ∃ operation, isSuccessful operation.code = false ∧
      queriedWindow capacity core projectId query = .error operation := by
  rw [queriedWindow, HotWindow.queryWindowData]
  by_cases hempty : (windowQueryFromProto query).sequenceIds.isEmpty = true
  · simp only [hempty, if_true]
    exact ⟨_, rfl, rfl⟩
  · have hrange : (windowQueryFromProto query).startTime.any (fun start =>
        (windowQueryFromProto query).endTime.any fun finish => decide (finish < start)) = true := by
      rw [Bool.or_eq_true, or_iff_right hempty, Bool.not_eq_true', validTimeRange] at h
      cases hstart : (windowQueryFromProto query).startTime with
      | none =>
          rw [hstart] at h
          cases h
      | some start =>
          cases hfinish : (windowQueryFromProto query).endTime with
          | none =>
              rw [hstart, hfinish] at h
              cases h
          | some finish =>
              rw [hstart, hfinish] at h
              exact decide_eq_true (not_le.mp (of_decide_eq_false h))
    simp only [if_neg hempty, hrange, if_true]
    exact ⟨_, rfl, rfl⟩

/-- The window behind an answer of the query handler, or none. -/
theorem queriedWindow_cases :
    (isSuccessful (queryWindowData capacity walk core query).operation.code = false ∧
        ∃ operation, isSuccessful operation.code = false ∧
          queriedWindow capacity core (effectiveProject query.projectId) query =
            .error operation) ∨
      isSuccessful (queryWindowData capacity walk core query).operation.code = true ∧
        ∃ result, HotWindow.queryWindowData capacity (effectiveProject query.projectId)
            (windowQueryFromProto query) core.window = .ok result ∧
          isSuccessful result.operation.code = true ∧
          queriedWindow capacity core (effectiveProject query.projectId) query =
            .ok result.data ∧
          (queryWindowData capacity walk core query).data = windowToProto walk result.data {} := by
  rw [queryWindowData]
  split
  · rename_i hchecked
    exact Or.inl ⟨rfl, queriedWindow_refused hchecked _⟩
  cases hresult : HotWindow.queryWindowData capacity (effectiveProject query.projectId)
      (windowQueryFromProto query) core.window with
  | error message =>
      rw [queriedWindow, hresult]
      exact Or.inl ⟨rfl, _, rfl, rfl⟩
  | ok result =>
      have hqueried : queriedWindow capacity core (effectiveProject query.projectId) query =
          if isSuccessful result.operation.code then .ok result.data
          else .error result.operation := by
        rw [queriedWindow, hresult]
      rw [hqueried]
      cases hcode : isSuccessful result.operation.code with
      | false => exact Or.inl ⟨rfl, result.operation, hcode, rfl⟩
      | true => exact Or.inr ⟨rfl, result, rfl, hcode, rfl, rfl⟩

theorem mapM_ne_nil {α β ε : Type} {f : α → Except ε β} {xs : List α} {ys : List β}
    (h : xs.mapM f = .ok ys) (hne : xs ≠ []) : ys ≠ [] := by
  cases xs with
  | nil => exact absurd rfl hne
  | cons x xs =>
      rw [List.mapM_cons] at h
      cases hx : f x with
      | error error =>
          rw [hx] at h
          cases h
      | ok y =>
          rw [hx] at h
          cases hxs : xs.mapM f with
          | error error =>
              rw [hxs] at h
              cases h
          | ok rest =>
              rw [hxs] at h
              obtain rfl := Except.ok.inj h
              exact List.cons_ne_nil y rest

/-- A request that names sequences gives a configuration that does. -/
theorem requestedConfig_named {request : AlignWindowDataRequest} {message : AlignmentConfigMessage}
    {config : AlignmentConfig} (hmessage : request.config = some message)
    (hne : message.sequences ≠ []) (h : requestedConfig request = .ok config) :
    config.sequences ≠ [] := by
  simp only [requestedConfig, hmessage] at h
  cases hdecode : alignmentConfigFromProto message with
  | error error =>
      rw [hdecode] at h
      cases h
  | ok decoded =>
      rw [hdecode] at h
      obtain rfl := Except.ok.inj h
      rw [alignmentConfigFromProto] at hdecode
      split at hdecode
      · cases hdecode
      cases hmap : message.sequences.mapM sequenceConfigFromProto with
      | error error =>
          rw [hmap] at hdecode
          cases hdecode
      | ok sequences =>
          rw [hmap] at hdecode
          obtain rfl := Except.ok.inj hdecode
          exact mapM_ne_nil hmap hne

theorem requestedConfig_refused {request : AlignWindowDataRequest} {operation : OperationResult}
    (h : requestedConfig request = .error operation) : isSuccessful operation.code = false := by
  rw [requestedConfig] at h
  split at h
  · cases h
  · split at h
    · rw [← Except.error.inj h]
      rfl
    · cases h

theorem lookupError_refused {lookup : ConstraintLookupResult} {operation : OperationResult}
    (h : lookupError lookup = some operation) : isSuccessful operation.code = false := by
  rw [lookupError] at h
  split at h
  · cases h
  · rw [← Option.some.inj h]
    rfl

/-- **ASKING BY NAME AGREES WITH SENDING.**  After every run of window operations, of any
    projects whose keys do not run into each other: when a query of a window succeeds, each
    service has the same answer for the window it names and for the one that the answer
    holds, sent back; when it does not, each service refuses the query. -/
theorem sources_agree {calls : List WindowRuns.ServiceCall}
    (hr : ∀ call ∈ calls, WindowRefinement.InRange call.op) (capacity : Nat)
    (walk : Walk (List RawTimeseriesPoint)) (core : CoreService)
    (hwindow : core.window = Transition.run WindowRuns.callStep {} calls)
    (query : QueryWindowDataRequest)
    (hapart : ServedWindows.Apart (effectiveProject query.projectId) calls) :
    let response := queryWindowData capacity walk core query
    let p := query.projectId
    (isSuccessful response.operation.code = true →
      (∀ ids, checkConstraints capacity core ⟨ids, .windowData response.data, p⟩ =
          checkConstraints capacity core ⟨ids, .windowQuery query, p⟩) ∧
        (∀ relationId, SameStatistics
          (computeBasicStatistics capacity Real.sqrt core ⟨.windowQuery query, relationId, p⟩)
          (computeBasicStatistics capacity Real.sqrt core
            ⟨.windowData response.data, relationId, p⟩)) ∧
        ∀ config relationIds, config.sequences ≠ [] →
          alignWindowData capacity core ⟨.data response.data, some config, relationIds, p⟩ =
            alignWindowData capacity core ⟨.windowQuery query, some config, relationIds, p⟩) ∧
      (isSuccessful response.operation.code = false →
        (∀ ids, isSuccessful
            (checkConstraints capacity core ⟨ids, .windowQuery query, p⟩).operation.code = false) ∧
          (∀ relationId, isSuccessful (computeBasicStatistics capacity Real.sqrt core
            ⟨.windowQuery query, relationId, p⟩).operation.code = false) ∧
          ∀ config relationIds, isSuccessful (alignWindowData capacity core
            ⟨.windowQuery query, config, relationIds, p⟩).operation.code = false) := by
  intro response p
  rcases @queriedWindow_cases capacity walk core query with
    ⟨hfailed, operation, hcode, hqueried⟩ | ⟨hsuccess, result, hresult, hok, hqueried, hdata⟩
  · refine ⟨fun hsuccess => absurd (hfailed.symm.trans hsuccess) Bool.false_ne_true, fun _ =>
      ⟨fun ids => ?_, fun relationId => ?_, fun config relationIds => ?_⟩⟩
    · rw [checkConstraints]
      simp only [p, hqueried]
      split
      · rfl
      split
      · rename_i refusal hlookup
        exact lookupError_refused hlookup
      · exact hcode
    · rw [computeBasicStatistics]
      simp only [p, hqueried]
      split
      · rfl
      · exact hcode
    · rw [alignWindowData]
      simp only [alignmentWindow, p, hqueried]
      split
      · rename_i refusal hconfig
        exact requestedConfig_refused hconfig
      · exact hcode
  · rw [hwindow] at hresult
    have hserved := ServedWindows.served_of_success (StoredPoints.run_stored hr).valid
      (fun _ => ServedWindows.run_watermark_ge hr) hresult hok
    have hvalid := hserved.valid hr hapart
    have hproject := hserved.project
    rw [effectiveProject_idem] at hvalid hproject
    obtain ⟨data', hsent, hresent⟩ := sentWindow_resent walk hproject hvalid
    rw [← hdata] at hsent
    refine ⟨fun _ => ⟨fun ids => ?_, fun relationId => ?_, fun config relationIds hne => ?_⟩,
      fun hfailed => absurd (hfailed.symm.trans hsuccess) Bool.false_ne_true⟩
    · rw [checkConstraints, checkConstraints]
      simp only [p, response, hqueried, hsent, hresent.checkWindow hproject hvalid]
    · rw [computeBasicStatistics, computeBasicStatistics]
      simp only [p, response, hqueried, hsent]
      split
      · exact ⟨rfl, fun _ => rfl, rfl, rfl⟩
      · exact hresent.statistics hproject hvalid
    · rw [alignWindowData, alignWindowData]
      simp only [alignmentWindow, p, response, hqueried, hsent, Except.map]
      cases hconfig : requestedConfig
          ⟨.windowQuery query, some config, relationIds, query.projectId⟩ with
      | error refusal =>
          have hsame : requestedConfig ⟨.data (queryWindowData capacity walk core query).data,
              some config, relationIds, query.projectId⟩ = .error refusal := hconfig
          rw [hsame]
      | ok decoded =>
          have hsame : requestedConfig ⟨.data (queryWindowData capacity walk core query).data,
              some config, relationIds, query.projectId⟩ = .ok decoded := hconfig
          rw [hsame]
          simp only [hresent.pointsInProject.alignWithRelations hproject hvalid core.configs
            (requestedConfig_named rfl hne hconfig)]

end Sources

/-- The service after the two meters have been read. -/
def metersCore : CoreService where
  window := Transition.run WindowRuns.callStep {} ServedWindows.twoMeters

/-- A query of the whole window of `s`. -/
def metersQuery : QueryWindowDataRequest where
  sequenceIds := ["s"]
  projectId := "p"

theorem sources_agree_two_meters :
    SameStatistics
        (computeBasicStatistics 9 Real.sqrt metersCore ⟨.windowQuery metersQuery, "", "p"⟩)
        (computeBasicStatistics 9 Real.sqrt metersCore
          ⟨.windowData (queryWindowData 9 creationOrder metersCore metersQuery).data, "", "p"⟩) ∧
      alignWindowData 9 metersCore
          ⟨.data (queryWindowData 9 creationOrder metersCore metersQuery).data,
            some { sequences := [{ sequenceId := "s" }] }, [], "p"⟩ =
        alignWindowData 9 metersCore
          ⟨.windowQuery metersQuery, some { sequences := [{ sequenceId := "s" }] }, [], "p"⟩ := by
  have hok : isSuccessful
      (queryWindowData 9 creationOrder metersCore metersQuery).operation.code = true := by
    decide +kernel
  obtain ⟨-, hstatistics, halignment⟩ := (sources_agree ServedWindows.twoMeters_inRange 9
    creationOrder metersCore rfl metersQuery ServedWindows.twoMeters_apart).1 hok
  exact ⟨hstatistics "", halignment _ [] (List.cons_ne_nil _ _)⟩

end AnalysisHandlers
