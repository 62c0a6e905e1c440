import TimeSeriesEngine.IngestExecutor
import TimeSeriesEngine.IngestResolution
import TimeSeriesEngine.ProtoConversion

/-!
# The ingest call

`ingestData` of `timeseries_core_grpc_service.cpp`: a request is converted, resolved,
handed to the executor, and answered with one result for each stage and one for all of
them.  What the executor does with a batch is a parameter.

* `ingestData` — the handler;
* `handled_cases` — the four ways a request goes;
* `answer_exact` — the overall result says whether the batch was taken, and it is `OK`
  exactly when every stage is.
-/

namespace IngestHandler

open TseTypes Registry IngestService IngestResolution IngestExecutor ProtoConversion

/-! ## The request -/

/-- A point on the wire. -/
structure TimeseriesIngestDataMessage where
  sequenceId : Option String := none
  dataSourceId : String := ""
  externalSequenceId : String := ""
  time : Timestamp := 0
  value : Option TimeseriesValueMessage := none
  projectId : String := ""

/-- The request of `IngestData`. -/
structure IngestDataRequest where
  points : List TimeseriesIngestDataMessage := []
  returnResolvedData : Bool := false
  projectId : String := ""

/-- A stage the handler does not get to has no result. -/
structure IngestDataResponse where
  projectId : ProjectId
  operation : OperationResult
  resolveResult : Option OperationResult := none
  storageResult : Option OperationResult := none
  windowResult : Option OperationResult := none
  derivedResult : Option OperationResult := none
  constraintNotificationResult : Option OperationResult := none
  resolvedData : Option TimeseriesBatchMessage := none
  storageQueued : Bool := false

/-- An empty project is the default one. -/
def projectFor (projectId : String) : ProjectId :=
  if projectId.isEmpty then "default" else projectId

/-- `fromProto` of a point. -/
def ingestPointFromProto (source : TimeseriesIngestDataMessage) :
    Except ConversionError TimeseriesIngestData :=
  if source.sequenceId.isNone &&
      (source.dataSourceId.isEmpty || source.externalSequenceId.isEmpty) then
    .error (some "sequence_id or both external identifiers are required")
  else
    match source.value with
    | none => .error none
    | some message =>
        (valueFromProto message).map fun value =>
          { sequenceId := source.sequenceId
            dataSourceId := source.dataSourceId
            externalSequenceId := source.externalSequenceId
            time := source.time
            value := value
            projectId := source.projectId }

/-- The points of a request, under the project of the request. -/
def ingestPointsFromProto (projectId : ProjectId) :
    List TimeseriesIngestDataMessage → Except ConversionError (List TimeseriesIngestData)
  | [] => .ok []
  | point :: rest =>
      match ingestPointFromProto point with
      | .error error => .error error
      | .ok converted =>
          (ingestPointsFromProto projectId rest).map fun input =>
            { converted with projectId := projectId } :: input

/-! ## The overall result -/

/-- `combineIngestResults`. -/
def combineIngestResults (resolve storage window derived : OperationResult) : OperationResult :=
  if !isSuccessful resolve.code then resolve
  else
    let storageSucceeded := isSuccessful storage.code
    let windowSucceeded := isSuccessful window.code
    let derivedSucceeded := isSuccessful derived.code
    if !storageSucceeded && !windowSucceeded && !derivedSucceeded then
      { code := storage.code
        failedCount := resolve.failedCount + resolve.successCount
        message := "cold storage, hot window and derived refresh failed; cold: " ++
          storage.message ++ "; hot: " ++ window.message ++ "; derived: " ++ derived.message }
    else if !storageSucceeded then
      { code := .partialSuccess
        successCount := window.successCount + derived.successCount
        failedCount := resolve.failedCount + storage.failedCount + derived.failedCount
        message := "hot window/derived refresh completed but cold storage failed: " ++
          storage.message }
    else if !windowSucceeded then
      { code := .partialSuccess
        successCount := storage.successCount
        failedCount := resolve.failedCount + window.failedCount + derived.failedCount
        message := "cold storage succeeded but hot window update failed; derived " ++
          "refresh was skipped: " ++ window.message }
    else if !derivedSucceeded then
      { code := .partialSuccess
        successCount := storage.successCount + window.successCount
        failedCount := resolve.failedCount + derived.failedCount
        message := "cold storage and hot window updated but derived refresh failed: " ++
          derived.message }
    else if resolve.code = .partialSuccess ∨ storage.code = .partialSuccess ∨
        window.code = .partialSuccess ∨ derived.code = .partialSuccess then
      { code := .partialSuccess
        successCount := resolve.successCount
        failedCount := resolve.failedCount + storage.failedCount + window.failedCount
        message := "cold storage, hot window and derived refresh completed with " ++
          "partial success" }
    else
      okResult resolve.successCount
        "ingest data stored, hot window updated and derived windows refreshed"

/-- `withConstraintNotificationFailure`: a lost report shows in the answer. -/
def withConstraintNotificationFailure (base notification : OperationResult) : OperationResult :=
  if isSuccessful notification.code then base
  else
    { base with
      code := if base.code = .ok then .partialSuccess else base.code
      message := (if base.message.isEmpty then base.message else base.message ++ "; ") ++
        "constraint check/notification failed: " ++ notification.message }

/-- What became of a batch: the executor refused it, or its hot callback has completed. -/
inductive Submitted where
  | refused (admission : OperationResult)
  | completed (pipeline : IngestPipelineResult)

/-- The results of the stages, and the overall one in front of the notification. -/
structure Stages where
  storage : OperationResult
  window : OperationResult
  derived : OperationResult
  notification : OperationResult
  ingest : OperationResult
  queued : Bool := false

/-- The stages a batch that resolved has been through. -/
def stagesOf (resolved : IngestResult) : Submitted → Stages
  | .refused admission =>
      let failedCount := resolved.resolvedData.points.length
      { storage := unavailable failedCount admission.message
        window := unavailable failedCount admission.message
        derived :=
          unavailable failedCount "derived refresh skipped: ingest task was not admitted"
        notification := okResult 0 "constraint check skipped: ingest task was not admitted"
        ingest := unavailable
          (resolved.operation.successCount + resolved.operation.failedCount) admission.message }
  | .completed pipeline =>
      let storage := okResult 0 "cold storage queued for asynchronous TDengine persistence"
      let combined := combineIngestResults resolved.operation storage pipeline.windowResult
        pipeline.derivedResult
      { storage := storage
        window := pipeline.windowResult
        derived := pipeline.derivedResult
        notification := pipeline.constraintNotificationResult
        queued := true
        ingest :=
          if combined.code = .ok then
            { combined with
              message := "ingest data accepted; cold storage queued, hot " ++
                "window updated and derived windows refreshed" }
          else if !combined.message.isEmpty then
            { combined with message := combined.message ++ "; cold storage queued asynchronously" }
          else combined }

/-- The stages of a batch that did not resolve. -/
def skippedStages (resolved : IngestResult) : Stages :=
  let storage :=
    failedPrecondition "storage skipped because ingest resolution did not succeed"
  let window :=
    failedPrecondition "window update skipped because ingest resolution did not succeed"
  let derived :=
    failedPrecondition "derived refresh skipped because ingest resolution did not succeed"
  { storage := storage
    window := window
    derived := derived
    notification := okResult 0 "constraint check skipped because hot window update failed"
    ingest := combineIngestResults resolved.operation storage window derived }

/-- A request that is refused before it is resolved. -/
def invalidRequest (projectId : ProjectId) (message : String) : IngestDataResponse :=
  { projectId := projectId
    operation := invalidArgument message
    resolveResult := some (invalidArgument message)
    derivedResult := some (invalidArgument message) }

/-- The response to a request that has been resolved. -/
def respond (request : IngestDataRequest) (resolved : IngestResult) (stages : Stages) :
    IngestDataResponse :=
  { projectId := projectFor request.projectId
    operation := withConstraintNotificationFailure stages.ingest stages.notification
    resolveResult := some resolved.operation
    storageResult := some stages.storage
    windowResult := some stages.window
    derivedResult := some stages.derived
    constraintNotificationResult := some stages.notification
    storageQueued := stages.queued
    resolvedData :=
      if request.returnResolvedData then some (batchToProto resolved.resolvedData {}) else none }

/-- What the converted points of a request are resolved to. -/
def resolvedOf (registry : RuntimeConfigRegistry) (request : IngestDataRequest)
    (input : List TimeseriesIngestData) : IngestResult :=
  ingestAndResolveData (projectFor request.projectId) registry input

/-- `ingestData`; `submit` stands for the executor, up to the hot completion. -/
def ingestData (registry : RuntimeConfigRegistry) (submit : TimeseriesBatch → Submitted)
    (request : IngestDataRequest) : IngestDataResponse :=
  let projectId := projectFor request.projectId
  if request.points.isEmpty then invalidRequest projectId "points must not be empty"
  else
    match ingestPointsFromProto projectId request.points with
    | .error error => invalidRequest projectId (error.getD "")
    | .ok input =>
        let resolved := resolvedOf registry request input
        if isSuccessful resolved.operation.code then
          respond request resolved (stagesOf resolved (submit resolved.resolvedData))
        else respond request resolved (skippedStages resolved)

/-! ## The overall code -/

/-- A batch whose cold data is queued is never answered with a failure. -/
theorem combine_code {resolve : OperationResult} (storage window derived : OperationResult)
    (hresolve : isSuccessful resolve.code = true) (hstorage : storage.code = .ok) :
    (combineIngestResults resolve storage window derived).code =
      if resolve.code = .ok ∧ window.code = .ok ∧ derived.code = .ok then .ok
      else .partialSuccess := by
  have hsuccess : isSuccessful storage.code = true := by rw [hstorage]; rfl
  have hnot : ∀ {code : OperationCode}, ¬ isSuccessful code = true → code ≠ .ok := by
    rintro code hno rfl
    exact hno rfl
  have hcases : ∀ {code : OperationCode}, isSuccessful code = true →
      code ≠ .partialSuccess → code = .ok := by
    intro code hcode hpart
    cases code <;> first | rfl | exact absurd rfl hpart | cases hcode
  rw [combineIngestResults, if_neg (by simp [hresolve])]
  simp only
  rw [if_neg (by simp [hsuccess]), if_neg (by simp [hsuccess])]
  by_cases hwindow : isSuccessful window.code = true
  · rw [if_neg (by simp [hwindow])]
    by_cases hderived : isSuccessful derived.code = true
    · rw [if_neg (by simp [hderived])]
      by_cases hpart : resolve.code = .partialSuccess ∨ storage.code = .partialSuccess ∨
          window.code = .partialSuccess ∨ derived.code = .partialSuccess
      · rw [if_pos hpart, if_neg]
        rintro ⟨hr, hw, hd⟩
        rw [hr, hstorage, hw, hd] at hpart
        rcases hpart with h | h | h | h <;> cases h
      · rw [if_neg hpart, if_pos]
        · rfl
        · refine ⟨hcases hresolve fun h => hpart (Or.inl h),
            hcases hwindow fun h => hpart (Or.inr (Or.inr (Or.inl h))),
            hcases hderived fun h => hpart (Or.inr (Or.inr (Or.inr h)))⟩
    · rw [if_pos (by simp [hderived]), if_neg]
      exact fun h => hnot hderived h.2.2
  · rw [if_pos (by simp [hwindow]), if_neg]
    exact fun h => hnot hwindow h.2.1

/-- When all is well the counts are those of the resolution. -/
theorem combine_ok {resolve window derived : OperationResult} (storage : OperationResult)
    (hstorage : storage.code = .ok)
    (h : resolve.code = .ok ∧ window.code = .ok ∧ derived.code = .ok) :
    combineIngestResults resolve storage window derived =
      okResult resolve.successCount
        "ingest data stored, hot window updated and derived windows refreshed" := by
  obtain ⟨hresolve, hwindow, hderived⟩ := h
  simp [combineIngestResults, hresolve, hstorage, hwindow, hderived, isSuccessful]

/-- A failed report turns a success into a partial one. -/
theorem withConstraintNotificationFailure_code (base notification : OperationResult) :
    (withConstraintNotificationFailure base notification).code =
      if base.code = .ok ∧ isSuccessful notification.code = false then .partialSuccess
      else base.code := by
  rw [withConstraintNotificationFailure]
  by_cases hsuccess : isSuccessful notification.code = true
  · rw [if_pos hsuccess, if_neg]
    exact fun h => absurd h.2 (by simp [hsuccess])
  · rw [if_neg hsuccess]
    by_cases hbase : base.code = .ok
    · exact (if_pos hbase).trans (if_pos ⟨hbase, Bool.eq_false_iff.mpr hsuccess⟩).symm
    · exact (if_neg hbase).trans (if_neg fun h => hbase h.1).symm

theorem withConstraintNotificationFailure_counts (base notification : OperationResult) :
    (withConstraintNotificationFailure base notification).successCount = base.successCount ∧
      (withConstraintNotificationFailure base notification).failedCount = base.failedCount := by
  rw [withConstraintNotificationFailure]
  split <;> exact ⟨rfl, rfl⟩

/-! ## The ways a request goes -/

section Ways

variable {registry : RuntimeConfigRegistry} {submit : TimeseriesBatch → Submitted}
  {request : IngestDataRequest}

/-- Each message becomes one point. -/
theorem ingestPointsFromProto_length {projectId : ProjectId}
    {points : List TimeseriesIngestDataMessage} {input : List TimeseriesIngestData}
    (h : ingestPointsFromProto projectId points = .ok input) : input.length = points.length := by
  induction points generalizing input with
  | nil =>
      obtain rfl := Except.ok.inj h
      rfl
  | cons point rest ih =>
      rw [ingestPointsFromProto] at h
      cases hpoint : ingestPointFromProto point with
      | error error =>
          rw [hpoint] at h
          cases h
      | ok converted =>
          rw [hpoint] at h
          cases hrest : ingestPointsFromProto projectId rest with
          | error error =>
              rw [hrest] at h
              cases h
          | ok others =>
              rw [hrest] at h
              obtain rfl := Except.ok.inj h
              exact congrArg Nat.succ (ih hrest)

/-- The executor has taken the batch of a request. -/
def Taken (registry : RuntimeConfigRegistry) (submit : TimeseriesBatch → Submitted)
    (request : IngestDataRequest) : Prop :=
  ∃ input, ingestPointsFromProto (projectFor request.projectId) request.points = .ok input ∧
    isSuccessful (resolvedOf registry request input).operation.code = true ∧
    ∃ pipeline, submit (resolvedOf registry request input).resolvedData = .completed pipeline

/-- The ways a request goes. -/
inductive Handled (registry : RuntimeConfigRegistry) (submit : TimeseriesBatch → Submitted)
    (request : IngestDataRequest) : IngestDataResponse → Prop where
  | malformed (message : String) (untaken : ¬ Taken registry submit request)
      (converts : ∀ input,
        ingestPointsFromProto (projectFor request.projectId) request.points = .ok input →
          request.points = []) :
      Handled registry submit request (invalidRequest (projectFor request.projectId) message)
  | unresolved {input : List TimeseriesIngestData} (filled : input ≠ [])
      (converted :
        ingestPointsFromProto (projectFor request.projectId) request.points = .ok input)
      (failed : isSuccessful (resolvedOf registry request input).operation.code = false) :
      Handled registry submit request
        (respond request (resolvedOf registry request input)
          (skippedStages (resolvedOf registry request input)))
  | submitted {input : List TimeseriesIngestData} (filled : input ≠ [])
      (converted :
        ingestPointsFromProto (projectFor request.projectId) request.points = .ok input)
      (resolved : isSuccessful (resolvedOf registry request input).operation.code = true)
      {outcome : Submitted}
      (handed : submit (resolvedOf registry request input).resolvedData = outcome) :
      Handled registry submit request
        (respond request (resolvedOf registry request input)
          (stagesOf (resolvedOf registry request input) outcome))

/-- How a request is handled, case by case. -/
theorem handled_cases (registry : RuntimeConfigRegistry) (submit : TimeseriesBatch → Submitted)
    (request : IngestDataRequest) :
    Handled registry submit request (ingestData registry submit request) := by
  rw [ingestData]
  by_cases hempty : request.points.isEmpty = true
  · simp only
    rw [if_pos hempty]
    refine .malformed _ ?_ fun _ _ => List.isEmpty_iff.mp hempty
    rintro ⟨input, hinput, hresolved, -⟩
    rw [List.isEmpty_iff.mp hempty] at hinput
    obtain rfl := Except.ok.inj hinput
    cases hresolved
  simp only
  rw [if_neg hempty]
  cases hinput : ingestPointsFromProto (projectFor request.projectId) request.points with
  | error error =>
      have hnone : ∀ input, ingestPointsFromProto (projectFor request.projectId)
          request.points ≠ .ok input := by
        intro input hok
        rw [hinput] at hok
        cases hok
      exact .malformed _ (fun ⟨input, hok, _⟩ => hnone input hok)
        fun input hok => absurd hok (hnone input)
  | ok input =>
      have hfilled : input ≠ [] := by
        rintro rfl
        have hlength := ingestPointsFromProto_length hinput
        exact hempty (List.isEmpty_iff.mpr (List.length_eq_zero_iff.mp hlength.symm))
      simp only
      by_cases hresolved : isSuccessful (resolvedOf registry request input).operation.code = true
      · rw [if_pos hresolved]
        exact .submitted hfilled hinput hresolved rfl
      · rw [if_neg hresolved]
        exact .unresolved hfilled hinput (Bool.eq_false_iff.mpr hresolved)

end Ways

/-! ## The answer -/

/-- Every stage of a response has gone well. -/
structure StagesOk (response : IngestDataResponse) : Prop where
  queued : response.storageQueued = true
  resolve : response.resolveResult.map OperationResult.code = some .ok
  window : response.windowResult.map OperationResult.code = some .ok
  derived : response.derivedResult.map OperationResult.code = some .ok
  notification : ∃ result, response.constraintNotificationResult = some result ∧
    isSuccessful result.code = true

/-- A resolution that is `OK` kept every point. -/
theorem resolved_ok {p : ProjectId} {registry : RuntimeConfigRegistry}
    {input : List TimeseriesIngestData} (hne : input ≠ [])
    (h : (ingestAndResolveData p registry input).operation.code = .ok) :
    (ingestAndResolveData p registry input).operation.successCount = input.length := by
  have hsum := @counts_add p registry _ hne
  have hzero : (ingestAndResolveData p registry input).operation.failedCount = 0 := by
    rw [operation_of_ne hne] at h ⊢
    simp only at h ⊢
    split at h
    · rename_i hempty
      have hnil := List.isEmpty_iff.mp hempty
      have hfail : isSuccessful (ingestAndResolveData p registry input).operation.code = true := by
        rw [operation_of_ne hne]
        simp only
        rw [if_pos hempty]
        exact h ▸ rfl
      exact absurd hnil (resolvedData_points p registry input ▸ points_of_successful hfail)
    · split at h
      · cases h
      · rename_i hfull hnone
        rw [if_neg hfull, if_neg hnone]
        rfl
  omega

/-- The overall result of a batch the executor took. -/
theorem completed_code {resolved : IngestResult} (pipeline : IngestPipelineResult)
    (h : isSuccessful resolved.operation.code = true) (request : IngestDataRequest) :
    (respond request resolved (stagesOf resolved (.completed pipeline))).operation.code =
      if resolved.operation.code = .ok ∧ pipeline.windowResult.code = .ok ∧
          pipeline.derivedResult.code = .ok ∧
          isSuccessful pipeline.constraintNotificationResult.code = true then .ok
      else .partialSuccess := by
  have hcombined := combine_code
    (okResult 0 "cold storage queued for asynchronous TDengine persistence")
    pipeline.windowResult pipeline.derivedResult h rfl
  have hingest : (stagesOf resolved (.completed pipeline)).ingest.code =
      (combineIngestResults resolved.operation (okResult 0
        "cold storage queued for asynchronous TDengine persistence") pipeline.windowResult
        pipeline.derivedResult).code := by
    rw [stagesOf]
    simp only
    split
    · rfl
    · split <;> rfl
  have hbase := hingest.trans hcombined
  refine (withConstraintNotificationFailure_code _ _).trans ?_
  by_cases hall : resolved.operation.code = .ok ∧ pipeline.windowResult.code = .ok ∧
      pipeline.derivedResult.code = .ok
  · have hok := hbase.trans (if_pos hall)
    by_cases hnotified : isSuccessful pipeline.constraintNotificationResult.code = true
    · have hkept : ¬ ((stagesOf resolved (.completed pipeline)).ingest.code = .ok ∧
          isSuccessful pipeline.constraintNotificationResult.code = false) := by
        rintro ⟨-, hfailed⟩
        rw [hnotified] at hfailed
        cases hfailed
      exact (if_neg hkept).trans
        (hok.trans (if_pos ⟨hall.1, hall.2.1, hall.2.2, hnotified⟩).symm)
    · exact (if_pos ⟨hok, Bool.eq_false_iff.mpr hnotified⟩).trans
        (if_neg fun h => hnotified h.2.2.2).symm
  · have hpart := hbase.trans (if_neg hall)
    refine (if_neg fun h => ?_).trans
      (hpart.trans (if_neg fun h => hall ⟨h.1, h.2.1, h.2.2.1⟩).symm)
    rw [hpart] at h
    cases h.1

/-- The counts of a batch that went well are those of its resolution. -/
theorem completed_counts {resolved : IngestResult} {pipeline : IngestPipelineResult}
    (h : resolved.operation.code = .ok ∧ pipeline.windowResult.code = .ok ∧
      pipeline.derivedResult.code = .ok) (request : IngestDataRequest) :
    (respond request resolved (stagesOf resolved (.completed pipeline))).operation.successCount =
        resolved.operation.successCount ∧
      (respond request resolved (stagesOf resolved (.completed pipeline))).operation.failedCount =
        0 := by
  have hcombined := combine_ok
    (okResult 0 "cold storage queued for asynchronous TDengine persistence") rfl h
  have hcounts := withConstraintNotificationFailure_counts
    (stagesOf resolved (.completed pipeline)).ingest
    (stagesOf resolved (.completed pipeline)).notification
  have hingest : (stagesOf resolved (.completed pipeline)).ingest.successCount =
        resolved.operation.successCount ∧
      (stagesOf resolved (.completed pipeline)).ingest.failedCount = 0 := by
    rw [stagesOf]
    simp only
    rw [hcombined]
    exact ⟨rfl, rfl⟩
  exact ⟨hcounts.1.trans hingest.1, hcounts.2.trans hingest.2⟩

/-- The overall result of a batch that did not resolve is that of the resolution. -/
theorem skipped_operation {resolved : IngestResult}
    (h : isSuccessful resolved.operation.code = false) (request : IngestDataRequest) :
    (respond request resolved (skippedStages resolved)).operation = resolved.operation := by
  have hingest : (skippedStages resolved).ingest = resolved.operation :=
    if_pos (by rw [h]; rfl)
  have hkept : (respond request resolved (skippedStages resolved)).operation =
      withConstraintNotificationFailure (skippedStages resolved).ingest
        (skippedStages resolved).notification := rfl
  rw [hkept, hingest]
  exact if_pos rfl

/-- A resolution that fails counts every point as failed. -/
theorem unresolved_counts {p : ProjectId} {registry : RuntimeConfigRegistry}
    {input : List TimeseriesIngestData} (hne : input ≠ [])
    (h : isSuccessful (ingestAndResolveData p registry input).operation.code = false) :
    (ingestAndResolveData p registry input).operation.successCount = 0 ∧
      (ingestAndResolveData p registry input).operation.failedCount = input.length := by
  have hsum := @counts_add p registry _ hne
  have hzero : (ingestAndResolveData p registry input).operation.successCount = 0 := by
    rw [operation_of_ne hne] at h ⊢
    simp only at h ⊢
    split at h
    · rename_i hempty
      rw [if_pos hempty]
    · split at h
      · cases h
      · cases h
  exact ⟨hzero, by omega⟩

/-- **The answer is exact.**  Whatever the executor does with a batch: a response is
    successful exactly when the executor took the batch; it is `OK` exactly when every
    stage of it is, and then counts every point of the request as a success; and when the
    points convert and the response is not successful, every one counts as failed. -/
theorem answer_exact (registry : RuntimeConfigRegistry) (submit : TimeseriesBatch → Submitted)
    (request : IngestDataRequest) :
    let response := ingestData registry submit request
    (response.storageQueued = true ↔ Taken registry submit request) ∧
      (isSuccessful response.operation.code = true ↔ response.storageQueued = true) ∧
      (response.operation.code = .ok ↔ StagesOk response) ∧
      (response.operation.code = .ok →
        response.operation.successCount = request.points.length ∧
          response.operation.failedCount = 0) ∧
      ((∃ input,
          ingestPointsFromProto (projectFor request.projectId) request.points = .ok input) →
        isSuccessful response.operation.code = false →
          response.operation.successCount = 0 ∧
            response.operation.failedCount = request.points.length) := by
  have hhandled := handled_cases registry submit request
  generalize ingestData registry submit request = response at hhandled ⊢
  have hfailing : ∀ {code : OperationCode}, isSuccessful code = false → code ≠ .ok := by
    rintro code hno rfl
    cases hno
  cases hhandled with
  | malformed message untaken converts =>
      refine ⟨iff_of_false Bool.false_ne_true untaken,
        iff_of_false Bool.false_ne_true Bool.false_ne_true, ⟨?_, ?_⟩, ?_, ?_⟩
      · intro h
        cases h
      · intro h
        exact absurd h.queued Bool.false_ne_true
      · intro h
        cases h
      · rintro ⟨input, hinput⟩ -
        rw [converts input hinput]
        exact ⟨rfl, rfl⟩
  | @unresolved input filled converted failed =>
      have hoperation := skipped_operation failed request
      have hcounts := unresolved_counts filled failed
      rw [ingestPointsFromProto_length converted] at hcounts
      have hqueued : ¬ (respond request (resolvedOf registry request input)
          (skippedStages (resolvedOf registry request input))).storageQueued = true :=
        Bool.false_ne_true
      refine ⟨iff_of_false hqueued ?_, iff_of_false ?_ hqueued, ⟨?_, ?_⟩, ?_, ?_⟩
      · rintro ⟨other, hother, hok, -⟩
        obtain rfl := Except.ok.inj (converted.symm.trans hother)
        rw [failed] at hok
        cases hok
      · rw [hoperation, failed]
        exact Bool.false_ne_true
      · intro h
        rw [hoperation] at h
        exact absurd h (hfailing failed)
      · intro h
        exact absurd h.queued hqueued
      · intro h
        rw [hoperation] at h
        exact absurd h (hfailing failed)
      · intro _ _
        rw [hoperation]
        exact hcounts
  | @submitted input filled converted resolved outcome handed =>
      have hlength := ingestPointsFromProto_length converted
      have htaken : Taken registry submit request ↔ ∃ pipeline, outcome = .completed pipeline := by
        constructor
        · rintro ⟨other, hother, -, pipeline, htook⟩
          obtain rfl := Except.ok.inj (converted.symm.trans hother)
          exact ⟨pipeline, handed.symm.trans htook⟩
        · rintro ⟨pipeline, rfl⟩
          exact ⟨input, converted, resolved, pipeline, handed⟩
      rw [htaken]
      cases outcome with
      | refused admission =>
          have hcounts := @counts_add (projectFor request.projectId) registry _ filled
          refine ⟨⟨?_, ?_⟩, iff_of_false Bool.false_ne_true Bool.false_ne_true, ⟨?_, ?_⟩, ?_, ?_⟩
          · exact fun h => absurd h Bool.false_ne_true
          · rintro ⟨_, h⟩
            cases h
          · intro h
            cases h
          · intro h
            exact absurd h.queued Bool.false_ne_true
          · intro h
            cases h
          · exact fun _ _ => ⟨rfl, hcounts.trans hlength⟩
      | completed pipeline =>
          have hcode := completed_code pipeline resolved request
          have hok : (respond request (resolvedOf registry request input)
              (stagesOf (resolvedOf registry request input) (.completed pipeline))).operation.code =
                .ok ↔
              (resolvedOf registry request input).operation.code = .ok ∧
                pipeline.windowResult.code = .ok ∧ pipeline.derivedResult.code = .ok ∧
                isSuccessful pipeline.constraintNotificationResult.code = true := by
            rw [hcode]
            split
            · rename_i hall
              exact iff_of_true rfl hall
            · rename_i hnot
              exact iff_of_false (fun h => by cases h) hnot
          refine ⟨iff_of_true rfl ⟨pipeline, rfl⟩, iff_of_true ?_ rfl, hok.trans ⟨?_, ?_⟩, ?_, ?_⟩
          · rw [hcode]
            split <;> rfl
          · rintro ⟨hresolve, hwindow, hderived, hnotified⟩
            exact ⟨rfl, congrArg some hresolve, congrArg some hwindow, congrArg some hderived,
              pipeline.constraintNotificationResult, rfl, hnotified⟩
          · rintro ⟨-, hresolve, hwindow, hderived, notification, hsame, hnotified⟩
            obtain rfl := Option.some.inj hsame
            exact ⟨Option.some.inj hresolve, Option.some.inj hwindow, Option.some.inj hderived,
              hnotified⟩
          · intro h
            obtain ⟨hresolve, hwindow, hderived, -⟩ := hok.mp h
            have hcounts := completed_counts ⟨hresolve, hwindow, hderived⟩ request
            exact ⟨hcounts.1.trans ((resolved_ok filled hresolve).trans hlength), hcounts.2⟩
          · intro _ h
            rw [hcode] at h
            split at h <;> cases h

end IngestHandler
