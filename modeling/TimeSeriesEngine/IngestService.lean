import TimeSeriesEngine.ColdRoundTrip
import TimeSeriesEngine.UpdateReport
import TimeSeriesEngine.Registry

/-!
# What ingest accepts

`ingest_service.cpp`: each point of a request is resolved against the registry, checked
against the data type of its instance, and dropped with an error or added to the
batch.  The window and the cold store check the batch once more, all or nothing.

* `admitted_iff` — the points the request admits;
* `insertChecks_eq_none` — the batches the cold store takes;
* `stores_accept_iff` — both stores accept what ingest accepted, in every split, iff
  the admitted points fit the columns and keep one kind for each sequence.
-/

namespace IngestService

open TseTypes KeyedTable HotWindow WindowUpdate Registry TaosClient

/-- A point as it comes in, under its own id or an external one. -/
structure TimeseriesIngestData where
  sequenceId : Option SequenceId := none
  dataSourceId : String := ""
  externalSequenceId : String := ""
  time : Timestamp
  value : TimeseriesValue
  projectId : ProjectId := ""

/-- The resolved batch, and what ingest reports. -/
structure IngestResult where
  operation : OperationResult
  resolvedData : TimeseriesBatch
  projectId : ProjectId

/-- `valueMatchesDataType`; an unknown type accepts every kind. -/
def valueMatchesDataType (dataType : String) (value : TimeseriesValue) : Bool :=
  if dataType = "" then true
  else if dataType = "double" ∨ dataType = "float" ∨ dataType = "continuous" then
    decide (valueIndex value = 0)
  else if dataType = "int" ∨ dataType = "int64" ∨ dataType = "integer" ∨ dataType = "discrete" then
    decide (valueIndex value = 1)
  else if dataType = "bool" ∨ dataType = "boolean" then decide (valueIndex value = 2)
  else if dataType = "string" ∨ dataType = "text" ∨ dataType = "label" ∨
      dataType = "categorical" then
    decide (valueIndex value = 3)
  else true

/-- The first half of the loop body: the sequence of a point and its instance, or the
    error. -/
def resolvePoint (projectId : ProjectId) (registry : RuntimeConfigRegistry)
    (point : TimeseriesIngestData) :
    Except (OperationCode × String) (SequenceId × Option RuntimeInstanceConfig) :=
  match point.sequenceId with
  | some sequenceId =>
      if sequenceId.isEmpty then .error (.invalidArgument, "sequence_id must not be empty")
      else
        match findInstance projectId sequenceId registry with
        | none => .error (.notFound, "sequence is not registered: " ++ sequenceId)
        | some config =>
            if !point.dataSourceId.isEmpty && !point.externalSequenceId.isEmpty &&
                decide (resolveSequenceId projectId point.dataSourceId point.externalSequenceId
                  registry ≠ some sequenceId) then
              .error (.invalidArgument,
                "external identifiers do not match sequence_id: " ++ sequenceId)
            else .ok (sequenceId, some config)
  | none =>
      if point.dataSourceId.isEmpty || point.externalSequenceId.isEmpty then
        .error (.invalidArgument, "sequence_id or both external identifiers are required")
      else
        match resolveSequenceId projectId point.dataSourceId point.externalSequenceId registry with
        | none =>
            .error (.notFound, "sequence is not registered for external identifiers: " ++
              point.dataSourceId ++ ":" ++ point.externalSequenceId)
        | some sequenceId => .ok (sequenceId, findInstance projectId sequenceId registry)

/-- The second half: the value against the data type, and finite. -/
def checkValue (config : Option RuntimeInstanceConfig) (value : TimeseriesValue) :
    Option String :=
  match config with
  | none => some "value type does not match registered data_type"
  | some config =>
      if !valueMatchesDataType config.dataType value then
        some "value type does not match registered data_type"
      else
        match value with
        | .double number => if isFinite number then none else some "double value must be finite"
        | _ => none

/-- One turn of the loop: a point of the batch, or the error. -/
def ingestPoint (projectId : ProjectId) (registry : RuntimeConfigRegistry)
    (point : TimeseriesIngestData) : Except (OperationCode × String) RawTimeseriesPoint :=
  match resolvePoint projectId registry point with
  | .error error => .error error
  | .ok (sequenceId, config) =>
      match checkValue config point.value with
      | some error => .error (.invalidArgument, error)
      | none =>
          .ok
            { time := point.time
              sequenceId := sequenceId
              value := point.value
              projectId := projectId }

/-- The point of the batch an incoming point becomes. -/
def resolvedPoint (projectId : ProjectId) (registry : RuntimeConfigRegistry)
    (point : TimeseriesIngestData) : Option RawTimeseriesPoint :=
  match ingestPoint projectId registry point with
  | .ok resolved => some resolved
  | .error _ => none

/-- Why an incoming point is left out. -/
def ingestError (projectId : ProjectId) (registry : RuntimeConfigRegistry)
    (point : TimeseriesIngestData) : Option (OperationCode × String) :=
  match ingestPoint projectId registry point with
  | .ok _ => none
  | .error error => some error

/-- `ingestAndResolveData`: the points that passed in their order, the count of the
    others, and the first error. -/
def ingestAndResolveData (projectId : ProjectId) (registry : RuntimeConfigRegistry)
    (input : List TimeseriesIngestData) : IngestResult :=
  if input.isEmpty then
    { operation := invalidArgument "ingest points must not be empty"
      resolvedData := { projectId := projectId, points := [] }
      projectId := projectId }
  else
    let points := input.filterMap (resolvedPoint projectId registry)
    let errors := input.filterMap (ingestError projectId registry)
    let (firstCode, firstError) := errors.head?.getD (.invalidArgument, "")
    { operation :=
        if points.isEmpty then
          { code := firstCode
            successCount := 0
            failedCount := errors.length
            message := if firstError.isEmpty then "no ingest points were resolved" else firstError }
        else if errors.length ≠ 0 then
          { code := .partialSuccess
            successCount := points.length
            failedCount := errors.length
            message := "some ingest points could not be resolved: " ++ firstError }
        else okResult points.length "ingest points resolved"
      resolvedData := { projectId := projectId, points := points }
      projectId := projectId }

/-! ## The points a request admits -/

/-- The registry gives a point the sequence `s`. -/
def ResolvesTo (projectId : ProjectId) (registry : RuntimeConfigRegistry)
    (point : TimeseriesIngestData) (s : SequenceId) : Prop :=
  let mapped := resolveSequenceId projectId point.dataSourceId point.externalSequenceId registry
  match point.sequenceId with
  | some sequenceId =>
      sequenceId = s ∧ s ≠ "" ∧
        (point.dataSourceId ≠ "" → point.externalSequenceId ≠ "" → mapped = some s)
  | none => point.dataSourceId ≠ "" ∧ point.externalSequenceId ≠ "" ∧ mapped = some s

/-- A point is admitted for a sequence: resolved, registered, of the registered type and
    finite. -/
structure Admitted (projectId : ProjectId) (registry : RuntimeConfigRegistry)
    (point : TimeseriesIngestData) (s : SequenceId) : Prop where
  resolves : ResolvesTo projectId registry point s
  typed : ∃ config, findInstance projectId s registry = some config ∧
    valueMatchesDataType config.dataType point.value = true
  finite : ∀ number, point.value = .double number → isFinite number = true

/-- A value passes when its kind fits and it is finite. -/
theorem checkValue_eq_none {config : Option RuntimeInstanceConfig} {value : TimeseriesValue} :
    checkValue config value = none ↔
      (∃ found, config = some found ∧ valueMatchesDataType found.dataType value = true) ∧
        ∀ number, value = .double number → isFinite number = true := by
  cases config with
  | none => simp [checkValue]
  | some config =>
      cases hmatch : valueMatchesDataType config.dataType value with
      | false => simp [checkValue, hmatch]
      | true =>
          cases value with
          | double number => simp [checkValue, hmatch]
          | int64 number => simp [checkValue, hmatch]
          | bool b => simp [checkValue, hmatch]
          | string text => simp [checkValue, hmatch]

/-- When a point is resolved, and to which instance. -/
theorem resolvePoint_ok {p : ProjectId} {registry : RuntimeConfigRegistry}
    {point : TimeseriesIngestData} {s : SequenceId} {config : RuntimeInstanceConfig} :
    resolvePoint p registry point = .ok (s, some config) ↔
      ResolvesTo p registry point s ∧ findInstance p s registry = some config := by
  rw [resolvePoint, ResolvesTo]
  cases hid : point.sequenceId with
  | some sequenceId =>
      by_cases hempty : sequenceId = ""
      · simp only [String.isEmpty_iff, hempty, if_true]
        constructor
        · intro h
          cases h
        · rintro ⟨⟨rfl, hne, -⟩, -⟩
          exact absurd rfl hne
      · simp only [String.isEmpty_iff, hempty, if_false]
        cases hfind : findInstance p sequenceId registry with
        | none =>
            constructor
            · intro h
              cases h
            · rintro ⟨⟨rfl, -, -⟩, h⟩
              rw [hfind] at h
              cases h
        | some found =>
            simp only [Bool.and_eq_true, Bool.not_eq_true', decide_eq_true_eq]
            split
            · rename_i hmismatch
              constructor
              · intro h
                cases h
              · rintro ⟨⟨rfl, -, hmapped⟩, -⟩
                exact absurd (hmapped (by simpa using hmismatch.1.1) (by simpa using hmismatch.1.2))
                  hmismatch.2
            · rename_i hmatched
              constructor
              · intro h
                obtain ⟨rfl, e⟩ := Prod.mk.inj (Except.ok.inj h)
                refine ⟨⟨rfl, hempty, fun hsource hexternal => ?_⟩, hfind.trans e⟩
                by_contra hne
                exact hmatched ⟨⟨by simpa using hsource, by simpa using hexternal⟩, hne⟩
              · rintro ⟨⟨rfl, -, -⟩, h⟩
                rw [hfind] at h
                rw [Option.some.inj h]
  | none =>
      by_cases hmissing : point.dataSourceId = "" ∨ point.externalSequenceId = ""
      · simp only [Bool.or_eq_true, String.isEmpty_iff, hmissing, if_true]
        constructor
        · intro h
          cases h
        · rintro ⟨⟨hsource, hexternal, -⟩, -⟩
          exact absurd hmissing (not_or.mpr ⟨hsource, hexternal⟩)
      · simp only [Bool.or_eq_true, String.isEmpty_iff, hmissing, if_false]
        rw [not_or] at hmissing
        cases hmapped : resolveSequenceId p point.dataSourceId point.externalSequenceId registry with
        | none =>
            constructor
            · intro h
              cases h
            · rintro ⟨⟨-, -, h⟩, -⟩
              cases h
        | some sequenceId =>
            constructor
            · intro h
              obtain ⟨rfl, hfind⟩ := Prod.mk.inj (Except.ok.inj h)
              exact ⟨⟨hmissing.1, hmissing.2, rfl⟩, hfind⟩
            · rintro ⟨⟨-, -, h⟩, hfind⟩
              rw [Option.some.inj h]
              exact congrArg (fun found => Except.ok (s, found)) hfind

/-- A turn of the loop adds a point iff the request admits it. -/
theorem admitted_iff {p : ProjectId} {registry : RuntimeConfigRegistry}
    {point : TimeseriesIngestData} {q : RawTimeseriesPoint} :
    resolvedPoint p registry point = some q ↔
      Admitted p registry point q.sequenceId ∧
        q = { time := point.time, sequenceId := q.sequenceId, value := point.value,
              projectId := p } := by
  rw [resolvedPoint, ingestPoint]
  constructor
  · intro h
    cases hresolve : resolvePoint p registry point with
    | error error =>
        rw [hresolve] at h
        cases h
    | ok found =>
        obtain ⟨s, config⟩ := found
        rw [hresolve] at h
        cases hcheck : checkValue config point.value with
        | some error =>
            simp only [hcheck] at h
            cases h
        | none =>
            simp only [hcheck] at h
            obtain rfl := Option.some.inj h
            obtain ⟨⟨found, rfl, htyped⟩, hfinite⟩ := checkValue_eq_none.mp hcheck
            obtain ⟨hresolves, hfind⟩ := resolvePoint_ok.mp hresolve
            exact ⟨⟨hresolves, ⟨found, hfind, htyped⟩, hfinite⟩, rfl⟩
  · rintro ⟨⟨hresolves, ⟨config, hfind, htyped⟩, hfinite⟩, hq⟩
    rw [resolvePoint_ok.mpr ⟨hresolves, hfind⟩]
    simp only [checkValue_eq_none.mpr ⟨⟨config, rfl, htyped⟩, hfinite⟩]
    exact congrArg some hq.symm

/-- The resolved data are the admitted points. -/
theorem mem_resolvedData {p : ProjectId} {registry : RuntimeConfigRegistry}
    {input : List TimeseriesIngestData} {q : RawTimeseriesPoint} :
    q ∈ (ingestAndResolveData p registry input).resolvedData.points ↔
      ∃ point ∈ input, Admitted p registry point q.sequenceId ∧
        q = { time := point.time, sequenceId := q.sequenceId, value := point.value,
              projectId := p } := by
  have hpoints : (ingestAndResolveData p registry input).resolvedData.points =
      input.filterMap (resolvedPoint p registry) := by
    cases input with
    | nil => rfl
    | cons point input => rfl
  rw [hpoints, List.mem_filterMap]
  exact exists_congr fun point => and_congr_right fun _ => admitted_iff

theorem resolvedData_projectId (p : ProjectId) (registry : RuntimeConfigRegistry)
    (input : List TimeseriesIngestData) :
    (ingestAndResolveData p registry input).resolvedData.projectId = p := by
  cases input with
  | nil => rfl
  | cons point input => rfl

/-- No point fails with a code of success. -/
theorem ingestError_code {p : ProjectId} {registry : RuntimeConfigRegistry}
    {point : TimeseriesIngestData} {error : OperationCode × String}
    (h : ingestError p registry point = some error) : isSuccessful error.1 = false := by
  rw [ingestError, ingestPoint] at h
  cases hresolve : resolvePoint p registry point with
  | error found =>
      rw [hresolve] at h
      obtain rfl := Option.some.inj h
      rw [resolvePoint] at hresolve
      split at hresolve
      · split at hresolve
        · cases hresolve
          rfl
        · split at hresolve
          · cases hresolve
            rfl
          · split at hresolve
            · cases hresolve
              rfl
            · cases hresolve
      · split at hresolve
        · cases hresolve
          rfl
        · split at hresolve
          · cases hresolve
            rfl
          · cases hresolve
  | ok found =>
      rw [hresolve] at h
      cases hcheck : checkValue found.2 point.value with
      | none =>
          simp only [hcheck] at h
          cases h
      | some message =>
          simp only [hcheck] at h
          cases h
          rfl

/-- A request that reports success resolved a point. -/
theorem points_of_successful {p : ProjectId} {registry : RuntimeConfigRegistry}
    {input : List TimeseriesIngestData}
    (h : isSuccessful (ingestAndResolveData p registry input).operation.code = true) :
    (ingestAndResolveData p registry input).resolvedData.points ≠ [] := by
  cases input with
  | nil => cases h
  | cons point rest =>
      intro hnil
      have hempty : (point :: rest).filterMap (resolvedPoint p registry) = [] := hnil
      rw [ingestAndResolveData, if_neg (by simp)] at h
      simp only [hempty, List.isEmpty_nil, if_true] at h
      cases herrors : ((point :: rest).filterMap (ingestError p registry)).head? with
      | none =>
          rw [herrors] at h
          cases h
      | some error =>
          obtain ⟨failed, -, hfailed⟩ := List.mem_filterMap.mp (List.mem_of_head? herrors)
          rw [herrors] at h
          have hcode := ingestError_code hfailed
          exact absurd (hcode.symm.trans h) (by decide)

/-! ## The batches the stores take -/

/-- A point fits the columns. -/
structure Fits (q : RawTimeseriesPoint) : Prop where
  named : q.sequenceId ≠ ""
  short : q.sequenceId.utf8ByteSize ≤ 512
  text : ∀ text, q.value = .string text → text.utf8ByteSize ≤ 1024

/-- The points of each sequence have one kind. -/
def OneKind (points : List RawTimeseriesPoint) : Prop :=
  ∀ q ∈ points, ∀ q' ∈ points, q.sequenceId = q'.sequenceId →
    valueIndex q.value = valueIndex q'.value

theorem longText_iff {value : TimeseriesValue} :
    longText value = true ↔ ∃ text, value = .string text ∧ 1024 < text.utf8ByteSize := by
  cases value <;> simp [longText]

/-- When the cold store takes a group. -/
theorem checkGroup_eq_none {s : SequenceId} {first : RawTimeseriesPoint}
    {rest : List RawTimeseriesPoint} :
    checkGroup s (first :: rest) = none ↔
      s.utf8ByteSize ≤ 512 ∧
        (∀ q ∈ first :: rest, valueIndex q.value = valueIndex first.value) ∧
        ∀ q ∈ first :: rest, ∀ text, q.value = .string text → text.utf8ByteSize ≤ 1024 := by
  rw [checkGroup]
  by_cases hsize : 512 < s.utf8ByteSize
  · rw [if_pos hsize]
    exact ⟨fun h => (by cases h), fun h => absurd hsize (not_lt.mpr h.1)⟩
  rw [if_neg hsize]
  by_cases hkinds : ∀ q ∈ first :: rest, valueIndex q.value = valueIndex first.value
  swap
  · rw [if_pos (by simpa using hkinds)]
    exact ⟨fun h => (by cases h), fun h => absurd h.2.1 hkinds⟩
  rw [if_neg (by simpa using hkinds)]
  by_cases htexts : ∃ q ∈ first :: rest, longText q.value = true
  · -- a long string, and so a group of strings
    obtain ⟨q, hq, hlong⟩ := htexts
    obtain ⟨text, htext, hlt⟩ := longText_iff.mp hlong
    have hstring : valueIndex first.value = 3 := by
      rw [← hkinds q hq, htext]
      rfl
    have hany : ((first :: rest).any fun point => longText point.value) = true :=
      List.any_eq_true.mpr ⟨q, hq, hlong⟩
    rw [hany, hstring]
    exact ⟨fun h => (by cases h), fun h => absurd hlt (not_lt.mpr (h.2.2 q hq text htext))⟩
  · have hany : ((first :: rest).any fun point => longText point.value) = false := by
      refine Bool.eq_false_iff.mpr fun h => htexts ?_
      obtain ⟨q, hq, hlong⟩ := List.any_eq_true.mp h
      exact ⟨q, hq, hlong⟩
    rw [hany, Bool.and_false]
    refine ⟨fun _ => ⟨not_lt.mp hsize, hkinds, fun q hq text htext => ?_⟩, fun _ => rfl⟩
    by_contra hlong
    exact htexts ⟨q, hq, longText_iff.mpr ⟨text, htext, not_le.mp hlong⟩⟩

/-- The batches the cold store takes. -/
theorem insertChecks_eq_none {points : List RawTimeseriesPoint} :
    insertChecks points = none ↔ points ≠ [] ∧ (∀ q ∈ points, Fits q) ∧ OneKind points := by
  rw [insertChecks]
  by_cases hempty : points = []
  · rw [if_pos (by simpa using hempty)]
    exact ⟨fun h => (by cases h), fun h => absurd hempty h.1⟩
  rw [if_neg (by simpa using hempty)]
  by_cases hnamed : ∀ q ∈ points, q.sequenceId ≠ ""
  swap
  · simp only [not_forall, not_not] at hnamed
    obtain ⟨q, hq, hname⟩ := hnamed
    rw [if_pos (List.any_eq_true.mpr ⟨q, hq, String.isEmpty_iff.mpr hname⟩)]
    exact ⟨fun h => (by cases h), fun h => absurd hname (h.2.1 q hq).named⟩
  have hnone : ¬ (points.any fun point => point.sequenceId.isEmpty) = true := by
    intro h
    obtain ⟨q, hq, hname⟩ := List.any_eq_true.mp h
    exact hnamed q hq (String.isEmpty_iff.mp hname)
  rw [if_neg hnone, List.findSome?_eq_none_iff]
  constructor
  · intro h
    -- the group of a point, which is not empty
    have hgroup : ∀ q ∈ points, ∃ first rest,
        incomingFor q.sequenceId points = first :: rest ∧
          checkGroup q.sequenceId (first :: rest) = none := by
      intro q hq
      have hmem := mem_incomingFor.mpr ⟨hq, (rfl : q.sequenceId = q.sequenceId)⟩
      obtain ⟨first, rest, hcons⟩ := List.exists_cons_of_ne_nil (List.ne_nil_of_mem hmem)
      have hcheck := h q.sequenceId (mem_groupIds.mpr ⟨q, hq, rfl⟩)
      rw [hcons] at hcheck
      exact ⟨first, rest, hcons, hcheck⟩
    refine ⟨hempty, fun q hq => ?_, fun q hq q' hq' hsame => ?_⟩
    · obtain ⟨first, rest, hcons, hcheck⟩ := hgroup q hq
      obtain ⟨hsize, -, htexts⟩ := checkGroup_eq_none.mp hcheck
      have hmem := mem_incomingFor.mpr ⟨hq, (rfl : q.sequenceId = q.sequenceId)⟩
      rw [hcons] at hmem
      exact ⟨hnamed q hq, hsize, htexts q hmem⟩
    · obtain ⟨first, rest, hcons, hcheck⟩ := hgroup q hq
      obtain ⟨-, hkinds, -⟩ := checkGroup_eq_none.mp hcheck
      have hmem := mem_incomingFor.mpr ⟨hq, (rfl : q.sequenceId = q.sequenceId)⟩
      have hmem' := mem_incomingFor.mpr ⟨hq', hsame.symm⟩
      rw [hcons] at hmem hmem'
      exact (hkinds q hmem).trans (hkinds q' hmem').symm
  · rintro ⟨-, hfits, hone⟩ s hs
    cases hcons : incomingFor s points with
    | nil => rfl
    | cons first rest =>
        have hin : ∀ q ∈ first :: rest, q ∈ points ∧ q.sequenceId = s := by
          intro q hq
          rw [← hcons] at hq
          exact mem_incomingFor.mp hq
        obtain ⟨hfirst, hid⟩ := hin first (List.mem_cons_self ..)
        refine checkGroup_eq_none.mpr ⟨?_, fun q hq => ?_, fun q hq => (hfits q (hin q hq).1).text⟩
        · rw [← hid]
          exact (hfits first hfirst).short
        · exact hone q (hin q hq).1 first hfirst ((hin q hq).2.trans hid.symm)

/-- When the hot window takes a point. -/
theorem validatePoint_eq_none {q : RawTimeseriesPoint} :
    validatePoint q = none ↔
      Fits q ∧ ∀ number, q.value = .double number → isFinite number = true := by
  rw [validatePoint]
  by_cases hname : q.sequenceId = ""
  · rw [if_pos (String.isEmpty_iff.mpr hname)]
    exact ⟨fun h => (by cases h), fun h => absurd hname h.1.named⟩
  rw [if_neg fun h => hname (String.isEmpty_iff.mp h)]
  by_cases hsize : kMaxSequenceIdBytes < q.sequenceId.utf8ByteSize
  · rw [if_pos hsize]
    exact ⟨fun h => (by cases h), fun h => absurd hsize (not_lt.mpr h.1.short)⟩
  rw [if_neg hsize]
  have hvalue : validateValue q.value = none ↔
      (∀ text, q.value = .string text → text.utf8ByteSize ≤ 1024) ∧
        ∀ number, q.value = .double number → isFinite number = true := by
    cases q.value with
    | double number => simp [validateValue]
    | int64 number => simp [validateValue]
    | bool b => simp [validateValue]
    | string text =>
        by_cases hlong : 1024 < text.utf8ByteSize
        · simp [validateValue, kMaxStringValueBytes, hlong, not_le.mpr hlong]
        · simp [validateValue, kMaxStringValueBytes, hlong, not_lt.mp hlong]
  rw [hvalue]
  exact ⟨fun h => ⟨⟨hname, not_lt.mp hsize, h.1⟩, h.2⟩, fun h => ⟨h.1.text, h.2⟩⟩

/-! ## Both stores -/

/-- A split of a batch into sub-batches that keeps each sequence together. -/
structure Split (points : List RawTimeseriesPoint) (parts : List (List RawTimeseriesPoint)) :
    Prop where
  nonempty : ∀ part ∈ parts, part ≠ []
  complete : parts.flatten.Perm points
  together : parts.Pairwise fun part part' =>
    ∀ q ∈ part, ∀ q' ∈ part', q.sequenceId ≠ q'.sequenceId

/-- The hot window takes the batch, and the cold store every part of every split. -/
structure StoresAccept (p : ProjectId) (resolved : TimeseriesBatch) : Prop where
  window : ∀ service, (updateWindowIncremental p resolved none service).2.operation.code = .ok
  cold : ∀ parts, Split resolved.points parts → ∀ part ∈ parts, insertChecks part = none

/-- The points a request admits fit the columns, and no two of one sequence differ in
    kind. -/
structure Storable (p : ProjectId) (registry : RuntimeConfigRegistry)
    (input : List TimeseriesIngestData) : Prop where
  ids : ∀ point ∈ input, ∀ s, Admitted p registry point s → s ≠ "" ∧ s.utf8ByteSize ≤ 512
  texts : ∀ point ∈ input, ∀ s, Admitted p registry point s →
    ∀ text, point.value = .string text → text.utf8ByteSize ≤ 1024
  kinds : ∀ point ∈ input, ∀ point' ∈ input, ∀ s, Admitted p registry point s →
    Admitted p registry point' s → valueIndex point.value = valueIndex point'.value

/-- A request can be stored when its values fit and its groups have one kind. -/
theorem storable_iff {p : ProjectId} {registry : RuntimeConfigRegistry}
    {input : List TimeseriesIngestData} :
    Storable p registry input ↔
      (∀ q ∈ (ingestAndResolveData p registry input).resolvedData.points, Fits q) ∧
        OneKind (ingestAndResolveData p registry input).resolvedData.points := by
  -- the point of the batch an admitted point becomes
  have hresolved : ∀ point ∈ input, ∀ s, Admitted p registry point s →
      (⟨point.time, s, point.value, p⟩ : RawTimeseriesPoint) ∈
        (ingestAndResolveData p registry input).resolvedData.points :=
    fun point hpoint s hadmitted => mem_resolvedData.mpr ⟨point, hpoint, hadmitted, rfl⟩
  constructor
  · intro h
    refine ⟨fun q hq => ?_, fun q hq q' hq' hsame => ?_⟩
    · obtain ⟨point, hpoint, hadmitted, e⟩ := mem_resolvedData.mp hq
      obtain ⟨hne, hsize⟩ := h.ids point hpoint _ hadmitted
      refine ⟨hne, hsize, fun text htext => h.texts point hpoint _ hadmitted text ?_⟩
      rw [e] at htext
      exact htext
    · obtain ⟨point, hpoint, hadmitted, e⟩ := mem_resolvedData.mp hq
      obtain ⟨point', hpoint', hadmitted', e'⟩ := mem_resolvedData.mp hq'
      rw [← hsame] at hadmitted'
      rw [e, e']
      exact h.kinds point hpoint point' hpoint' _ hadmitted hadmitted'
  · rintro ⟨hfits, hone⟩
    refine ⟨fun point hpoint s hadmitted => ?_, fun point hpoint s hadmitted => ?_,
      fun point hpoint point' hpoint' s hadmitted hadmitted' => ?_⟩
    · have h := hfits _ (hresolved point hpoint s hadmitted)
      exact ⟨h.named, h.short⟩
    · exact (hfits _ (hresolved point hpoint s hadmitted)).text
    · exact hone _ (hresolved point hpoint s hadmitted) _ (hresolved point' hpoint' s hadmitted') rfl

/-- The window takes a batch of fitting, finite points of the project. -/
theorem accepted_of_fits {p : ProjectId} (hp : p ≠ "") {data : TimeseriesBatch}
    (hproject : data.projectId = p) (hne : data.points ≠ [])
    (h : ∀ q ∈ data.points, q.projectId = p ∧ Fits q ∧
      ∀ number, q.value = .double number → isFinite number = true) :
    Accepted p data none := by
  refine ⟨hne, fun size hsize => (by cases hsize), ?_, fun q hq => ?_⟩
  · rw [effectiveProject_of_ne hp]
    exact (validateBatchContext_eq_none hp).mpr (Or.inr hproject)
  · obtain ⟨hq', hfits, hfinite⟩ := h q hq
    rw [effectiveProject_of_ne hp]
    exact validateRawPoint_eq_none.mpr ⟨Or.inr hq', validatePoint_eq_none.mpr ⟨hfits, hfinite⟩⟩

/-- For every registry and request that ingest reports as a success, in full or in part:
    both stores accept what was resolved iff it is storable. -/
theorem stores_accept_iff {p : ProjectId} (hp : p ≠ "") (registry : RuntimeConfigRegistry)
    (input : List TimeseriesIngestData)
    (hok : isSuccessful (ingestAndResolveData p registry input).operation.code = true) :
    StoresAccept p (ingestAndResolveData p registry input).resolvedData ↔
      Storable p registry input := by
  have hne := points_of_successful hok
  rw [storable_iff]
  constructor
  · -- the whole batch is a split of itself
    intro h
    have hwhole : Split (ingestAndResolveData p registry input).resolvedData.points
        [(ingestAndResolveData p registry input).resolvedData.points] := by
      refine ⟨fun part hpart => ?_, ?_, List.pairwise_singleton ..⟩
      · rw [List.mem_singleton.mp hpart]
        exact hne
      · simp
    have hchecks := h.cold _ hwhole _ (List.mem_singleton_self _)
    exact (insertChecks_eq_none.mp hchecks).2
  · rintro ⟨hfits, hone⟩
    refine ⟨fun service => ?_, fun parts hsplit part hpart => ?_⟩
    · refine UpdateReport.code_of_accepted (accepted_of_fits hp
        (resolvedData_projectId p registry input) hne fun q hq => ?_) service
      obtain ⟨point, -, hadmitted, e⟩ := mem_resolvedData.mp hq
      refine ⟨by rw [e], hfits q hq, fun number hnumber => hadmitted.finite number ?_⟩
      rw [e] at hnumber
      exact hnumber
    · have hin : ∀ q ∈ part, q ∈ (ingestAndResolveData p registry input).resolvedData.points :=
        fun q hq => hsplit.complete.mem_iff.mp (List.mem_flatten.mpr ⟨part, hpart, hq⟩)
      exact insertChecks_eq_none.mpr ⟨hsplit.nonempty part hpart, fun q hq => hfits q (hin q hq),
        fun q hq q' hq' => hone q (hin q hq) q' (hin q' hq')⟩

/-- A registry with one instance of a data type. -/
def registryOf (dataType : String) : RuntimeConfigRegistry :=
  (upsertInstanceConfigs "p"
    [{ sequenceId := "s", dataSourceId := "source", externalSequenceId := "external",
       dataType := dataType }] {}).1

/-- A value of `s` as it comes in. -/
def measured (value : TimeseriesValue) (time : Timestamp) : TimeseriesIngestData :=
  { sequenceId := some "s", time := time, value := value }

/-- An integer sequence, and a bool that it refuses. -/
theorem stores_accept_iff_typed :
    StoresAccept "p" (ingestAndResolveData "p" (registryOf "int64")
      [measured (.int64 1) 0, measured (.bool true) 1]).resolvedData := by
  refine (stores_accept_iff (by decide) (registryOf "int64")
    [measured (.int64 1) 0, measured (.bool true) 1] (by decide)).mpr ?_
  have hpoints : (ingestAndResolveData "p" (registryOf "int64")
      [measured (.int64 1) 0, measured (.bool true) 1]).resolvedData.points =
      [{ time := 0, sequenceId := "s", value := .int64 1, projectId := "p" }] := by decide
  rw [storable_iff, hpoints]
  refine ⟨fun q hq => ?_, fun q hq q' hq' _ => ?_⟩
  · obtain rfl := List.mem_singleton.mp hq
    exact ⟨by decide, by decide, fun text htext => (by cases htext)⟩
  · rw [List.mem_singleton.mp hq, List.mem_singleton.mp hq']

/-- A text over the limit, for a sequence of strings: ingest looks at the kind only, and the
    window and the cold store refuse what it has acknowledged. -/
theorem long_text_refused {text : String} (h : 1024 < text.utf8ByteSize) :
    let answer := ingestAndResolveData "p" (registryOf "string") [measured (.string text) 0]
    answer.operation.code = .ok ∧
      (∀ service, (updateWindowIncremental "p" answer.resolvedData none service).2.operation.code ≠
        .ok) ∧
      insertChecks answer.resolvedData.points ≠ none := by
  intro answer
  have hpoints : answer.resolvedData.points =
      [{ time := 0, sequenceId := "s", value := .string text, projectId := "p" }] := rfl
  have hunfit : ∀ q ∈ answer.resolvedData.points, ¬ Fits q := by
    rw [hpoints]
    intro q hq hfits
    rw [List.mem_singleton.mp hq] at hfits
    exact absurd (hfits.text text rfl) (not_le.mpr h)
  have hin : ∃ q, q ∈ answer.resolvedData.points := by
    rw [hpoints]
    exact ⟨_, List.mem_singleton_self _⟩
  obtain ⟨q, hq⟩ := hin
  refine ⟨rfl, fun service hok => ?_, fun hnone => ?_⟩
  · have hacc := UpdateReport.accepted_of_code hok
    obtain ⟨-, hpoint⟩ := validateRawPoint_eq_none.mp (hacc.points q hq)
    exact hunfit q hq (validatePoint_eq_none.mp hpoint).1
  · obtain ⟨-, hfits, -⟩ := insertChecks_eq_none.mp hnone
    exact hunfit q hq (hfits q hq)

/-- Without a data type ingest acknowledges a whole number and a truth value of one
    sequence, and the cold store refuses the batch; it acknowledges a text of 1025 bytes, and
    neither store takes it. -/
theorem untyped_refused :
    ((ingestAndResolveData "p" (registryOf "")
        [measured (.int64 1) 0, measured (.bool true) 1]).operation.code = .ok ∧
      ¬ StoresAccept "p" (ingestAndResolveData "p" (registryOf "")
        [measured (.int64 1) 0, measured (.bool true) 1]).resolvedData) ∧
    ∃ text : String, text.utf8ByteSize = 1025 ∧
      (ingestAndResolveData "p" (registryOf "string")
        [measured (.string text) 0]).operation.code = .ok ∧
      ¬ StoresAccept "p" (ingestAndResolveData "p" (registryOf "string")
        [measured (.string text) 0]).resolvedData := by
  refine ⟨⟨by decide, fun h => ?_⟩, String.ofList (List.replicate 1025 'x'), by decide +kernel, ?_⟩
  · have hchecks := h.cold [(ingestAndResolveData "p" (registryOf "")
        [measured (.int64 1) 0, measured (.bool true) 1]).resolvedData.points]
      ⟨by decide, by simp, List.pairwise_singleton ..⟩ _ (List.mem_singleton_self _)
    exact absurd hchecks (by decide)
  · obtain ⟨hok, hwindow, -⟩ := @long_text_refused (String.ofList (List.replicate 1025 'x'))
      (by decide +kernel)
    exact ⟨hok, fun h => hwindow {} (h.window {})⟩

end IngestService
