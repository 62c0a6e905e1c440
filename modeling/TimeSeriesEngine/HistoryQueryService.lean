import TimeSeriesEngine.HistoryOverview
import TimeSeriesEngine.Registry

/-!
# The history query service

Both queries of the service look up every requested sequence, and then ask the cold store.

* `queryHistoryData`, `queryHistoryOverview` — over any answers of the cold store;
* `history_services_agree` — the overview of a range is that of the points a data query of
  the range returns.
-/

namespace HistoryQueryService

open TseTypes KeyedTable HotWindow TaosClient Registry Grouping
open HistoryOverview (HistoryOverviewQuery Overview OverviewRow Summarises ValidOverview
  ProjectApart overview_of_rows twoInserts overviewAnswer writtenTimes mem_writtenTimes mem_writes
  wanted inRange sizeMax)

/-- The sequences and the range of a data query. -/
structure HistoryQuery where
  sequenceIds : List SequenceId
  startTime : Timestamp
  endTime : Timestamp
  granularity : Option Int := none
  projectId : ProjectId := ""

/-- The points of a data query, and what it reports. -/
structure HistoryQueryResult where
  operation : OperationResult
  data : TimeseriesBatch
  projectId : ProjectId

/-- The overview of a query, and what it reports. -/
structure HistoryOverviewResult where
  operation : OperationResult
  overview : Overview
  projectId : ProjectId

/-- `valueKindForDataType`. -/
def valueKindForDataType (dataType : String) : TimeseriesValueKind :=
  if dataType = "double" ∨ dataType = "float" ∨ dataType = "continuous" then .double
  else if dataType = "int" ∨ dataType = "int64" ∨ dataType = "integer" ∨ dataType = "discrete" then
    .int64
  else if dataType = "bool" ∨ dataType = "boolean" then .bool
  else if dataType = "string" ∨ dataType = "text" ∨ dataType = "label" ∨
      dataType = "categorical" then
    .string
  else .unknown

/-- The loop over the requested sequences, up to the first that is refused. -/
def sequencesError (registry : RuntimeConfigRegistry) (projectId : ProjectId)
    (ids : List SequenceId) : Option OperationResult :=
  ids.findSome? fun sequenceId =>
    if sequenceId.isEmpty then some (invalidArgument "sequence_id must not be empty")
    else if (findInstance projectId sequenceId registry).isNone then
      some { code := .notFound, message := "sequence is not registered: " ++ sequenceId }
    else none

/-- `value_kinds` after the loop. -/
def valueKinds (registry : RuntimeConfigRegistry) (projectId : ProjectId)
    (ids : List SequenceId) : Table SequenceId TimeseriesValueKind :=
  ids.foldl
    (fun kinds sequenceId =>
      emplace sequenceId
        (valueKindForDataType ((findInstance projectId sequenceId registry).elim "" (·.dataType)))
        kinds)
    KeyedTable.empty

/-- The cold store is asked with the kinds of the sequences. -/
def queryHistoryData (registry : RuntimeConfigRegistry) (projectId : ProjectId)
    (query : HistoryQuery)
    (queryRaw : Table SequenceId TimeseriesValueKind → TimeseriesBatch →
      TimeseriesBatch × OperationResult) : HistoryQueryResult :=
  let data : TimeseriesBatch := { points := [], projectId := projectId }
  if query.sequenceIds.isEmpty ∨ query.endTime < query.startTime then
    { operation := invalidArgument
        "sequence_ids must not be empty and time range must be ordered"
      data := data
      projectId := projectId }
  else
    match sequencesError registry projectId query.sequenceIds with
    | some operation => { operation := operation, data := data, projectId := projectId }
    | none =>
        let (data, operation) := queryRaw (valueKinds registry projectId query.sequenceIds) data
        { operation := operation, data := data, projectId := projectId }

/-- The cold store is asked last; what it throws leaves the service. -/
def queryHistoryOverview (registry : RuntimeConfigRegistry) (projectId : ProjectId)
    (query : HistoryOverviewQuery) (answer : Except String (Overview × OperationResult)) :
    Except String HistoryOverviewResult :=
  let refused (operation : OperationResult) : Except String HistoryOverviewResult :=
    .ok { operation := operation, overview := { projectId := projectId }, projectId := projectId }
  if query.startTime.any fun start => query.endTime.any fun finish => decide (finish < start) then
    refused (invalidArgument "overview start_time must not be after end_time")
  else
    match sequencesError registry projectId query.sequenceIds with
    | some operation => refused operation
    | none =>
        answer.map fun (overview, operation) =>
          { operation := operation, overview := overview, projectId := projectId }

/-! ## The requested sequences -/

/-- Every requested sequence has a name and is an instance of the project. -/
def Registered (registry : RuntimeConfigRegistry) (p : ProjectId) (ids : List SequenceId) : Prop :=
  ∀ s ∈ ids, s ≠ "" ∧ (findInstance p s registry).isSome = true

/-- An unknown sequence is an error. -/
theorem sequencesError_code {registry : RuntimeConfigRegistry} {p : ProjectId}
    {ids : List SequenceId} {operation : OperationResult}
    (h : sequencesError registry p ids = some operation) : operation.code ≠ .ok := by
  obtain ⟨s, -, hs⟩ := List.exists_of_findSome?_eq_some h
  split at hs
  · obtain rfl := Option.some.inj hs
    exact OperationCode.noConfusion
  · split at hs
    · obtain rfl := Option.some.inj hs
      exact OperationCode.noConfusion
    · cases hs

/-- There is no error when all sequences are registered. -/
theorem sequencesError_eq_none {registry : RuntimeConfigRegistry} {p : ProjectId}
    {ids : List SequenceId} :
    sequencesError registry p ids = none ↔ Registered registry p ids := by
  rw [sequencesError, List.findSome?_eq_none_iff]
  refine forall₂_congr fun s _ => ?_
  by_cases hempty : s.isEmpty = true
  · rw [if_pos hempty]
    exact iff_of_false (fun h => by cases h) fun h => h.1 (String.isEmpty_iff.mp hempty)
  · have hname : s ≠ "" := fun h => hempty (String.isEmpty_iff.mpr h)
    rw [if_neg hempty, and_iff_right hname]
    cases findInstance p s registry with
    | none => exact iff_of_false (fun h => by cases h) Bool.false_ne_true
    | some config => exact iff_of_true rfl rfl

/-- The answer of the data query, case by case. -/
theorem queryHistoryData_cases (registry : RuntimeConfigRegistry) (p : ProjectId)
    {query : HistoryQuery} (hids : query.sequenceIds ≠ []) (hle : query.startTime ≤ query.endTime)
    (queryRaw : Table SequenceId TimeseriesValueKind → TimeseriesBatch →
      TimeseriesBatch × OperationResult) :
    (∃ operation, sequencesError registry p query.sequenceIds = some operation ∧
        (queryHistoryData registry p query queryRaw).operation = operation) ∨
      sequencesError registry p query.sequenceIds = none ∧
        ((queryHistoryData registry p query queryRaw).data,
          (queryHistoryData registry p query queryRaw).operation) =
          queryRaw (valueKinds registry p query.sequenceIds) { points := [], projectId := p } := by
  have hinterval : ¬ (query.sequenceIds.isEmpty = true ∨ query.endTime < query.startTime) := by
    rintro (hempty | hback)
    · exact hids (List.isEmpty_iff.mp hempty)
    · exact absurd hle (not_le.mpr hback)
  rw [queryHistoryData, if_neg hinterval]
  cases sequencesError registry p query.sequenceIds with
  | some operation => exact Or.inl ⟨operation, rfl, rfl⟩
  | none => exact Or.inr ⟨rfl, rfl⟩

/-- The answer of the overview, case by case. -/
theorem queryHistoryOverview_cases (registry : RuntimeConfigRegistry) (p : ProjectId)
    {query : HistoryOverviewQuery}
    (hinterval : ∀ start finish, query.startTime = some start → query.endTime = some finish →
      start ≤ finish) (answer : Except String (Overview × OperationResult)) :
    (∃ operation, sequencesError registry p query.sequenceIds = some operation ∧
        queryHistoryOverview registry p query answer =
          .ok { operation := operation, overview := { projectId := p }, projectId := p }) ∨
      sequencesError registry p query.sequenceIds = none ∧
        queryHistoryOverview registry p query answer =
          answer.map fun (overview, operation) =>
            { operation := operation, overview := overview, projectId := p } := by
  have hordered : ¬ (query.startTime.any fun start =>
      query.endTime.any fun finish => decide (finish < start)) = true := by
    intro h
    obtain ⟨start, hstart, hback⟩ := (Option.any_eq_true _ _).mp h
    obtain ⟨finish, hfinish, hlt⟩ := (Option.any_eq_true _ _).mp hback
    exact absurd (hinterval start finish hstart hfinish) (not_le.mpr (of_decide_eq_true hlt))
  rw [queryHistoryOverview, if_neg hordered]
  cases sequencesError registry p query.sequenceIds with
  | some operation => exact Or.inl ⟨operation, rfl, rfl⟩
  | none => exact Or.inr ⟨rfl, rfl⟩

/-! ## The agreement -/

section Agreement

variable {history : List InsertCall} {p : ProjectId} {ids : List SequenceId}
  {start finish : Timestamp}

/-- The overview query of the range of a data query. -/
def overviewOf (ids : List SequenceId) (start finish : Timestamp) : HistoryOverviewQuery where
  sequenceIds := ids
  startTime := some start
  endTime := some finish

/-- A time has a value when it has been written. -/
theorem lastWritten_some {s : SequenceId} {time : Timestamp} :
    (∃ value, lastWritten history p s time = some value) ↔
      ∃ point ∈ writes history p s, point.time = time := by
  constructor
  · rintro ⟨value, hvalue⟩
    obtain ⟨point, hpoint, -⟩ := Option.map_eq_some_iff.mp hvalue
    exact ⟨point, OrderedSeries.lastAt_some _ hpoint⟩
  · rintro ⟨point, hpoint, htime⟩
    cases hlast : OrderedSeries.lastAt RawTimeseriesPoint.time time (writes history p s) with
    | none => exact absurd htime ((OrderedSeries.lastAt_eq_none _).mp hlast point hpoint)
    | some last => exact ⟨last.value, by rw [lastWritten, hlast]; rfl⟩

/-- The points of a data query are the written ones of the range. -/
theorem RoundTrip.perm_writtenTimes (hids : ids ≠ []) {outcome : TimeseriesBatch × OperationResult}
    (h : RoundTrip history p ids start finish outcome) :
    (outcome.1.points.map fun point => (point.sequenceId, point.time)).Perm
      (writtenTimes history p (overviewOf ids start finish)) := by
  have hnodup : (outcome.1.points.map fun point => (point.sequenceId, point.time)).Nodup := by
    refine List.Nodup.map_on (fun point hpoint other hother heq => ?_) h.once
    obtain ⟨hproject, -, -, hvalue⟩ := (h.exact point).mp hpoint
    obtain ⟨hproject', -, -, hvalue'⟩ := (h.exact other).mp hother
    obtain ⟨hs, htime⟩ := Prod.mk.inj heq
    rw [hs, htime, hvalue'] at hvalue
    cases point
    cases other
    simp_all
  refine (List.perm_ext_iff_of_nodup hnodup (List.nodup_dedup _)).mpr ?_
  rintro ⟨s, time⟩
  have hwanted : wanted (overviewOf ids start finish) s = true ↔ s ∈ ids := by
    rw [wanted, Bool.or_eq_true, List.isEmpty_iff, decide_eq_true_iff]
    exact or_iff_right hids
  have hrange : inRange (overviewOf ids start finish) time = true ↔ start ≤ time ∧ time < finish := by
    rw [inRange, Bool.and_eq_true]
    exact and_congr decide_eq_true_iff decide_eq_true_iff
  rw [List.mem_map]
  refine Iff.trans ?_ mem_writtenTimes.symm
  rw [hwanted, hrange, ← lastWritten_some]
  constructor
  · rintro ⟨point, hpoint, heq⟩
    obtain ⟨rfl, rfl⟩ := Prod.mk.inj heq
    obtain ⟨-, hid, hinterval, hvalue⟩ := (h.exact point).mp hpoint
    exact ⟨⟨hid, hinterval⟩, point.value, hvalue⟩
  · rintro ⟨⟨hid, hinterval⟩, value, hvalue⟩
    exact ⟨{ time := time, sequenceId := s, value := value, projectId := p },
      (h.exact _).mpr ⟨rfl, hid, hinterval, hvalue⟩, rfl⟩

/-- A data query whose values have kept their kinds returns what was written. -/
theorem roundTrip_of_kept {baseName : String} {database : Database}
    (hrun : ColdRun baseName history database) (hvalid : ValidRequest p ids) (hlt : start < finish)
    (hapart : NamesApart (writtenPairs history ++ ids.map fun s => (p, s)))
    (hkept : KindsKept history p ids start finish)
    (kinds : Option (Table SequenceId TimeseriesValueKind))
    (arrange : Bool → List ResultRow → List ResultRow)
    (harr : ∀ typed rows, (arrange typed rows).Perm rows) (out : TimeseriesBatch) :
    RoundTrip history p ids start finish
      (queryRaw baseName p ids start finish kinds arrange database out) := by
  have hpairs : ∀ pair ∈ writtenPairs history,
      pair ∈ writtenPairs history ++ ids.map fun s => (p, s) :=
    fun pair hpair => List.mem_append_left _ hpair
  have hids : ∀ s ∈ ids, (p, s) ∈ writtenPairs history ++ ids.map fun s => (p, s) :=
    fun s hs => List.mem_append_right _ (List.mem_map_of_mem hs)
  have hmirror := mirror_of_run hrun hapart hpairs
  have hrows : RowsOf history p ids start finish
      (selectRows (projectStableName baseName p) ids start finish database) :=
    fun row => hmirror.mem_selectRows hapart hpairs hids
  have houtcome := queryRaw_of_decoded hvalid hlt kinds out harr
    (fun row hrow => ((hrows row).mp hrow).1) (fun row hrow row' hrow' => hrows.apart hrow hrow')
    (fun row hrow => by
      obtain ⟨value, -, hdecode⟩ := hrows.decode hkept hrow
      rw [hdecode]
      rfl)
  rw [houtcome]
  exact hrows.roundTrip (hmirror.nodup_selectRows hapart hpairs hids start finish) hkept out rfl

/-- A data query that succeeds counts its points. -/
theorem queryRaw_successCount (baseName : String) {database : Database}
    (hvalid : ValidRequest p ids) (hlt : start < finish)
    (kinds : Option (Table SequenceId TimeseriesValueKind))
    (arrange : Bool → List ResultRow → List ResultRow) (out : TimeseriesBatch)
    (hok : (queryRaw baseName p ids start finish kinds arrange database out).2.code = .ok) :
    (queryRaw baseName p ids start finish kinds arrange database out).2.successCount =
      (queryRaw baseName p ids start finish kinds arrange database out).1.points.length := by
  rw [queryRaw_valid baseName hvalid hlt] at hok ⊢
  cases hfetch : fetchPoints p (typedKind ids kinds) arrange
      (selectRows (projectStableName baseName p) ids start finish database) with
  | none =>
      rw [hfetch] at hok
      cases hok
  | some points => exact (orderPoints_spec ids points).1.length_eq.symm

/-- Fewer sequences asked for are apart from the written ones too. -/
theorem namesApart_of_asked {asked few : List SequenceId}
    (hapart : NamesApart (writtenPairs history ++ asked.map fun s => (p, s)))
    (hfew : ∀ s ∈ few, s ∈ asked) :
    NamesApart (writtenPairs history ++ few.map fun s => (p, s)) := by
  have hmem : ∀ pair ∈ writtenPairs history ++ few.map fun s => (p, s),
      pair ∈ writtenPairs history ++ asked.map fun s => (p, s) := by
    intro pair hpair
    rcases List.mem_append.mp hpair with hold | hnew
    · exact List.mem_append_left _ hold
    · obtain ⟨s, hs, rfl⟩ := List.mem_map.mp hnew
      exact List.mem_append_right _ (List.mem_map_of_mem (hfew s hs))
  exact fun a ha b hb => hapart a (hmem a ha) b (hmem b hb)

theorem overviewOf_interval (hlt : start < finish) (first last : Timestamp)
    (hfirst : (overviewOf ids start finish).startTime = some first)
    (hlast : (overviewOf ids start finish).endTime = some last) : first ≤ last := by
  obtain rfl := Option.some.inj hfirst
  obtain rfl := Option.some.inj hlast
  exact hlt.le

/-- **The two queries agree.**  After every history of accepted inserts, in whatever order
    the database answers either query, and when no value in the range has changed its kind:
    both queries of a range are refused alike, if a sequence is not registered, and otherwise
    both succeed, and the overview counts and bounds, for every requested sequence, the points
    the data query returns. -/
theorem history_services_agree {baseName : String} {database : Database}
    (hrun : ColdRun baseName history database) (registry : RuntimeConfigRegistry)
    (hproject : p ≠ "") (hids : ids ≠ []) (hnul : ∀ s ∈ ids, '\x00' ∉ s.toList)
    (hlt : start < finish)
    (hapart : NamesApart (writtenPairs history ++
      ((writtenPairs history).map Prod.snd ++ ids).map fun s => (p, s)))
    (hkept : KindsKept history p ids start finish)
    (hfits : (history.map (·.batch.points.length)).sum ≤ sizeMax)
    (arrangeRaw : Bool → List ResultRow → List ResultRow)
    (hraw : ∀ typed rows, (arrangeRaw typed rows).Perm rows)
    (arrange : List OverviewRow → List OverviewRow) (harr : ∀ rows, (arrange rows).Perm rows) :
    let data := queryHistoryData registry p
      { sequenceIds := ids, startTime := start, endTime := finish }
      fun kinds => queryRaw baseName p ids start finish (some kinds) arrangeRaw database
    ∃ overview, queryHistoryOverview registry p (overviewOf ids start finish)
        (HistoryOverview.queryHistoryOverview p (overviewOf ids start finish)
          (overviewAnswer baseName p (overviewOf ids start finish) arrange database)) =
        .ok overview ∧
      (¬ Registered registry p ids →
        data.operation.code ≠ .ok ∧ overview.operation = data.operation) ∧
      (Registered registry p ids →
        data.operation.code = .ok ∧ overview.operation.code = .ok ∧
          overview.operation.successCount = data.operation.successCount ∧
          Summarises ids (data.data.points.map fun point => (point.sequenceId, point.time))
            overview.overview) := by
  intro data
  have hinterval : ∀ first last, (overviewOf ids start finish).startTime = some first →
      (overviewOf ids start finish).endTime = some last → first ≤ last :=
    overviewOf_interval hlt
  rcases @queryHistoryData_cases registry p
    { sequenceIds := ids, startTime := start, endTime := finish } hids hlt.le
    (fun kinds => queryRaw baseName p ids start finish (some kinds) arrangeRaw database) with
    ⟨operation, herror, hdata⟩ | ⟨hnone, hdata⟩
  · rcases @queryHistoryOverview_cases registry p (overviewOf ids start finish) hinterval
      (HistoryOverview.queryHistoryOverview p (overviewOf ids start finish)
        (overviewAnswer baseName p (overviewOf ids start finish) arrange database)) with
      ⟨operation', herror', hoverview⟩ | ⟨hnone, -⟩
    · obtain rfl := Option.some.inj (herror.symm.trans herror')
      refine ⟨_, hoverview, fun _ => ⟨?_, hdata.symm⟩, fun hregistered => ?_⟩
      · show data.operation.code ≠ .ok
        rw [hdata]
        exact sequencesError_code herror
      · cases herror.symm.trans (sequencesError_eq_none.mpr hregistered)
    · cases herror.symm.trans hnone
  · have hregistered := sequencesError_eq_none.mp hnone
    have hnamed : ∀ s ∈ ids, s ≠ "" := fun s hs => (hregistered s hs).1
    have hvalid : ValidOverview p (overviewOf ids start finish) :=
      ⟨hproject, hnamed, hnul, hinterval⟩
    have hround := roundTrip_of_kept hrun ⟨hids, hproject, hnamed, hnul⟩ hlt
      (namesApart_of_asked hapart fun s hs => List.mem_append_right _ hs) hkept
      (some (valueKinds registry p ids)) arrangeRaw hraw { points := [], projectId := p }
    have hcount := queryRaw_successCount baseName ⟨hids, hproject, hnamed, hnul⟩ hlt
      (some (valueKinds registry p ids)) arrangeRaw { points := [], projectId := p } hround.ok
    rw [← hdata] at hround hcount
    have hperm := RoundTrip.perm_writtenTimes hids hround
    have hown : ProjectApart history p := by
      have hwritten := namesApart_of_asked hapart fun s hs => List.mem_append_left _ hs
      rwa [List.map_map] at hwritten
    rcases @queryHistoryOverview_cases registry p (overviewOf ids start finish) hinterval
      (HistoryOverview.queryHistoryOverview p (overviewOf ids start finish)
        (overviewAnswer baseName p (overviewOf ids start finish) arrange database)) with
      ⟨operation, herror, -⟩ | ⟨-, hoverview⟩
    · cases hnone.symm.trans herror
    · obtain ⟨outcome, hanswered, hok, hsuccess, -, hsummarises⟩ :=
        overview_of_rows hrun hown hvalid hfits arrange harr fun first hfirst hlast => by
          obtain rfl := Option.some.inj hfirst
          exact hlt.ne (Option.some.inj hlast).symm
      rw [hanswered] at hoverview
      rw [hanswered]
      refine ⟨_, hoverview, fun hnot => absurd hregistered hnot, fun _ => ⟨hround.ok, hok, ?_,
        hsummarises.congr hperm.symm⟩⟩
      exact hsuccess.trans (hperm.length_eq.symm.trans ((List.length_map _).trans hcount.symm))

end Agreement

/-- The sequence of the two points, registered. -/
def oneInstance : RuntimeConfigRegistry :=
  (upsertInstanceConfigs "p"
    [{ sequenceId := "s", dataSourceId := "d", externalSequenceId := "x", dataType := "int" }] {}).1

/-- The two inserts keep the kind of the sequence. -/
theorem twoInserts_kept : KindsKept twoInserts "p" ["s"] 0 10 := by
  intro s hs time _ _ value hvalue
  obtain rfl := List.mem_singleton.mp hs
  obtain ⟨point, hpoint, rfl⟩ := Option.map_eq_some_iff.mp hvalue
  have hmem : point ∈ writes twoInserts "p" "s" := (OrderedSeries.lastAt_some _ hpoint).1
  have hkinds : ∀ point ∈ writes twoInserts "p" "s",
      firstKind twoInserts "p" "s" = some (valueIndex point.value) := by decide
  exact hkinds point hmem

/-- Both services over two inserts. -/
theorem history_services_agree_two_inserts :
    ∃ database, ColdRun "raw" twoInserts database ∧
      ∃ overview, queryHistoryOverview oneInstance "p" (overviewOf ["s"] 0 10)
          (HistoryOverview.queryHistoryOverview "p" (overviewOf ["s"] 0 10)
            (overviewAnswer "raw" "p" (overviewOf ["s"] 0 10) List.reverse database)) =
          .ok overview ∧
        overview.operation.code = .ok ∧
        Summarises ["s"]
          ((queryHistoryData oneInstance "p" { sequenceIds := ["s"], startTime := 0, endTime := 10 }
            fun kinds => queryRaw "raw" "p" ["s"] 0 10 (some kinds) (fun _ => List.reverse)
              database).data.points.map fun point => (point.sequenceId, point.time))
          overview.overview := by
  have hfirst := ColdRun.start.insert (insertOne (.int64 1) 5) (insertOne_accepted 1 5 _)
  have hrun : ColdRun "raw" twoInserts _ :=
    hfirst.insert (insertOne (.int64 2) 9) (insertOne_accepted 2 9 _)
  have hregistered : Registered oneInstance "p" ["s"] := by
    intro s hs
    obtain rfl := List.mem_singleton.mp hs
    exact ⟨by decide, by decide +kernel⟩
  obtain ⟨overview, hoverview, -, hagree⟩ := history_services_agree hrun oneInstance (by decide) (by decide) (by decide)
    (by decide) (namesApart_of_one (by decide)) twoInserts_kept (by decide) (fun _ => List.reverse)
    (fun _ => List.reverse_perm) List.reverse List.reverse_perm
  obtain ⟨-, hok, -, hsummarises⟩ := hagree hregistered
  exact ⟨_, hrun, overview, hoverview, hok, hsummarises⟩

end HistoryQueryService
