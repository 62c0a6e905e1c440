import TimeSeriesEngine.IngestService

/-!
# Which points a request resolves

What an ingest request should come to: the points of the request's own project that the
registry admits, in their order, and a code that says whether none, some or all points failed.
The loop of `ingestAndResolveData` never looks at the project of a point, so this holds
of a request exactly when the registry admits no point of another project in it
(`resolution_exact_iff`).
-/

namespace IngestResolution

open TseTypes Registry TaosClient IngestService

/-- A point of the request's project, admitted for a sequence. -/
structure Qualifies (p : ProjectId) (registry : RuntimeConfigRegistry)
    (point : TimeseriesIngestData) (s : SequenceId) : Prop where
  own : point.projectId = "" ∨ point.projectId = p
  admitted : Admitted p registry point s

/-- The points that qualify, in their order, each with its time, its value, the sequence
    it resolves to and the project. -/
inductive ImageOf (p : ProjectId) (registry : RuntimeConfigRegistry) :
    List TimeseriesIngestData → List RawTimeseriesPoint → Prop where
  | nil : ImageOf p registry [] []
  | resolved {point : TimeseriesIngestData} {s : SequenceId} {rest : List TimeseriesIngestData}
      {points : List RawTimeseriesPoint} (h : Qualifies p registry point s)
      (hrest : ImageOf p registry rest points) :
      ImageOf p registry (point :: rest)
        ({ time := point.time, sequenceId := s, value := point.value, projectId := p } :: points)
  | failed {point : TimeseriesIngestData} {rest : List TimeseriesIngestData}
      {points : List RawTimeseriesPoint} (h : ∀ s, ¬ Qualifies p registry point s)
      (hrest : ImageOf p registry rest points) : ImageOf p registry (point :: rest) points

/-- What a request should return. -/
structure ExactResolution (p : ProjectId) (registry : RuntimeConfigRegistry)
    (input : List TimeseriesIngestData) (result : IngestResult) : Prop where
  counts : result.operation.successCount + result.operation.failedCount = input.length
  points : ImageOf p registry input result.resolvedData.points
  none_failed : (∀ point ∈ input, ∃ s, Qualifies p registry point s) →
    result.operation.code = .ok
  some_failed : (∃ point ∈ input, ∃ s, Qualifies p registry point s) →
    (∃ point ∈ input, ∀ s, ¬ Qualifies p registry point s) →
      result.operation.code = .partialSuccess
  all_failed : (∀ point ∈ input, ∀ s, ¬ Qualifies p registry point s) →
    ∃ error, input.head?.bind (ingestError p registry) = some error ∧
      result.operation.code = error.1 ∧ result.operation.message = error.2

/-- Every point the registry admits belongs to the request's project. -/
def OwnPoints (p : ProjectId) (registry : RuntimeConfigRegistry)
    (input : List TimeseriesIngestData) : Prop :=
  ∀ point ∈ input, (∃ s, Admitted p registry point s) →
    point.projectId = "" ∨ point.projectId = p

section Loop

variable {p : ProjectId} {registry : RuntimeConfigRegistry}

/-- The loop keeps an admitted point. -/
theorem resolvedPoint_of_admitted {point : TimeseriesIngestData} {s : SequenceId}
    (h : Admitted p registry point s) :
    resolvedPoint p registry point =
      some { time := point.time, sequenceId := s, value := point.value, projectId := p } := by
  rw [admitted_iff]
  exact ⟨h, rfl⟩

/-- The loop drops a point iff the registry admits it for no sequence. -/
theorem resolvedPoint_eq_none {point : TimeseriesIngestData} :
    resolvedPoint p registry point = none ↔ ∀ s, ¬ Admitted p registry point s := by
  constructor
  · intro hnone s hadmitted
    rw [resolvedPoint_of_admitted hadmitted] at hnone
    cases hnone
  · intro hno
    cases hresolved : resolvedPoint p registry point with
    | none => rfl
    | some q => exact absurd (admitted_iff.mp hresolved).1 (hno q.sequenceId)

/-- A point is either resolved or an error. -/
theorem ingestError_isSome (point : TimeseriesIngestData) :
    (ingestError p registry point).isSome = (resolvedPoint p registry point).isNone := by
  rw [ingestError, resolvedPoint]
  cases ingestPoint p registry point with
  | ok q => rfl
  | error error => rfl

/-- Each point is resolved or fails. -/
theorem resolved_add_failed (input : List TimeseriesIngestData) :
    (input.filterMap (resolvedPoint p registry)).length +
      (input.filterMap (ingestError p registry)).length = input.length := by
  induction input with
  | nil => rfl
  | cons point rest ih =>
      have hone := @ingestError_isSome p registry point
      rw [List.filterMap_cons, List.filterMap_cons, List.length_cons]
      cases hresolved : resolvedPoint p registry point with
      | none =>
          rw [hresolved] at hone
          obtain ⟨error, herror⟩ := Option.isSome_iff_exists.mp hone
          simp only [herror, List.length_cons]
          omega
      | some q =>
          rw [hresolved] at hone
          have herror : ingestError p registry point = none := by simpa using hone
          simp only [herror, List.length_cons]
          omega

/-- Every error has a text. -/
theorem ingestError_text {point : TimeseriesIngestData} {error : OperationCode × String}
    (h : ingestError p registry point = some error) : error.2 ≠ "" := by
  have happend : ∀ a b : String, a ≠ "" → a ++ b ≠ "" := by
    intro a b ha hempty
    have hlist := congrArg String.toList hempty
    rw [String.toList_append] at hlist
    exact ha (String.toList_inj.mp (List.append_eq_nil_iff.mp hlist).1)
  rw [ingestError, ingestPoint] at h
  cases hresolve : resolvePoint p registry point with
  | error found =>
      rw [hresolve] at h
      obtain rfl := Option.some.inj h
      rw [resolvePoint] at hresolve
      cases hid : point.sequenceId with
      | some sequenceId =>
          simp only [hid] at hresolve
          split at hresolve
          · cases hresolve
            decide
          cases hfind : findInstance p sequenceId registry with
          | none =>
              simp only [hfind] at hresolve
              cases hresolve
              exact happend _ _ (by decide)
          | some config =>
              simp only [hfind] at hresolve
              split at hresolve
              · cases hresolve
                exact happend _ _ (by decide)
              · cases hresolve
      | none =>
          simp only [hid] at hresolve
          split at hresolve
          · cases hresolve
            decide
          cases hmapped : resolveSequenceId p point.dataSourceId point.externalSequenceId
              registry with
          | none =>
              simp only [hmapped] at hresolve
              cases hresolve
              exact happend _ _ (happend _ _ (happend _ _ (by decide)))
          | some sequenceId =>
              simp only [hmapped] at hresolve
              cases hresolve
  | ok found =>
      rw [hresolve] at h
      cases hcheck : checkValue found.2 point.value with
      | none =>
          simp only [hcheck] at h
          cases h
      | some message =>
          simp only [hcheck] at h
          obtain rfl := Option.some.inj h
          -- the texts of `checkValue` are constants
          unfold checkValue at hcheck
          split at hcheck
          · cases hcheck
            decide
          split at hcheck
          · cases hcheck
            decide
          split at hcheck
          · split at hcheck
            · cases hcheck
            · cases hcheck
              decide
          · cases hcheck

/-- The report of a request that is not empty. -/
theorem operation_of_ne {input : List TimeseriesIngestData} (hne : input ≠ []) :
    (ingestAndResolveData p registry input).operation =
      (let points := input.filterMap (resolvedPoint p registry)
      let errors := input.filterMap (ingestError p registry)
      let first := errors.head?.getD (.invalidArgument, "")
      if points.isEmpty then
        { code := first.1
          successCount := 0
          failedCount := errors.length
          message := if first.2.isEmpty then "no ingest points were resolved" else first.2 }
      else if errors.length ≠ 0 then
        { code := .partialSuccess
          successCount := points.length
          failedCount := errors.length
          message := "some ingest points could not be resolved: " ++ first.2 }
      else okResult points.length "ingest points resolved") := by
  rw [ingestAndResolveData, if_neg (by simpa using hne)]

/-- The resolved points, in their order. -/
theorem resolvedData_points (p : ProjectId) (registry : RuntimeConfigRegistry)
    (input : List TimeseriesIngestData) :
    (ingestAndResolveData p registry input).resolvedData.points =
      input.filterMap (resolvedPoint p registry) := by
  cases input with
  | nil => rfl
  | cons point rest => rfl

/-- The counts add up, whatever was resolved. -/
theorem counts_add {input : List TimeseriesIngestData} (hne : input ≠ []) :
    (ingestAndResolveData p registry input).operation.successCount +
      (ingestAndResolveData p registry input).operation.failedCount = input.length := by
  have hsum := @resolved_add_failed p registry input
  rw [operation_of_ne hne]
  simp only
  split
  · rename_i hempty
    rw [List.isEmpty_iff.mp hempty, List.length_nil] at hsum
    exact hsum
  split
  · exact hsum
  · rename_i hzero
    rw [not_not] at hzero
    rw [hzero] at hsum
    exact hsum

end Loop

/-! ## When the request is resolved exactly -/

section Exact

variable {p : ProjectId} {registry : RuntimeConfigRegistry} {input : List TimeseriesIngestData}

/-- Without points of other projects the loop keeps exactly what qualifies. -/
theorem OwnPoints.qualifies (h : OwnPoints p registry input) {point : TimeseriesIngestData}
    (hpoint : point ∈ input) {s : SequenceId} :
    Qualifies p registry point s ↔ Admitted p registry point s :=
  ⟨fun hq => hq.admitted, fun ha => ⟨h point hpoint ⟨s, ha⟩, ha⟩⟩

/-- With points of its own project a request resolves to its image. -/
theorem OwnPoints.image (h : OwnPoints p registry input) :
    ImageOf p registry input (input.filterMap (resolvedPoint p registry)) := by
  induction input with
  | nil => exact .nil
  | cons point rest ih =>
      have hrest := ih fun q hq => h q (List.mem_cons_of_mem point hq)
      have hqualifies := fun s => h.qualifies (List.mem_cons_self ..) (s := s)
      rw [List.filterMap_cons]
      cases hresolved : resolvedPoint p registry point with
      | none =>
          exact .failed (fun s hq =>
            resolvedPoint_eq_none.mp hresolved s ((hqualifies s).mp hq)) hrest
      | some q =>
          obtain ⟨hadmitted, heq⟩ := admitted_iff.mp hresolved
          rw [heq]
          exact .resolved ((hqualifies _).mpr hadmitted) hrest

/-- The loop keeps at least what qualifies; if no more, no point is of another project. -/
theorem ImageOf.length_le {points : List RawTimeseriesPoint}
    (h : ImageOf p registry input points) :
    points.length ≤ (input.filterMap (resolvedPoint p registry)).length ∧
      (points.length = (input.filterMap (resolvedPoint p registry)).length →
        OwnPoints p registry input) := by
  induction h with
  | nil => exact ⟨le_refl _, fun _ point hpoint => absurd hpoint List.not_mem_nil⟩
  | resolved hq hrest ih =>
      rw [List.filterMap_cons, resolvedPoint_of_admitted hq.admitted]
      obtain ⟨hle, hown⟩ := ih
      refine ⟨Nat.succ_le_succ hle, fun heq => ?_⟩
      refine List.forall_mem_cons.mpr ⟨fun _ => hq.own, hown (Nat.succ.inj heq)⟩
  | @failed point rest points hno hrest ih =>
      obtain ⟨hle, hown⟩ := ih
      rw [List.filterMap_cons]
      cases hresolved : resolvedPoint p registry point with
      | none =>
          refine ⟨hle, fun heq => List.forall_mem_cons.mpr ⟨?_, hown heq⟩⟩
          rintro ⟨s, hadmitted⟩
          exact absurd hadmitted (resolvedPoint_eq_none.mp hresolved s)
      | some q =>
          -- the loop kept a point that does not qualify
          refine ⟨Nat.le_succ_of_le hle, fun heq => ?_⟩
          rw [List.length_cons] at heq
          omega

/-- For every registry, project and request that is not empty: the request is resolved
    exactly iff every point the registry admits belongs to its project. -/
theorem resolution_exact_iff (p : ProjectId) (registry : RuntimeConfigRegistry)
    {input : List TimeseriesIngestData} (hne : input ≠ []) :
    ExactResolution p registry input (ingestAndResolveData p registry input) ↔
      OwnPoints p registry input := by
  constructor
  · intro h
    have himage := h.points
    rw [resolvedData_points] at himage
    exact himage.length_le.2 rfl
  intro hown
  -- for points of the project itself to qualify is to be resolved
  have hadmits : ∀ point ∈ input, (∃ s, Qualifies p registry point s) ↔
      (resolvedPoint p registry point).isSome := by
    intro point hpoint
    rw [← Option.ne_none_iff_isSome, Ne, resolvedPoint_eq_none, not_forall]
    exact exists_congr fun s => by rw [hown.qualifies hpoint, not_not]
  have herrors : ∀ point ∈ input, (∀ s, ¬ Qualifies p registry point s) ↔
      (ingestError p registry point).isSome := by
    intro point hpoint
    rw [ingestError_isSome, ← not_exists, hadmits point hpoint]
    simp
  refine ⟨counts_add hne, ?_, fun hall => ?_, fun ⟨point, hpoint, hgood⟩ ⟨bad, hbad, hfail⟩ => ?_,
    fun hall => ?_⟩
  · rw [resolvedData_points]
    exact hown.image
  · -- nothing failed
    have hnone : input.filterMap (ingestError p registry) = [] := by
      refine List.filterMap_eq_nil_iff.mpr fun point hpoint => ?_
      have hsome := (hadmits point hpoint).mp (hall point hpoint)
      have herror := @ingestError_isSome p registry point
      rw [Option.isNone_eq_false_iff.mpr hsome] at herror
      exact Option.not_isSome_iff_eq_none.mp (by rw [herror]; exact Bool.false_ne_true)
    have hsum := @resolved_add_failed p registry input
    rw [hnone, List.length_nil, Nat.add_zero] at hsum
    have hpoints : input.filterMap (resolvedPoint p registry) ≠ [] := by
      intro hempty
      rw [hempty] at hsum
      exact hne (List.length_eq_zero_iff.mp hsum.symm)
    rw [operation_of_ne hne]
    simp only [hnone, List.isEmpty_iff, hpoints, if_false, List.length_nil, ne_eq, not_true]
    rfl
  · -- some failed
    have hpoints : input.filterMap (resolvedPoint p registry) ≠ [] := by
      obtain ⟨q, hq⟩ := Option.isSome_iff_exists.mp ((hadmits point hpoint).mp hgood)
      exact List.ne_nil_of_mem (List.mem_filterMap.mpr ⟨point, hpoint, hq⟩)
    have hfailed : (input.filterMap (ingestError p registry)).length ≠ 0 := by
      obtain ⟨error, herror⟩ := Option.isSome_iff_exists.mp ((herrors bad hbad).mp hfail)
      refine fun hzero => List.ne_nil_of_mem (List.mem_filterMap.mpr ⟨bad, hbad, herror⟩)
        (List.length_eq_zero_iff.mp hzero)
    rw [operation_of_ne hne]
    simp only [List.isEmpty_iff, hpoints, if_false, hfailed, ne_eq, not_false_eq_true, if_true]
  · -- all failed: the error of the first point is the first error
    have hpoints : input.filterMap (resolvedPoint p registry) = [] := by
      refine List.filterMap_eq_nil_iff.mpr fun point hpoint => ?_
      exact resolvedPoint_eq_none.mpr fun s ha =>
        hall point hpoint s ((hown.qualifies hpoint).mpr ha)
    cases input with
    | nil => exact absurd rfl hne
    | cons point rest =>
        obtain ⟨error, herror⟩ := Option.isSome_iff_exists.mp
          ((herrors point (List.mem_cons_self ..)).mp (hall point (List.mem_cons_self ..)))
        have htext := ingestError_text herror
        refine ⟨error, herror, ?_⟩
        rw [operation_of_ne hne]
        simp only [hpoints, List.filterMap_cons, herror, List.isEmpty_nil, if_true,
          List.head?_cons, Option.getD_some, String.isEmpty_iff, htext, if_false, and_self]

end Exact

/-! ## A point of another project -/

/-- The points of the validation test: a good one, one with a wrong kind. -/
theorem resolution_exact_two_points :
    ExactResolution "p" (registryOf "double")
      [measured (.double (.finite 3)) 1000, measured (.int64 3) 1002]
      (ingestAndResolveData "p" (registryOf "double")
        [measured (.double (.finite 3)) 1000, measured (.int64 3) 1002]) :=
  (resolution_exact_iff "p" (registryOf "double") (List.cons_ne_nil _ _)).mpr fun point hpoint _ => by
    rcases List.mem_cons.mp hpoint with rfl | hpoint
    · exact Or.inl rfl
    · rw [List.mem_singleton.mp hpoint]
      exact Or.inl rfl

/-- The point of the validation test that names project q. -/
def foreignPoint : TimeseriesIngestData :=
  { measured (.double (.finite 3)) 1003 with projectId := "q" }

/-- The request takes the point of another project over as its own. -/
theorem foreign_point_resolved :
    (ingestAndResolveData "p" (registryOf "double") [foreignPoint]).operation.code = .ok ∧
      (ingestAndResolveData "p" (registryOf "double") [foreignPoint]).resolvedData.points =
        [{ time := 1003, sequenceId := "s", value := .double (.finite 3), projectId := "p" }] ∧
      ¬ ExactResolution "p" (registryOf "double") [foreignPoint]
        (ingestAndResolveData "p" (registryOf "double") [foreignPoint]) := by
  refine ⟨by decide, by decide, fun h => ?_⟩
  have hpoints : (ingestAndResolveData "p" (registryOf "double")
      [foreignPoint]).resolvedData.points =
      [{ time := 1003, sequenceId := "s", value := .double (.finite 3), projectId := "p" }] := by
    decide
  have himage := h.points
  rw [hpoints] at himage
  cases himage with
  | resolved hq hrest => exact absurd hq.own (by decide)
  | failed hno hrest => cases hrest

end IngestResolution
