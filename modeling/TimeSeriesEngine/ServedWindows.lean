import TimeSeriesEngine.StoredPoints
import TimeSeriesEngine.ProjectView
import TimeSeriesEngine.UpdateRange

/-!
# The windows that are handed out

Alignment, constraint checks and statistics check the window they are given once more.  A
window that a query of the hot service returns passes these checks after every run, as long
as the keys of the projects do not run into each other.

* `WellFiled` — every stored point is filed under its sequence and has passed its checks;
* `run_wellFiled` — so it is after every run, on the map of all points;
* `served_window_valid` — a query that succeeds returns a window that passes the checks.
-/

namespace ServedWindows

open TseTypes KeyedTable OrderedSeries SeqWindow SeqContent HotWindow WindowContent WindowUpdate
open WindowRefinement WindowRuns StoredPoints UpdateRange ProjectView Transition

/-! ## What is stored -/

/-- A point of one of the projects, under the key of its sequence. -/
def FiledUnder (owners : ProjectId → Prop) (key : String) (q : RawTimeseriesPoint) : Prop :=
  ∃ p, owners p ∧ key = scopedSequenceKey p q.sequenceId ∧
    validateRawPoint (effectiveProject p) q = none

/-- Every stored point is filed under its own key, and its time is a 64-bit one. -/
structure WellFiled (owners : ProjectId → Prop) (m : StoredModel) : Prop where
  points : ∀ key t q, m.points key t = some q → FiledUnder owners key q ∧ int64Min ≤ q.time
  watermark : ∀ project watermark, m.watermark project = some watermark → int64Min ≤ watermark

/-- A point that is dropped or stays. -/
theorem dropStored_some {project : ProjectId} {start : Timestamp}
    {points : String → Timestamp → Option RawTimeseriesPoint} {key : String} {t : Timestamp}
    {q : RawTimeseriesPoint} (h : dropStored project start points key t = some q) :
    points key t = some q := by
  rw [dropStored] at h
  split at h
  · cases h
  · exact h

/-- A point that is not evicted was there before. -/
theorem evictStored_some {project : ProjectId} {watermark : Option Timestamp} {size : Int}
    {points : String → Timestamp → Option RawTimeseriesPoint} {key : String} {t : Timestamp}
    {q : RawTimeseriesPoint} (h : evictStored project watermark size points key t = some q) :
    points key t = some q := by
  cases watermark with
  | none => exact h
  | some watermark => exact dropStored_some h

/-- A point that a batch wrote, or one that was there. -/
theorem foldl_writeStored_some {project : ProjectId} {written : List RawTimeseriesPoint}
    {points : String → Timestamp → Option RawTimeseriesPoint} {key : String} {t : Timestamp}
    {q : RawTimeseriesPoint} (h : written.foldl (writeStored project) points key t = some q) :
    (q ∈ written ∧ key = scopedSequenceKey project q.sequenceId) ∨ points key t = some q := by
  rw [foldl_writeStored] at h
  rcases Option.or_eq_some_iff.mp h with hlast | ⟨-, hold⟩
  · obtain ⟨hmem, -⟩ := lastAt_some _ hlast
    obtain ⟨hq, hkey⟩ := List.mem_filter.mp hmem
    exact Or.inl ⟨hq, (of_decide_eq_true hkey).symm⟩
  · exact Or.inr hold

/-- Points that pass the checks of a derived sequence are valid. -/
theorem validateDerivedPoints_raw {p : ProjectId} {s : SequenceId}
    {extra : RawTimeseriesPoint → Option String} {data : TimeseriesBatch}
    (h : validateDerivedPoints p s extra data = none) {q : RawTimeseriesPoint}
    (hq : q ∈ data.points) : validateRawPoint (effectiveProject p) q = none := by
  have hpoint := List.findSome?_eq_none_iff.mp h q hq
  cases hraw : validateRawPoint (effectiveProject p) q with
  | none => rfl
  | some error =>
      rw [hraw] at hpoint
      cases hpoint

theorem validateReplace_raw {p : ProjectId} {s : SequenceId} {data : TimeseriesBatch}
    (h : validateReplace p s data = none) :
    ∀ q ∈ data.points, validateRawPoint (effectiveProject p) q = none := by
  rw [validateReplace] at h
  split at h
  · cases h
  split at h
  · cases h
  · exact fun q hq => validateDerivedPoints_raw h hq

theorem validatePatch_raw {p : ProjectId} {s : SequenceId} {startTime endTime : Timestamp}
    {data : TimeseriesBatch} (h : validatePatch p s startTime endTime data = none) :
    ∀ q ∈ data.points, validateRawPoint (effectiveProject p) q = none := by
  rw [validatePatch] at h
  split at h
  · cases h
  split at h
  · cases h
  split at h
  · cases h
  · exact fun q hq => validateDerivedPoints_raw h hq

/-- The watermark after a batch of such times. -/
theorem modelWatermark_ge {found : Option Timestamp} {points : List RawTimeseriesPoint}
    (hfound : ∀ watermark, found = some watermark → int64Min ≤ watermark)
    (hpoints : ∀ q ∈ points, int64Min ≤ q.time) : int64Min ≤ modelWatermark found points := by
  cases found with
  | none =>
      rw [modelWatermark]
      cases hlast : points.getLast? with
      | none => exact show int64Min ≤ 0 by decide
      | some q => exact hpoints q (List.mem_of_getLast? hlast)
  | some watermark =>
      have hfold : ∀ (qs : List RawTimeseriesPoint) (acc : Timestamp), int64Min ≤ acc →
          int64Min ≤ qs.foldl (fun acc q => max acc q.time) acc := by
        intro qs
        induction qs with
        | nil => exact fun _ h => h
        | cons q qs ih => exact fun acc h => ih _ (h.trans (le_max_left _ _))
      exact hfold points watermark (hfound watermark rfl)

section Steps

variable {owners : ProjectId → Prop} {m : StoredModel}

/-- A batch of checked points is well filed. -/
theorem WellFiled.written (h : WellFiled owners m) {p : ProjectId} (hp : owners p)
    {written : List RawTimeseriesPoint}
    (hwritten : ∀ q ∈ written,
      validateRawPoint (effectiveProject p) q = none ∧ int64Min ≤ q.time)
    {points : String → Timestamp → Option RawTimeseriesPoint}
    (hpoints : ∀ key t q, points key t = some q → m.points key t = some q) (key : String)
    (t : Timestamp) (q : RawTimeseriesPoint)
    (hq : written.foldl (writeStored (effectiveProject p)) points key t = some q) :
    FiledUnder owners key q ∧ int64Min ≤ q.time := by
  rcases foldl_writeStored_some hq with ⟨hmem, hkey⟩ | hold
  · rw [scopedSequenceKey_effective] at hkey
    exact ⟨⟨p, hp, hkey, (hwritten q hmem).1⟩, (hwritten q hmem).2⟩
  · exact h.points key t q (hpoints key t q hold)

/-- **A step** keeps the points well filed. -/
theorem WellFiled.step (h : WellFiled owners m) {call : ServiceCall} (hp : owners call.projectId)
    (hr : InRange call.op) : WellFiled owners (storedStep m call) := by
  obtain ⟨p, op⟩ := call
  cases op with
  | configure size =>
      simp only [storedStep]
      split
      · exact h
      · exact ⟨fun key t q hq => h.points key t q (evictStored_some hq), h.watermark⟩
  | update data override =>
      simp only [storedStep]
      rcases readBatch_cases p data override with ⟨haccepted, heq⟩ | ⟨-, result, error, heq⟩
      · simp only [heq, Option.isSome_none, Bool.false_eq_true, if_false]
        refine ⟨fun key t q hq => ?_, fun project watermark hwatermark => ?_⟩
        · refine h.written hp (fun q hq => ⟨haccepted.points q hq, (hr q hq).1⟩)
            (fun _ _ _ hold => hold) key t q (dropStored_some hq)
        · by_cases hproject : project = effectiveProject p
          · subst hproject
            have hnew := (Function.update_self ..).symm.trans hwatermark
            rw [← Option.some.inj hnew]
            exact modelWatermark_ge (h.watermark _) fun q hq => (hr q hq).1
          · have hold := (Function.update_of_ne hproject ..).symm.trans hwatermark
            exact h.watermark project watermark hold
      · simp only [heq, Option.isSome_some, if_true]
        exact h
  | replace s data =>
      simp only [storedStep]
      cases hvalid : validateReplace p s data with
      | some error => exact h
      | none =>
          simp only [Option.isSome_none, Bool.false_eq_true, if_false]
          refine ⟨fun key t q hq => ?_, h.watermark⟩
          refine h.written hp (fun q hq => ⟨validateReplace_raw hvalid q hq, (hr q hq).1⟩)
            (fun key t q hold => ?_) key t q (evictStored_some hq)
          by_cases hkey : key = scopedSequenceKey (effectiveProject p) s
          · rw [hkey, Function.update_self] at hold
            cases hold
          · rwa [Function.update_of_ne hkey] at hold
  | patch s startTime endTime data =>
      simp only [storedStep]
      cases hvalid : validatePatch p s startTime endTime data with
      | some error => exact h
      | none =>
          simp only [Option.isSome_none, Bool.false_eq_true, if_false]
          refine ⟨fun key t q hq => ?_, h.watermark⟩
          refine h.written hp (fun q hq => ⟨validatePatch_raw hvalid q hq, (hr q hq).1⟩)
            (fun key t q hold => ?_) key t q hq
          by_cases hkey : key = scopedSequenceKey (effectiveProject p) s
          · rw [hkey, Function.update_self] at hold
            split at hold
            · cases hold
            · rw [hkey]
              exact hold
          · rwa [Function.update_of_ne hkey] at hold
  | query query => exact h
  | statistics ids => exact h

theorem wellFiled_empty (owners : ProjectId → Prop) : WellFiled owners emptyStored where
  points := fun _ _ _ h => absurd h (Option.some_ne_none _).symm
  watermark := fun _ _ h => absurd h (Option.some_ne_none _).symm

/-- **After every run** the points are well filed. -/
theorem run_wellFiled (owners : ProjectId → Prop) {calls : List ServiceCall}
    (hp : ∀ call ∈ calls, owners call.projectId)
    (hr : ∀ call ∈ calls, InRange call.op) :
    WellFiled owners (run storedStep emptyStored calls) :=
  @run_invariant _ _ storedStep (WellFiled owners)
    (fun call => owners call.projectId ∧ InRange call.op)
    (fun _ _ hcall h => h.step hcall.1 hcall.2) _ (wellFiled_empty owners) _ fun call hcall =>
      ⟨hp call hcall, hr call hcall⟩

end Steps

/-! ## What a query returns -/

/-- The keys of the projects do not run into those of `p`. -/
def Apart (p : ProjectId) (calls : List ServiceCall) : Prop :=
  ∀ call ∈ calls, effectiveProject call.projectId = effectiveProject p ∨ Separate p call.projectId

/-- A stored point of a project, after a run. -/
structure PointOf (p : ProjectId) (s : SequenceId) (q : RawTimeseriesPoint) : Prop where
  sequence : q.sequenceId = s
  valid : validateRawPoint (effectiveProject p) q = none
  inRange : int64Min ≤ q.time ∧ q.time ≤ int64Max

/-- A point under a key of `p` is one of its own. -/
theorem filedUnder_own {p : ProjectId} {calls : List ServiceCall} (hapart : Apart p calls)
    {s : SequenceId} {q : RawTimeseriesPoint}
    (h : FiledUnder (fun other => ∃ call ∈ calls, call.projectId = other)
      (scopedSequenceKey p s) q) :
    q.sequenceId = s ∧ validateRawPoint (effectiveProject p) q = none := by
  obtain ⟨other, ⟨call, hcall, rfl⟩, hkey, hvalid⟩ := h
  rcases hapart call hcall with hsame | hseparate
  · rw [← scopedSequenceKey_effective p, ← scopedSequenceKey_effective call.projectId, hsame,
      scopedSequenceKey_inj] at hkey
    rw [hsame] at hvalid
    exact ⟨hkey.symm, hvalid⟩
  · have hown := ownKey_other hseparate (ownKey_self call.projectId q.sequenceId)
    rw [← hkey, ownKey_self] at hown
    cases hown

/-- **Every retained point** of a project is one of its own, after every run. -/
theorem retained_points {p : ProjectId} {calls : List ServiceCall}
    (hr : ∀ call ∈ calls, InRange call.op) (hapart : Apart p calls) (s : SequenceId) :
    ∀ q ∈ retained p s (run callStep {} calls), PointOf p s q := by
  intro q hq
  have hstores := run_stored hr
  have hfiled := run_wellFiled (fun other => ∃ call ∈ calls, call.projectId = other)
    (fun call hcall => ⟨call, hcall, rfl⟩) hr
  have hfound : (run storedStep emptyStored calls).points (scopedSequenceKey p s) q.time =
      some q := by
    rw [hstores.points]
    exact (pointAt_eq_some (hstores.valid.ascending _)).mpr ⟨hq, rfl⟩
  obtain ⟨hunder, hlow⟩ := hfiled.points _ _ q hfound
  obtain ⟨hsequence, hvalid⟩ := filedUnder_own hapart hunder
  exact ⟨hsequence, hvalid, hlow, hstores.inRange _ q hq⟩

/-- What a successful query returns. -/
structure Served (p : ProjectId) (service : WindowService) (data : WindowData) : Prop where
  project : data.projectId = effectiveProject p
  points : ∀ s points, data.sequenceValues.find s = some points →
    points ≠ [] ∧ ∀ q ∈ points, q ∈ retained p s service
  ordered : data.windowStartTime ≤ data.windowEndTime

theorem served_empty (p : ProjectId) (service : WindowService) :
    Served p service { projectId := effectiveProject p } :=
  ⟨rfl, fun _ _ h => (nomatch h), le_refl _⟩

/-- The live window does not end before it starts. -/
theorem liveStart_le_liveEnd {watermark size : Int} (hlow : int64Min ≤ watermark)
    (hsize : 0 < size) : liveStart watermark size ≤ liveEnd watermark := by
  have hend : watermark ≤ liveEnd watermark := by
    rw [liveEnd]
    split <;> omega
  rw [liveStart, windowStart]
  split
  · exact hlow.trans hend
  · exact sub_le_self _ hsize.le

/-- What a query collects comes from the retained points. -/
theorem collected_points {count : Nat} {slice points : List RawTimeseriesPoint}
    (h : collected none count slice = some points) :
    points ≠ [] ∧ ∀ q ∈ points, q ∈ slice := by
  have hne : points ≠ [] := fun hnil => collected_ne_nil none count slice (hnil ▸ h)
  have hflat := collected_getD none count slice
  rw [h, Option.getD_some] at hflat
  refine ⟨hne, fun q hq => ?_⟩
  rw [hflat] at hq
  obtain ⟨xs, hxs, hmem⟩ := List.mem_flatten.mp hq
  rwa [(List.mem_replicate.mp hxs).2] at hmem

/-- **A query that succeeds** hands out retained points. -/
theorem served_of_success {capacity : Nat} {p : ProjectId} {query : WindowQuery}
    {service : WindowService} (hv : AllValid service.sequenceWindows)
    (hlow : ∀ watermark, service.watermarks.find (effectiveProject p) = some watermark →
      int64Min ≤ watermark)
    {result : WindowQueryResult} (hresult : queryWindowData capacity p query service = .ok result)
    (hok : isSuccessful result.operation.code = true) : Served p service result.data := by
  have hrejected : ∀ {message} {data : WindowData}, ¬ (Except.ok
      { operation := invalidArgument message, projectId := effectiveProject p, data := data } :
        Except String WindowQueryResult) = .ok result := by
    rintro message data heq
    rw [← Except.ok.inj heq] at hok
    cases hok
  rw [queryWindowData] at hresult
  simp only at hresult
  split at hresult
  · exact absurd hresult hrejected
  split at hresult
  · exact absurd hresult hrejected
  cases hfind : findSequences (effectiveProject p) "window query sequence_id must not be empty"
      service query.sequenceIds with
  | error message =>
      rw [hfind] at hresult
      exact absurd hresult hrejected
  | ok sequences =>
      rw [hfind] at hresult
      simp only at hresult
      cases hwatermark : service.watermarks.find (effectiveProject p) with
      | none =>
          rw [hwatermark] at hresult
          rw [← Except.ok.inj hresult]
          exact served_empty p service
      | some watermark =>
          rw [hwatermark] at hresult
          simp only at hresult
          split at hresult
          · rw [← Except.ok.inj hresult]
            exact served_empty p service
          rename_i hsize
          split at hresult
          · exact absurd hresult hrejected
          rename_i hrange
          split at hresult
          · cases hresult
          have hne : ∀ s ∈ query.sequenceIds, s ≠ "" := by
            rintro s hs rfl
            obtain ⟨message, herror⟩ := findSequences_of_empty (effectiveProject p)
              "window query sequence_id must not be empty" service hs
            rw [hfind] at herror
            cases herror
          rw [findSequences_ok hne] at hfind
          rw [← Except.ok.inj hresult, ← Except.ok.inj hfind]
          refine ⟨rfl, fun s points hs => ?_, ?_⟩
          · have hcollected := (foldl_addOutput hv query.sequenceIds
              (fun _ => by simp) s).symm.trans hs
            obtain ⟨hnonempty, hslice⟩ := collected_points hcollected
            refine ⟨hnonempty, fun q hq => ?_⟩
            have hmem := (sliceOf_within _ _ _ _ _).subset (hslice q hq)
            rwa [scopedSequenceKey_effective] at hmem
          · show (if query.preserveWindowBounds then _ else _) ≤
              if query.preserveWindowBounds then _ else _
            split
            · exact liveStart_le_liveEnd (hlow watermark hwatermark) (not_le.mp hsize)
            · exact not_lt.mp hrange

/-- What a query hands out after a run passes the checks. -/
theorem Served.valid {p : ProjectId} {calls : List ServiceCall}
    (hr : ∀ call ∈ calls, InRange call.op) (hapart : Apart p calls) {data : WindowData}
    (h : Served p (run callStep {} calls) data) :
    validateWindowData (effectiveProject p) data = none := by
  rw [validateWindowData, if_neg (by simp [h.project]), if_neg (not_lt.mpr h.ordered)]
  refine List.findSome?_eq_none_iff.mpr fun s hs => ?_
  rw [data.sequenceValues.mem_keys, Option.isSome_iff_exists] at hs
  obtain ⟨points, hpoints⟩ := hs
  obtain ⟨hne, hmem⟩ := h.points s points hpoints
  rw [hpoints, Option.getD_some, validateSequenceValues_eq_none]
  have hown : ∀ q ∈ points, PointOf p s q := fun q hq =>
    retained_points hr hapart s q (hmem q hq)
  refine ⟨?_, fun q hq => ⟨(hown q hq).sequence, (hown q hq).valid⟩⟩
  obtain ⟨q, hq⟩ := List.exists_mem_of_ne_nil _ hne
  have hid := validatePoint_sequenceId (validateRawPoint_eq_none.mp (hown q hq).valid).2
  rwa [(hown q hq).sequence] at hid

/-- After a run no watermark lies below the 64-bit times. -/
theorem run_watermark_ge {calls : List ServiceCall} (hr : ∀ call ∈ calls, InRange call.op)
    {project : ProjectId} {watermark : Timestamp}
    (h : (run callStep {} calls).watermarks.find project = some watermark) :
    int64Min ≤ watermark :=
  (run_wellFiled (fun _ => True) (fun _ _ => trivial) hr).watermark project watermark
    (((run_stored hr).watermark project).trans h)

/-- **Handed out and accepted.**  After every run of operations of any projects whose keys
    do not run into those of `p`: whatever a query of `p` asks for, the window it returns
    with a success passes the checks of the services that take it. -/
theorem served_window_valid {p : ProjectId} {calls : List ServiceCall}
    (hr : ∀ call ∈ calls, InRange call.op) (hapart : Apart p calls) (capacity : Nat)
    (query : WindowQuery) {result : WindowQueryResult}
    (hresult : queryWindowData capacity p query (run callStep {} calls) = .ok result)
    (hok : isSuccessful result.operation.code = true) :
    validateWindowData (effectiveProject p) result.data = none :=
  (served_of_success (run_stored hr).valid (fun _ => run_watermark_ge hr) hresult hok).valid hr
    hapart

/-- A reading of a meter. -/
def metered (s : SequenceId) (t : Timestamp) : RawTimeseriesPoint :=
  { sequenceId := s, time := t, value := .double (.finite 20) }

/-- Two projects that write one sequence. -/
def twoMeters : List ServiceCall :=
  [⟨"p", .update { points := [metered "s" 3, metered "s" 5] } none⟩,
    ⟨"q", .update { points := [metered "s" 4] } none⟩]

theorem twoMeters_inRange : ∀ call ∈ twoMeters, InRange call.op := by
  unfold InRange
  decide

theorem twoMeters_apart : Apart "p" twoMeters := by
  unfold Apart
  decide

/-- A window of the sample run. -/
theorem served_window_valid_two_meters :
    ∃ result, queryWindowData 9 "p" { sequenceIds := ["s"] } (run callStep {} twoMeters) =
        .ok result ∧ validateWindowData (effectiveProject "p") result.data = none := by
  have hok : (queryWindowData 9 "p" { sequenceIds := ["s"] }
      (run callStep {} twoMeters)).toOption.any (isSuccessful ·.operation.code) = true := by
    decide +kernel
  match hresult : queryWindowData 9 "p" { sequenceIds := ["s"] } (run callStep {} twoMeters) with
  | .ok result =>
      rw [hresult] at hok
      exact ⟨result, rfl, served_window_valid twoMeters_inRange twoMeters_apart 9 _ hresult hok⟩
  | .error message =>
      rw [hresult] at hok
      cases hok

end ServedWindows
