import Mathlib.Order.Lattice
import TimeSeriesEngine.WindowRefinement

/-!
# The watermark over whole runs

The watermark is meant to be the newest accepted time: eviction and the default
live window are computed from it.  `advanceWatermark` reads its `hadWatermark`
flag once, before the loop, so the first accepted batch of a project leaves the
time of its *last* point, whatever stood in front of it; every later batch can
only raise the watermark.

`anchored_iff` says exactly in which runs the watermark is the newest accepted
time throughout: those whose first accepted batch ends with its newest point.
-/

namespace Watermark

open TseTypes KeyedTable OrderedSeries SeqWindow HotWindow WindowContent WindowUpdate
open WindowRefinement Transition

/-- One hot-window update, of any project. -/
structure UpdateCall where
  projectId : ProjectId
  data : TimeseriesBatch
  override : Option Int

/-- The service behind an update. -/
def updateStep (service : WindowService) (call : UpdateCall) : WindowService :=
  (updateWindowIncremental call.projectId call.data call.override service).1

/-- Whether a call is an accepted update of project `p`. -/
def acceptedFor (p : ProjectId) (call : UpdateCall) : Bool :=
  decide (effectiveProject call.projectId = effectiveProject p) &&
    (readBatch call.projectId call.data call.override).2.isNone

/-- All times project `p` has accepted. -/
def acceptedTimes (p : ProjectId) (calls : List UpdateCall) : List Timestamp :=
  (calls.filter (acceptedFor p)).flatMap fun call => call.data.points.map RawTimeseriesPoint.time

/-- The newest accepted time of project `p`. -/
def newest (p : ProjectId) (calls : List UpdateCall) : Option Timestamp :=
  (acceptedTimes p calls).max?

/-- A call counts for a project when it is accepted there. -/
theorem acceptedFor_iff {p : ProjectId} {call : UpdateCall} :
    acceptedFor p call = true ↔
      effectiveProject call.projectId = effectiveProject p ∧
        Accepted call.projectId call.data call.override := by
  unfold acceptedFor
  rw [Bool.and_eq_true_iff, decide_eq_true_eq]
  refine and_congr_right fun _ => ?_
  rcases readBatch_cases call.projectId call.data call.override with
    ⟨h, heq⟩ | ⟨h, result, error, heq⟩
  · simp [heq, h]
  · simp [heq, h]

/-! ## The watermark as a fold over the accepted batches -/

/-- The watermark after a list of calls, as the loop of each batch leaves it. -/
def watermarkOf (p : ProjectId) (calls : List UpdateCall) : Option Timestamp :=
  (calls.filter (acceptedFor p)).foldl
    (fun watermark call => some (modelWatermark watermark call.data.points)) none

/-- The watermark after one call. -/
theorem updateStep_watermark (p : ProjectId) (service : WindowService)
    (call : UpdateCall) :
    (updateStep service call).watermarks.find (effectiveProject p) =
      if acceptedFor p call then
        some (modelWatermark (service.watermarks.find (effectiveProject p)) call.data.points)
      else service.watermarks.find (effectiveProject p) := by
  unfold updateStep
  by_cases hacc : Accepted call.projectId call.data call.override
  · rw [update_watermarks hacc, find_put, watermarkAfter, advanceWatermark_eq]
    by_cases he : effectiveProject p = effectiveProject call.projectId
    · have ha : acceptedFor p call = true := acceptedFor_iff.mpr ⟨he.symm, hacc⟩
      rw [if_pos he, if_pos ha, he]
    · have ha : ¬ acceptedFor p call = true := fun h => he (acceptedFor_iff.mp h).1.symm
      rw [if_neg he, if_neg ha]
  · have ha : ¬ acceptedFor p call = true := fun h => hacc (acceptedFor_iff.mp h).2
    rw [(update_rejected hacc service).1, if_neg ha]

/-- The watermark after a run. -/
theorem run_watermark (p : ProjectId) (calls : List UpdateCall) :
    (run updateStep {} calls).watermarks.find (effectiveProject p) = watermarkOf p calls := by
  have h : ∀ (calls : List UpdateCall) (service : WindowService),
      (run updateStep service calls).watermarks.find (effectiveProject p) =
        (calls.filter (acceptedFor p)).foldl
          (fun watermark call => some (modelWatermark watermark call.data.points))
          (service.watermarks.find (effectiveProject p)) := by
    intro calls
    induction calls with
    | nil => exact fun _ => rfl
    | cons call calls ih =>
        intro service
        rw [run_cons, ih, updateStep_watermark]
        by_cases ha : acceptedFor p call = true
        · rw [if_pos ha, List.filter_cons_of_pos ha, List.foldl_cons]
        · rw [if_neg ha, List.filter_cons_of_neg ha]
  exact h calls {}

/-- A running maximum. -/
theorem foldl_max_spec (points : List RawTimeseriesPoint) (w : Timestamp) :
    w ≤ points.foldl (fun acc q => max acc q.time) w ∧
      (∀ q ∈ points, q.time ≤ points.foldl (fun acc q => max acc q.time) w) ∧
      (points.foldl (fun acc q => max acc q.time) w = w ∨
        ∃ q ∈ points, q.time = points.foldl (fun acc q => max acc q.time) w) := by
  induction points generalizing w with
  | nil => exact ⟨le_refl _, by simp, Or.inl rfl⟩
  | cons q qs ih =>
      obtain ⟨h1, h2, h3⟩ := ih (max w q.time)
      rw [List.foldl_cons]
      refine ⟨le_trans (le_max_left _ _) h1, fun r hr => ?_, ?_⟩
      · rcases List.mem_cons.mp hr with rfl | hr'
        · exact le_trans (le_max_right _ _) h1
        · exact h2 r hr'
      · rcases h3 with h3 | ⟨r, hr, hrt⟩
        · rcases le_total w q.time with hle | hle
          · rw [h3, max_eq_right hle]
            exact Or.inr ⟨q, by simp, rfl⟩
          · rw [h3, max_eq_left hle]
            exact Or.inl rfl
        · exact Or.inr ⟨r, List.mem_cons_of_mem _ hr, hrt⟩

/-- The last point of the batch is its newest. -/
def EndsWithNewest (data : TimeseriesBatch) : Prop :=
  ∀ last, data.points.getLast? = some last → ∀ q ∈ data.points, q.time ≤ last.time

/-- The first accepted batch of the project, if there is one, ends with its
    newest point. -/
def FirstBatchEndsWithNewest (p : ProjectId) (calls : List UpdateCall) : Prop :=
  ∀ call, (calls.filter (acceptedFor p)).head? = some call → EndsWithNewest call.data

/-- The maximum of two parts. -/
theorem max?_append_of {xs ys : List Timestamp} {w m : Timestamp} (hx : xs.max? = some w)
    (h1 : w ≤ m) (h2 : ∀ y ∈ ys, y ≤ m) (h3 : m = w ∨ m ∈ ys) : (xs ++ ys).max? = some m := by
  rw [List.max?_eq_some_iff] at hx ⊢
  constructor
  · rcases h3 with rfl | h3
    · exact List.mem_append_left _ hx.1
    · exact List.mem_append_right _ h3
  · intro b hb
    rcases List.mem_append.mp hb with hb | hb
    · exact le_trans (hx.2 b hb) h1
    · exact h2 b hb

/-- After the first batch the fold keeps being the maximum. -/
theorem later_batches {accepted : List UpdateCall} {w : Timestamp} {seen : List Timestamp}
    (hw : seen.max? = some w) :
    accepted.foldl (fun watermark call => some (modelWatermark watermark call.data.points))
        (some w) =
      (seen ++ accepted.flatMap fun call =>
        call.data.points.map RawTimeseriesPoint.time).max? := by
  induction accepted generalizing w seen with
  | nil => simp [hw]
  | cons call accepted ih =>
      obtain ⟨h1, h2, h3⟩ := foldl_max_spec call.data.points w
      have hstep : (seen ++ call.data.points.map RawTimeseriesPoint.time).max? =
          some (modelWatermark (some w) call.data.points) := by
        refine max?_append_of hw h1 (fun y hy => ?_) ?_
        · obtain ⟨q, hq, rfl⟩ := List.mem_map.mp hy
          exact h2 q hq
        · refine h3.imp id ?_
          rintro ⟨q, hq, hqt⟩
          rw [modelWatermark, ← hqt]
          exact List.mem_map.mpr ⟨q, hq, rfl⟩
      rw [List.foldl_cons, List.flatMap_cons, ← List.append_assoc]
      exact ih hstep

/-- On the first batch the watermark is the newest time when it comes last. -/
theorem first_batch {data : TimeseriesBatch} (hne : data.points ≠ []) :
    (data.points.map RawTimeseriesPoint.time).max? = some (modelWatermark none data.points) ↔
      EndsWithNewest data := by
  obtain ⟨last, hlast⟩ : ∃ last, data.points.getLast? = some last := by
    cases h : data.points.getLast? with
    | none => exact absurd (List.getLast?_eq_none_iff.mp h) hne
    | some last => exact ⟨last, rfl⟩
  have hm : modelWatermark none data.points = last.time := by
    rw [modelWatermark, hlast]
    rfl
  rw [hm, List.max?_eq_some_iff]
  constructor
  · intro h last' hlast' q hq
    rw [hlast] at hlast'
    cases hlast'
    exact h.2 q.time (List.mem_map.mpr ⟨q, hq, rfl⟩)
  · intro h
    refine ⟨List.mem_map.mpr ⟨last, List.mem_of_getLast? hlast, rfl⟩, fun b hb => ?_⟩
    obtain ⟨q, hq, rfl⟩ := List.mem_map.mp hb
    exact h last hlast q hq

/-- When the first batch ends with its newest point, the watermark is the newest
    accepted time. -/
theorem watermarkOf_eq_newest {p : ProjectId} {calls : List UpdateCall}
    (h : FirstBatchEndsWithNewest p calls) : watermarkOf p calls = newest p calls := by
  unfold FirstBatchEndsWithNewest at h
  unfold watermarkOf newest acceptedTimes
  have hall : ∀ call ∈ calls.filter (acceptedFor p), call.data.points ≠ [] := fun call hc =>
    (acceptedFor_iff.mp (List.mem_filter.mp hc).2).2.nonempty
  cases hf : calls.filter (acceptedFor p) with
  | nil => rfl
  | cons call accepted =>
      rw [hf] at h hall
      have hfirst := (first_batch (hall call (by simp))).mpr (h call rfl)
      exact later_batches hfirst

/-- After exactly one accepted batch the watermark is the newest accepted time
    only if that batch ends with its newest point. -/
theorem newest_of_first {p : ProjectId} {before : List UpdateCall} {call : UpdateCall}
    (hbefore : before.filter (acceptedFor p) = []) (hcall : acceptedFor p call = true)
    (h : watermarkOf p (before ++ [call]) = newest p (before ++ [call])) :
    EndsWithNewest call.data := by
  have hf : (before ++ [call]).filter (acceptedFor p) = [call] := by
    rw [List.filter_append, hbefore, List.nil_append, List.filter_cons_of_pos hcall,
      List.filter_nil]
  unfold watermarkOf newest acceptedTimes at h
  rw [hf] at h
  refine (first_batch (acceptedFor_iff.mp hcall).2.nonempty).mp ?_
  simpa using h.symm

/-! ## What is computed from the watermark -/

/-- The service's watermark is the newest accepted time, it has not fallen, and
    the last update's eviction and the default live window start from it. -/
structure Anchored (p : ProjectId) (calls : List UpdateCall) : Prop where
  watermark : (run updateStep {} calls).watermarks.find (effectiveProject p) = newest p calls
  neverDecreases : ∀ before, before <+: calls → ∀ old new, newest p before = some old →
    newest p calls = some new → old ≤ new
  eviction : ∀ before call, calls = before ++ [call] → acceptedFor p call = true →
    (updateWindowIncremental call.projectId call.data call.override
        (run updateStep {} before)).2.windowStartTime =
      (newest p calls).map fun t =>
        windowStart t (windowSize p (run updateStep {} calls))
  liveWindow : ∀ capacity query r newestTime, newest p calls = some newestTime →
    query.startTime = none → query.endTime = none →
    queryWindowData capacity p query (run updateStep {} calls) = .ok r →
    r.operation.message = "window query completed" →
    r.data.windowStartTime = liveStart newestTime (windowSize p (run updateStep {} calls)) ∧
      r.data.windowEndTime = liveEnd newestTime

theorem acceptedTimes_append (p : ProjectId) (before after : List UpdateCall) :
    acceptedTimes p (before ++ after) = acceptedTimes p before ++ acceptedTimes p after := by
  rw [acceptedTimes, List.filter_append, List.flatMap_append]
  rfl

/-- The newest time never goes back. -/
theorem newest_le_of_prefix {p : ProjectId} {before calls : List UpdateCall}
    (hpre : before <+: calls) {old new : Timestamp} (hold : newest p before = some old)
    (hnew : newest p calls = some new) : old ≤ new := by
  obtain ⟨after, rfl⟩ := hpre
  unfold newest at hold hnew
  rw [List.max?_eq_some_iff] at hold hnew
  rw [acceptedTimes_append] at hnew
  exact hnew.2 old (List.mem_append_left _ hold.1)

/-- The report of an accepted update names the eviction start. -/
theorem update_windowStartTime {p : ProjectId} {data : TimeseriesBatch}
    {override : Option Int} (hacc : Accepted p data override) (service : WindowService) :
    (updateWindowIncremental p data override service).2.windowStartTime =
      some (startAfter p data override service) := by
  have hn := (noteAll_changed p data.points).1
  obtain ⟨h1, h2, h3⟩ := runSequenceSteps_report (effectiveProject p) data.points hn
    (metadataStep (effectiveProject p) override data.points
      (noteAll p data.points).changedSequenceIds service).1.sequenceWindows
    { noteAll p data.points with
      updateGeneration := (metadataStep (effectiveProject p) override data.points
        (noteAll p data.points).changedSequenceIds service).2.generation
      windowStartTime := some (metadataStep (effectiveProject p) override data.points
        (noteAll p data.points).changedSequenceIds service).2.windowStart
      incrementalSafe := true }
  have hb : (reportBefore p data override service).windowStartTime =
      some (startAfter p data override service) := by
    rw [← metadataStep_windowStart p data override (noteAll p data.points).changedSequenceIds]
    exact h1.windowStartTime
  rw [update_eq hacc]
  refine (reportEvictions_windowStartTime _ _ _).trans hb

/-- A completed default query runs over the live window of the watermark. -/
theorem defaultQuery_bounds {capacity : Nat} {p : ProjectId} {query : WindowQuery}
    {service : WindowService} {watermark : Timestamp}
    (hwm : service.watermarks.find (effectiveProject p) = some watermark)
    (hs : query.startTime = none) (he : query.endTime = none) {r : WindowQueryResult}
    (hr : queryWindowData capacity p query service = .ok r)
    (hm : r.operation.message = "window query completed") :
    r.data.windowStartTime = liveStart watermark (windowSize p service) ∧
      r.data.windowEndTime = liveEnd watermark := by
  unfold queryWindowData at hr
  simp only [hwm, hs, he, Option.any_none, Bool.false_eq_true, if_false, Option.getD_none] at hr
  split at hr
  · cases hr
    exact absurd hm (by simp [invalidArgument])
  · split at hr
    · cases hr
      rename_i message hfind
      rw [findSequences_error hfind] at hm
      exact absurd hm (by simp [invalidArgument])
    · split at hr
      · cases hr
        exact absurd hm (by simp [okResult])
      · split at hr
        · cases hr
          exact absurd hm (by simp [invalidArgument])
        · split at hr
          · exact nomatch hr
          · cases hr
            simp only [ite_self, and_self]

/-- **The watermark is the newest accepted time throughout a run exactly when
    the project's first accepted batch ends with its newest point.** -/
theorem anchored_iff (p : ProjectId) (calls : List UpdateCall) :
    (∀ before, before <+: calls → Anchored p before) ↔ FirstBatchEndsWithNewest p calls := by
  constructor
  · intro h call hhead
    -- the prefix that ends with the first accepted call decides
    obtain ⟨before, after, hsplit, hnone⟩ : ∃ before after, calls = before ++ call :: after ∧
        before.filter (acceptedFor p) = [] ∧ acceptedFor p call = true := by
      have hf : calls.find? (acceptedFor p) = some call := by
        rw [← List.head?_filter]
        exact hhead
      obtain ⟨hc, before, after, hsplit, hno⟩ := List.find?_eq_some_iff_append.mp hf
      exact ⟨before, after, hsplit, List.filter_eq_nil_iff.mpr fun c hcb => by
        simpa using hno c hcb, hc⟩
    have hpre : before ++ [call] <+: calls := ⟨after, by simp [hsplit]⟩
    refine newest_of_first hnone.1 hnone.2 ?_
    rw [← run_watermark p]
    exact (h _ hpre).watermark
  · intro h before hpre
    have hfirst : FirstBatchEndsWithNewest p before := by
      intro call hhead
      obtain ⟨after, rfl⟩ := hpre
      refine h call ?_
      rw [List.filter_append, List.head?_append, hhead]
      rfl
    have hw : (run updateStep {} before).watermarks.find (effectiveProject p) =
        newest p before :=
      (run_watermark p before).trans (watermarkOf_eq_newest hfirst)
    refine ⟨hw, fun _ hpre' _ _ ho hn => newest_le_of_prefix hpre' ho hn, ?_, ?_⟩
    · intro init call heq hcall
      obtain ⟨hproj, hacc⟩ := acceptedFor_iff.mp hcall
      have hstep : run updateStep {} before =
          (updateWindowIncremental call.projectId call.data call.override
            (run updateStep {} init)).1 := by
        rw [heq, run_append]
        rfl
      have hfind := update_watermarks hacc (run updateStep {} init)
      rw [← hstep] at hfind
      rw [hfind, hproj, find_put_self] at hw
      have hsz := update_windowSize hacc (run updateStep {} init)
      rw [← hstep] at hsz
      have hszp : windowSize p (run updateStep {} before) =
          windowSizeAfter call.projectId call.override (run updateStep {} init) := by
        rw [← hsz, windowSize, windowSize, hproj]
      rw [update_windowStartTime hacc, ← hw, Option.map_some, hszp]
      rfl
    · intro capacity query r t ht hs he hr hm
      rw [ht] at hw
      exact defaultQuery_bounds hw hs he hr hm

/-- A point at a time. -/
private def timed (t : Timestamp) : RawTimeseriesPoint :=
  { time := t, sequenceId := "s", value := .int64 0 }

/-- A first batch that is not in time order leaves the time of its last point. -/
theorem watermark_of_shuffled_first_batch :
    (run updateStep {} [⟨"p", { points := [timed 10, timed 5] }, none⟩]).watermarks.find "p" =
        some 5 ∧
      newest "p" [⟨"p", { points := [timed 10, timed 5] }, none⟩] = some 10 := by
  decide

end Watermark
