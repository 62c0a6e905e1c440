import Mathlib.Algebra.BigOperators.Group.Finset.Basic
import TimeSeriesEngine.StoredPoints

/-!
# Queries with context

`queryWindowData` returns of each sequence the last points in front of the range, the
range and the first points behind it.

* `ContextAnswer` — that answer, in terms of the points the model keeps;
* `context_query_exact` — every query of distinct ids that does not reserve too much is
  answered so, after every run;
* `repeated_ids_iff` — a query that repeats an id answers like one that does not iff the
  repeated ids have nothing to return.
-/

namespace ContextQuery

open TseTypes KeyedTable OrderedSeries SeqWindow SeqContent HotWindow WindowContent WindowUpdate
open WindowRefinement WindowRuns StoredPoints Transition

/-- A query for a range with context points. -/
def contextQuery (ids : List SequenceId) (start finish : Timestamp) (preceding following : Nat)
    (bounds : Bool) : WindowQuery :=
  { sequenceIds := ids
    startTime := some start
    endTime := some finish
    precedingPoints := preceding
    followingPoints := following
    preserveWindowBounds := bounds }

/-! ## The answer, in terms of the kept points -/

/-- The last `count` kept points in front of `start`, all of them if there are fewer. -/
structure LastBefore (kept : Timestamp → Option RawTimeseriesPoint) (start : Timestamp)
    (count : Nat) (xs : List RawTimeseriesPoint) : Prop where
  sound : ∀ q ∈ xs, kept q.time = some q ∧ q.time < start
  few : xs.length ≤ count
  left_out : ∀ q, kept q.time = some q → q.time < start → q ∉ xs →
    xs.length = count ∧ ∀ x ∈ xs, q.time < x.time

/-- The first `count` kept points from `finish` on, all of them if there are fewer. -/
structure FirstFrom (kept : Timestamp → Option RawTimeseriesPoint) (finish : Timestamp)
    (count : Nat) (xs : List RawTimeseriesPoint) : Prop where
  sound : ∀ q ∈ xs, kept q.time = some q ∧ finish ≤ q.time
  few : xs.length ≤ count
  left_out : ∀ q, kept q.time = some q → finish ≤ q.time → q ∉ xs →
    xs.length = count ∧ ∀ x ∈ xs, x.time < q.time

/-- The points of one sequence that a query with context returns. -/
structure ContextAnswer (kept : Timestamp → Option RawTimeseriesPoint)
    (start finish : Timestamp) (preceding following : Nat) (xs : List RawTimeseriesPoint) :
    Prop where
  parts : ∃ front inside back, xs = front ++ inside ++ back ∧
    LastBefore kept start preceding front ∧
    (∀ q, q ∈ inside ↔ kept q.time = some q ∧ start ≤ q.time ∧ q.time < finish) ∧
    FirstFrom kept finish following back
  increasing : Ascending RawTimeseriesPoint.time xs

section Slice

variable {xs : List RawTimeseriesPoint} {start finish : Timestamp} {preceding following : Nat}

/-- The part of a series behind the range. -/
theorem atOrAbove_twice (h : Ascending RawTimeseriesPoint.time xs) (hle : start ≤ finish)
    {q : RawTimeseriesPoint} :
    q ∈ atOrAbove RawTimeseriesPoint.time finish (atOrAbove RawTimeseriesPoint.time start xs) ↔
      q ∈ xs ∧ finish ≤ q.time := by
  rw [(h.atOrAbove _ _).mem_atOrAbove, h.mem_atOrAbove]
  exact ⟨fun hq => ⟨hq.1.1, hq.2⟩, fun hq => ⟨⟨hq.1, le_trans hle hq.2⟩, hq.2⟩⟩

/-- The slice of a series is the answer for the points of the series. -/
theorem sliceOf_answer (h : Ascending RawTimeseriesPoint.time xs) (hle : start ≤ finish)
    (preceding following : Nat) :
    ContextAnswer (fun t => pointAt t xs) start finish preceding following
      (sliceOf start finish preceding following xs) := by
  have hkept : ∀ q : RawTimeseriesPoint, pointAt q.time xs = some q ↔ q ∈ xs := fun q => by
    rw [pointAt_eq_some h]
    exact and_iff_left rfl
  refine ⟨⟨_, _, _, rfl, ⟨fun q hq => ?_, ?_, fun q hq hlt hno => ?_⟩, fun q => ?_,
    ⟨fun q hq => ?_, ?_, fun q hq hge hno => ?_⟩⟩,
    h.sublist _ (sliceOf_within ..).sublist⟩
  · obtain ⟨hin, hlt⟩ := (h.mem_below _).mp (List.mem_of_mem_drop hq)
    exact ⟨(hkept q).mpr hin, hlt⟩
  · rw [lastN, List.length_drop]
    omega
  · exact (h.below _ start).lastN_behind _ ((h.mem_below _).mpr ⟨(hkept q).mp hq, hlt⟩) hno
  · rw [(h.atOrAbove _ start).mem_below, h.mem_atOrAbove, hkept, and_assoc]
  · obtain ⟨hin, hge⟩ := (atOrAbove_twice h hle).mp (List.mem_of_mem_take hq)
    exact ⟨(hkept q).mpr hin, hge⟩
  · exact List.length_take_le _ _
  · exact ((h.atOrAbove _ start).atOrAbove _ finish).take_before _
      ((atOrAbove_twice h hle).mpr ⟨(hkept q).mp hq, hge⟩) hno

/-- A point the query would return, were it not for the limit of the context. -/
def Selects (start finish : Timestamp) (preceding following : Nat) (q : RawTimeseriesPoint) :
    Prop :=
  (q.time < start ∧ preceding ≠ 0) ∨ (start ≤ q.time ∧ q.time < finish) ∨
    (finish ≤ q.time ∧ following ≠ 0)

/-- A slice is empty iff nothing is selected. -/
theorem sliceOf_eq_nil (h : Ascending RawTimeseriesPoint.time xs) (hle : start ≤ finish) :
    sliceOf start finish preceding following xs = [] ↔
      ∀ q ∈ xs, ¬ Selects start finish preceding following q := by
  constructor
  · intro hnil q hq hselects
    rw [sliceOf, List.append_eq_nil_iff, List.append_eq_nil_iff] at hnil
    obtain ⟨⟨hfront, hinside⟩, hback⟩ := hnil
    rcases hselects with ⟨hlt, hpreceding⟩ | ⟨hge, hlt⟩ | ⟨hge, hfollowing⟩
    · have hmem := (h.mem_below (t := start) _).mpr ⟨hq, hlt⟩
      have hbehind := (h.below _ start).lastN_behind RawTimeseriesPoint.time (n := preceding)
        hmem (by rw [hfront]; exact List.not_mem_nil)
      rw [hfront] at hbehind
      exact hpreceding hbehind.1.symm
    · have hmem := ((h.atOrAbove _ start).mem_below (t := finish) _).mpr
        ⟨(h.mem_atOrAbove _).mpr ⟨hq, hge⟩, hlt⟩
      rw [hinside] at hmem
      cases hmem
    · have hmem := (atOrAbove_twice h hle).mpr ⟨hq, hge⟩
      have hbefore := ((h.atOrAbove _ start).atOrAbove _ finish).take_before
        RawTimeseriesPoint.time (n := following) hmem (by rw [hback]; exact List.not_mem_nil)
      rw [hback] at hbefore
      exact hfollowing hbefore.1.symm
  · intro hno
    refine List.eq_nil_iff_forall_not_mem.mpr fun q hq => ?_
    rw [sliceOf, List.mem_append, List.mem_append] at hq
    rcases hq with (hfront | hinside) | hback
    · obtain ⟨hin, hlt⟩ := (h.mem_below _).mp (List.mem_of_mem_drop hfront)
      refine hno q hin (Or.inl ⟨hlt, fun hzero => ?_⟩)
      rw [hzero, lastN, Nat.sub_zero, List.drop_length] at hfront
      cases hfront
    · obtain ⟨hrest, hlt⟩ := ((h.atOrAbove _ start).mem_below _).mp hinside
      obtain ⟨hin, hge⟩ := (h.mem_atOrAbove _).mp hrest
      exact hno q hin (Or.inr (Or.inl ⟨hge, hlt⟩))
    · obtain ⟨hin, hge⟩ := (atOrAbove_twice h hle).mp (List.mem_of_mem_take hback)
      refine hno q hin (Or.inr (Or.inr ⟨hge, fun hzero => ?_⟩))
      rw [hzero, List.take_zero] at hback
      cases hback

end Slice

/-- After every run of operations of any projects: a query of distinct ids, none of them
    empty, that reserves no more than a vector holds returns for each sequence its context
    and its range out of the points the model keeps, and nothing else. -/
theorem context_query_exact (capacity : Nat) {calls : List ServiceCall}
    (hr : ∀ call ∈ calls, InRange call.op) (p : ProjectId)
    (hw : ((run storedStep emptyStored calls).watermark (effectiveProject p)).isSome)
    {ids : List SequenceId} (hids : ids ≠ []) (hne : ∀ s ∈ ids, s ≠ "") (hnd : ids.Nodup)
    {start finish : Timestamp} (hle : start ≤ finish) {preceding : Nat}
    (hcap : preceding ≤ capacity) (following : Nat) (bounds : Bool) :
    ∃ r, queryWindowData capacity p
        (contextQuery ids start finish preceding following bounds) (run callStep {} calls) = .ok r ∧
      r.operation.code = .ok ∧
      (∀ s ∈ ids, ContextAnswer
        ((run storedStep emptyStored calls).points (scopedSequenceKey p s)) start finish
          preceding following ((r.data.sequenceValues.find s).getD [])) ∧
      ∀ s, s ∉ ids → r.data.sequenceValues.find s = none := by
  have h := run_stored hr
  generalize run callStep {} calls = service at h ⊢
  generalize run storedStep emptyStored calls = m at h hw ⊢
  obtain ⟨watermark, hwm⟩ := Option.isSome_iff_exists.mp hw
  rw [h.watermark] at hwm
  have hsize : 0 < windowSize p service := h.windowSize_pos p
  obtain ⟨r, hr, hok, -, -, hfind⟩ := queryWindowData_spec capacity
    (contextQuery ids start finish preceding following bounds) h.valid hids hne hnd hwm hsize hle
    hcap
  refine ⟨r, hr, hok, fun s hs => ?_, fun s hs => ?_⟩
  · have hslice : (r.data.sequenceValues.find s).getD [] = sliceOf start finish preceding following
        (contentOf (scopedSequenceKey p s) service.sequenceWindows) := by
      rw [hfind, if_pos (show s ∈ (contextQuery ids start finish preceding following
        bounds).sequenceIds from hs)]
      simp only
      split
      · rename_i hnil
        exact hnil.symm
      · rfl
    have hpoints : m.points (scopedSequenceKey p s) = fun t =>
        pointAt t (contentOf (scopedSequenceKey p s) service.sequenceWindows) :=
      funext fun t => h.points _ t
    rw [hslice, hpoints]
    exact sliceOf_answer (h.valid.ascending _) hle preceding following
  · rw [hfind]
    exact if_neg hs

/-- Two points, the second corrected, and a late one. -/
def correctedRun : List ServiceCall :=
  [⟨"p", .update { points := [⟨4, "s", .int64 1, ""⟩, ⟨8, "s", .int64 2, ""⟩] } none⟩,
   ⟨"p", .update { points := [⟨8, "s", .int64 3, ""⟩, ⟨6, "s", .int64 4, ""⟩] } none⟩]

theorem correctedRun_inRange : ∀ call ∈ correctedRun, InRange call.op := by
  simp [correctedRun, InRange, carried, int64Min, int64Max]

/-- A query with context over a point that has been corrected. -/
theorem context_query_exact_corrected :
    ∃ r, queryWindowData 1 "p" (contextQuery ["s"] 7 9 1 1 false) (run callStep {} correctedRun) =
        .ok r ∧
      r.operation.code = .ok ∧
      (∀ s ∈ ["s"], ContextAnswer
        ((run storedStep emptyStored correctedRun).points (scopedSequenceKey "p" s)) 7 9 1 1
          ((r.data.sequenceValues.find s).getD [])) ∧
      ∀ s, s ∉ ["s"] → r.data.sequenceValues.find s = none :=
  context_query_exact 1 correctedRun_inRange "p" (by decide) (by decide) (by decide) (by decide)
    (by decide) (by decide) 1 false

/-- An empty id beside a stored sequence: the whole query is rejected.  A context that does
    not fit a vector: the reservation throws. -/
theorem context_query_refused :
    (∃ r, queryWindowData 1 "p" (contextQuery ["s", ""] 0 9 0 0 false)
        (run callStep {} correctedRun) = .ok r ∧ r.operation.code = .invalidArgument ∧
      ¬ ContextAnswer ((run storedStep emptyStored correctedRun).points (scopedSequenceKey "p" "s"))
        0 9 0 0 ((r.data.sequenceValues.find "s").getD [])) ∧
    queryWindowData 1 "p" (contextQuery ["s"] 7 9 2 0 false) (run callStep {} correctedRun) =
      .error "vector::reserve" := by
  refine ⟨⟨_, rfl, rfl, fun h => ?_⟩, rfl⟩
  obtain ⟨front, inside, back, hparts, -, hinside, -⟩ := h.parts
  have hnil : (([] : List RawTimeseriesPoint)) = front ++ inside ++ back := hparts
  have hmem : (⟨4, "s", .int64 1, ""⟩ : RawTimeseriesPoint) ∈ inside :=
    (hinside _).mpr ⟨by decide, by decide, by decide⟩
  have hin : (⟨4, "s", .int64 1, ""⟩ : RawTimeseriesPoint) ∈ front ++ inside ++ back :=
    List.mem_append_left _ (List.mem_append_right _ hmem)
  rw [← hnil] at hin
  cases hin

/-! ## Requests that repeat an id -/

/-- Two answers that a caller cannot tell apart. -/
def SameAnswer : Except String WindowQueryResult → Except String WindowQueryResult → Prop
  | .ok r, .ok r' =>
      r.operation = r'.operation ∧ r.projectId = r'.projectId ∧
        r.data.projectId = r'.data.projectId ∧
        r.data.windowStartTime = r'.data.windowStartTime ∧
        r.data.windowEndTime = r'.data.windowEndTime ∧
        ∀ s, r.data.sequenceValues.find s = r'.data.sequenceValues.find s
  | .error message, .error message' => message = message'
  | _, _ => False

/-- Every sequence of the answer is in increasing order of time. -/
def IncreasingAnswer (answer : Except String WindowQueryResult) : Prop :=
  ∀ r, answer = .ok r → ∀ s xs, r.data.sequenceValues.find s = some xs →
    Ascending RawTimeseriesPoint.time xs

theorem SameAnswer.refl (answer : Except String WindowQueryResult) : SameAnswer answer answer := by
  cases answer with
  | error message => rfl
  | ok r => exact ⟨rfl, rfl, rfl, rfl, rfl, fun _ => rfl⟩

/-- Collecting a slice twice or more changes nothing iff the slice is empty. -/
theorem collected_eq_once_iff {count : Nat} (hcount : 2 ≤ count) (slice : List RawTimeseriesPoint) :
    collected none count slice = collected none 1 slice ↔ slice = [] := by
  constructor
  · intro h
    have hlength : count * slice.length = slice.length := by
      have hget := congrArg (fun o => (o.getD []).length) h
      simpa [collected_getD] using hget
    by_contra hne
    have hpos : 0 < slice.length := List.length_pos_iff.mpr hne
    have htwo : 2 * slice.length ≤ count * slice.length := Nat.mul_le_mul_right _ hcount
    omega
  · rintro rfl
    simp [collected]

section Repeated

variable {ids once : List SequenceId} {slice : SequenceId → List RawTimeseriesPoint}

/-- The entries of the two requests agree iff nothing is collected for a repeated id. -/
theorem collected_repeated_iff (hnd : once.Nodup) (hmem : ∀ s, s ∈ once ↔ s ∈ ids) :
    (∀ s, collected none (ids.count s) (slice s) = collected none (once.count s) (slice s)) ↔
      ∀ s ∈ ids, 2 ≤ ids.count s → slice s = [] := by
  have honce : ∀ s ∈ ids, once.count s = 1 := fun s hs => by
    rw [hnd.count, if_pos ((hmem s).mpr hs)]
  constructor
  · intro h s hs htwo
    have heq := h s
    rw [honce s hs] at heq
    exact (collected_eq_once_iff htwo _).mp heq
  · intro h s
    by_cases hs : s ∈ ids
    · rw [honce s hs]
      by_cases htwo : 2 ≤ ids.count s
      · exact (collected_eq_once_iff htwo _).mpr (h s hs htwo)
      · have hone : ids.count s = 1 := by
          have hpos := List.count_pos_iff.mpr hs
          omega
        rw [hone]
    · rw [List.count_eq_zero.mpr hs, List.count_eq_zero.mpr fun hin => hs ((hmem s).mp hin)]

/-- The counts of the two requests agree when nothing is collected for a repeated id. -/
theorem sum_repeated (hnd : once.Nodup) (hmem : ∀ s, s ∈ once ↔ s ∈ ids)
    (h : ∀ s ∈ ids, 2 ≤ ids.count s → slice s = []) :
    (ids.map fun s => (slice s).length).sum = (once.map fun s => (slice s).length).sum := by
  have hsame : ids.toFinset = once.toFinset := by
    ext s
    rw [List.mem_toFinset, List.mem_toFinset, hmem]
  rw [Finset.sum_list_map_count, Finset.sum_list_map_count, hsame]
  refine Finset.sum_congr rfl fun s hs => ?_
  have hin : s ∈ once := List.mem_toFinset.mp hs
  rw [hnd.count, if_pos hin]
  by_cases htwo : 2 ≤ ids.count s
  · rw [h s ((hmem s).mp hin) htwo]
    simp
  · have hpos := List.count_pos_iff.mpr ((hmem s).mp hin)
    rw [show ids.count s = 1 by omega]

end Repeated

/-- A request of distinct ids has an increasing answer. -/
theorem collected_ascending {xs : List RawTimeseriesPoint}
    (h : Ascending RawTimeseriesPoint.time xs) {count : Nat} (hcount : count ≤ 1)
    {ys : List RawTimeseriesPoint} (hys : collected none count xs = some ys) :
    Ascending RawTimeseriesPoint.time ys := by
  have hget : ys = (List.replicate count xs).flatten := by
    have hget := collected_getD none count xs
    rw [hys] at hget
    simpa using hget
  rw [hget]
  obtain rfl | rfl : count = 0 ∨ count = 1 := by omega
  · exact ascending_nil _
  · simpa using h

section Unread

variable {capacity : Nat} {p : ProjectId} {service : WindowService} {ids once : List SequenceId}
  {start finish : Timestamp} {preceding following : Nat} {bounds : Bool}

/-- Without a watermark no sequence is read. -/
theorem contextQuery_no_watermark (hids : ids ≠ []) (hne : ∀ s ∈ ids, s ≠ "")
    (hle : start ≤ finish) (hwm : service.watermarks.find (effectiveProject p) = none) :
    queryWindowData capacity p (contextQuery ids start finish preceding following bounds) service =
      .ok { operation := okResult 0 "window is empty"
            projectId := effectiveProject p
            data := { projectId := effectiveProject p } } := by
  have h1 : ids.isEmpty = false := by simpa using hids
  have h2 : decide (finish < start) = false := by simpa using hle
  unfold queryWindowData
  simp only [contextQuery, h1, h2, findSequences_ok hne, hwm, Option.any_some, Bool.false_eq_true,
    if_false]

/-- With a context that does not fit a vector: the reservation for the first sequence throws,
    unless there is none. -/
theorem contextQuery_beyond (hids : ids ≠ []) (hne : ∀ s ∈ ids, s ≠ "") (hle : start ≤ finish)
    {watermark : Timestamp}
    (hwm : service.watermarks.find (effectiveProject p) = some watermark)
    (hsize : 0 < windowSize p service) (hcap : capacity < preceding) :
    queryWindowData capacity p (contextQuery ids start finish preceding following bounds) service =
      if ∃ s ∈ ids, (service.sequenceWindows.find (scopedSequenceKey p s)).isSome then
        .error "vector::reserve"
      else
        .ok { operation := okResult 0 "window query completed"
              projectId := effectiveProject p
              data :=
                { windowStartTime := if bounds then liveStart watermark (windowSize p service)
                    else start
                  windowEndTime := if bounds then liveEnd watermark else finish
                  projectId := effectiveProject p } } := by
  have h1 : ids.isEmpty = false := by simpa using hids
  have h2 : decide (finish < start) = false := by simpa using hle
  have h3 : ¬ finish < start := not_lt.mpr hle
  have hzero : preceding ≠ 0 := Nat.ne_of_gt (Nat.lt_of_le_of_lt (Nat.zero_le _) hcap)
  have hnil : (ids.filterMap fun s => (service.sequenceWindows.find
      (scopedSequenceKey (effectiveProject p) s)).map fun w => (s, w)) = [] ↔
      ¬ ∃ s ∈ ids, (service.sequenceWindows.find (scopedSequenceKey p s)).isSome := by
    simp [List.filterMap_eq_nil_iff, scopedSequenceKey_effective]
  unfold queryWindowData
  simp only [contextQuery, h1, h2, findSequences_ok hne, hwm, Option.any_some, Bool.false_eq_true,
    if_false, if_neg (not_le.mpr hsize), Option.getD_some]
  refine (if_neg h3).trans ?_
  by_cases hsome : ∃ s ∈ ids, (service.sequenceWindows.find (scopedSequenceKey p s)).isSome
  · rw [if_pos hsome]
    exact if_pos ⟨hzero, hcap, fun e => hnil.mp e hsome⟩
  · rw [if_neg hsome, hnil.mpr hsome]
    exact if_neg fun h => h.2.2 rfl

/-- Where nothing is collected, the two requests have the same answer. -/
theorem unread_same (hids : ids ≠ []) (hne : ∀ s ∈ ids, s ≠ "")
    (hmem : ∀ s, s ∈ once ↔ s ∈ ids) (hle : start ≤ finish) (hsize : 0 < windowSize p service)
    (h : service.watermarks.find (effectiveProject p) = none ∨ capacity < preceding) :
    SameAnswer
        (queryWindowData capacity p (contextQuery ids start finish preceding following bounds)
          service)
        (queryWindowData capacity p (contextQuery once start finish preceding following bounds)
          service) ∧
      IncreasingAnswer
        (queryWindowData capacity p (contextQuery ids start finish preceding following bounds)
          service) := by
  have honce : once ≠ [] := by
    obtain ⟨s, hs⟩ := List.exists_mem_of_ne_nil ids hids
    exact List.ne_nil_of_mem ((hmem s).mpr hs)
  have hne' : ∀ s ∈ once, s ≠ "" := fun s hs => hne s ((hmem s).mp hs)
  cases hwm : service.watermarks.find (effectiveProject p) with
  | none =>
      rw [contextQuery_no_watermark hids hne hle hwm, contextQuery_no_watermark honce hne' hle hwm]
      refine ⟨SameAnswer.refl _, fun r hr s xs hfind => ?_⟩
      rw [← Except.ok.inj hr] at hfind
      cases hfind
  | some watermark =>
      -- the query is refused as soon as one of the ids has a window
      have hcap : capacity < preceding := h.resolve_left (by rw [hwm]; simp)
      have hiff : (∃ s ∈ once, (service.sequenceWindows.find (scopedSequenceKey p s)).isSome) ↔
          ∃ s ∈ ids, (service.sequenceWindows.find (scopedSequenceKey p s)).isSome :=
        exists_congr fun s => and_congr_left fun _ => hmem s
      rw [contextQuery_beyond hids hne hle hwm hsize hcap,
        contextQuery_beyond honce hne' hle hwm hsize hcap]
      simp only [hiff]
      refine ⟨SameAnswer.refl _, fun r hr s xs hfind => ?_⟩
      split at hr
      · cases hr
      · rw [← Except.ok.inj hr] at hfind
        cases hfind

end Unread

/-- **A request that repeats ids** is answered like the same request without the
    repetitions, in increasing order, iff the context does not fit a vector, or no point of a
    repeated sequence is selected. -/
theorem repeated_ids_iff (capacity : Nat) {calls : List ServiceCall}
    (hr : ∀ call ∈ calls, InRange call.op) (p : ProjectId) {ids once : List SequenceId}
    (hne : ∀ s ∈ ids, s ≠ "") (hnd : once.Nodup) (hmem : ∀ s, s ∈ once ↔ s ∈ ids)
    {start finish : Timestamp} (hle : start ≤ finish) (preceding following : Nat)
    (bounds : Bool) :
    (SameAnswer
        (queryWindowData capacity p (contextQuery ids start finish preceding following bounds)
          (run callStep {} calls))
        (queryWindowData capacity p (contextQuery once start finish preceding following bounds)
          (run callStep {} calls)) ∧
      IncreasingAnswer
        (queryWindowData capacity p (contextQuery ids start finish preceding following bounds)
          (run callStep {} calls))) ↔
    (((run storedStep emptyStored calls).watermark (effectiveProject p)).isSome →
      preceding ≤ capacity → ∀ s ∈ ids, 2 ≤ ids.count s → ∀ q,
        (run storedStep emptyStored calls).points (scopedSequenceKey p s) q.time = some q →
          ¬ Selects start finish preceding following q) := by
  have h := run_stored hr
  generalize run callStep {} calls = service at h ⊢
  generalize run storedStep emptyStored calls = m at h ⊢
  have hsize : 0 < windowSize p service := h.windowSize_pos p
  by_cases hids : ids = []
  · have honce : once = [] := List.eq_nil_iff_forall_not_mem.mpr fun s hs => by
      rw [hmem, hids] at hs
      cases hs
    subst hids honce
    refine ⟨fun _ _ _ s hs => (by cases hs), fun _ => ⟨SameAnswer.refl _, fun r hr s xs hfind => ?_⟩⟩
    rw [← Except.ok.inj hr] at hfind
    cases hfind
  by_cases hunread : service.watermarks.find (effectiveProject p) = none ∨ capacity < preceding
  · refine iff_of_true (unread_same hids hne hmem hle hsize hunread) fun hw hcap => ?_
    rw [h.watermark] at hw
    rcases hunread with hnone | hbeyond
    · rw [hnone] at hw
      cases hw
    · exact absurd hcap (Nat.not_le.mpr hbeyond)
  obtain ⟨hwm, hcap⟩ := not_or.mp hunread
  have hcap := Nat.not_lt.mp hcap
  obtain ⟨watermark, hwm⟩ := Option.ne_none_iff_exists'.mp hwm
  have honce : once ≠ [] := by
    obtain ⟨s, hs⟩ := List.exists_mem_of_ne_nil ids hids
    exact List.ne_nil_of_mem ((hmem s).mpr hs)
  obtain ⟨r, hr, hoperation, hproject, hdata, hstart, hfinish, hfind⟩ :=
    queryWindowData_entries capacity (contextQuery ids start finish preceding following bounds)
      h.valid hids hne hwm hsize hle hcap
  obtain ⟨r', hr', hoperation', hproject', hdata', hstart', hfinish', hfind'⟩ :=
    queryWindowData_entries capacity (contextQuery once start finish preceding following bounds)
      h.valid honce (fun s hs => hne s ((hmem s).mp hs)) hwm hsize hle hcap
  have hempty : ∀ s, sliceOf start finish preceding following
        (contentOf (scopedSequenceKey p s) service.sequenceWindows) = [] ↔
      ∀ q, m.points (scopedSequenceKey p s) q.time = some q →
        ¬ Selects start finish preceding following q := fun s => by
    rw [sliceOf_eq_nil (h.valid.ascending _) hle]
    refine forall_congr' fun q => imp_congr_left ?_
    rw [h.points, pointAt_eq_some (h.valid.ascending _)]
    exact (and_iff_left rfl).symm
  -- a repeated id collects its slice once more
  have hcollected := @collected_repeated_iff ids once (fun s =>
    sliceOf start finish preceding following
      (contentOf (scopedSequenceKey p s) service.sequenceWindows)) hnd hmem
  rw [hr, hr']
  constructor
  · rintro ⟨hsame, -⟩ - - s hs htwo
    refine (hempty s).mp (hcollected.mp (fun t => ?_) s hs htwo)
    exact (hfind t).symm.trans ((hsame.2.2.2.2.2 t).trans (hfind' t))
  · intro hcondition
    have hrepeated : ∀ s ∈ ids, 2 ≤ ids.count s → sliceOf start finish preceding following
        (contentOf (scopedSequenceKey p s) service.sequenceWindows) = [] := fun s hs htwo =>
      (hempty s).mpr (hcondition (by rw [h.watermark, hwm]; rfl) hcap s hs htwo)
    refine ⟨⟨hoperation.trans ?_, hproject.trans hproject'.symm, hdata.trans hdata'.symm,
      hstart.trans hstart'.symm, hfinish.trans hfinish'.symm, fun s => ?_⟩, ?_⟩
    · exact (congrArg (fun n => okResult n "window query completed")
        (sum_repeated hnd hmem hrepeated)).trans hoperation'.symm
    · exact (hfind s).trans ((hcollected.mpr hrepeated s).trans (hfind' s).symm)
    · intro answer hanswer s xs hxs
      rw [← Except.ok.inj hanswer, hfind] at hxs
      have hxs := (hcollected.mpr hrepeated s).symm.trans hxs
      refine collected_ascending ((h.valid.ascending _).sublist _ (sliceOf_within ..).sublist) ?_ hxs
      exact List.nodup_iff_count_le_one.mp hnd s

/-- A list that repeats an unknown sequence. -/
theorem repeated_ids_iff_unknown :
    (SameAnswer
        (queryWindowData 1 "p" (contextQuery ["s", "t", "t"] 7 9 1 1 false)
          (run callStep {} correctedRun))
        (queryWindowData 1 "p" (contextQuery ["s", "t"] 7 9 1 1 false)
          (run callStep {} correctedRun)) ∧
      IncreasingAnswer
        (queryWindowData 1 "p" (contextQuery ["s", "t", "t"] 7 9 1 1 false)
          (run callStep {} correctedRun))) ↔
    (((run storedStep emptyStored correctedRun).watermark (effectiveProject "p")).isSome →
      1 ≤ 1 → ∀ s ∈ ["s", "t", "t"], 2 ≤ ["s", "t", "t"].count s → ∀ q,
        (run storedStep emptyStored correctedRun).points (scopedSequenceKey "p" s) q.time =
            some q →
          ¬ Selects 7 9 1 1 q) :=
  repeated_ids_iff 1 correctedRun_inRange "p" (by decide) (by decide) (by simp) (by decide) 1 1
    false

/-- A stored sequence requested twice comes back twice, and its count doubled. -/
theorem repeated_id_doubled :
    ¬ (SameAnswer
        (queryWindowData 1 "p" (contextQuery ["s", "s"] 7 9 0 0 false)
          (run callStep {} correctedRun))
        (queryWindowData 1 "p" (contextQuery ["s"] 7 9 0 0 false) (run callStep {} correctedRun)) ∧
      IncreasingAnswer
        (queryWindowData 1 "p" (contextQuery ["s", "s"] 7 9 0 0 false)
          (run callStep {} correctedRun))) := by
  rintro ⟨h, -⟩
  exact absurd (congrArg OperationResult.successCount h.1) (by decide)

end ContextQuery
