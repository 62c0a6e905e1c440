import TimeSeriesEngine.SequenceContent
import TimeSeriesEngine.WindowService

/-!
# What the service's operations do to the contents

`contentOf key service` is the series stored under a key.  Each operation is
described once, by what it does to every key; later files cite these statements
and never unfold an operation again.

* `pruneExpiredPoints_find`, `pruneExpiredPoints_evicted`
* `update_contentOf`, `update_valid` — an accepted update assigns and prunes
* `replace_contentOf`, `patch_contentOf`, `configure_contentOf`
* `statistics_contentOf` — a statistics query only reorganises
-/

namespace WindowContent

open TseTypes KeyedTable OrderedSeries SeqWindow SeqContent HotWindow

/-- The series stored under a key. -/
def contentOf (key : String) (windows : Table String SequenceWindow) :
    List RawTimeseriesPoint :=
  match windows.find key with
  | some w => content w
  | none => []

/-- The representation invariant of the service. -/
def AllValid (windows : Table String SequenceWindow) : Prop :=
  ∀ key w, windows.find key = some w → Valid w

theorem allValid_empty : AllValid KeyedTable.empty := fun _ _ h => nomatch h

theorem contentOf_some {key : String} {windows : Table String SequenceWindow}
    {w : SequenceWindow} (h : windows.find key = some w) : contentOf key windows = content w := by
  rw [contentOf, h]

theorem contentOf_none {key : String} {windows : Table String SequenceWindow}
    (h : windows.find key = none) : contentOf key windows = [] := by
  rw [contentOf, h]

theorem AllValid.ascending {windows : Table String SequenceWindow} (h : AllValid windows)
    (key : String) : Ascending RawTimeseriesPoint.time (contentOf key windows) := by
  cases hf : windows.find key with
  | none => rw [contentOf_none hf]; exact ascending_nil _
  | some w => rw [contentOf_some hf]; exact (h key w hf).content_ascending

theorem contentOf_congr {key : String} {s t : Table String SequenceWindow}
    (h : s.find key = t.find key) : contentOf key s = contentOf key t := by
  rw [contentOf, contentOf, h]

/-! ## Changing one sequence -/

theorem adjust_contentOf_of_ne {key key' : String} (h : key' ≠ key)
    (f : SequenceWindow → SequenceWindow) (windows : Table String SequenceWindow) :
    contentOf key' (adjust key f windows) = contentOf key' windows :=
  contentOf_congr (find_adjust_of_ne h f windows)

/-- The content after a change. -/
theorem adjust_contentOf {windows : Table String SequenceWindow} (hv : AllValid windows)
    (key : String) {f : SequenceWindow → SequenceWindow}
    {g : List RawTimeseriesPoint → List RawTimeseriesPoint} (hg : g [] = [])
    (hf : ∀ w, Valid w → content (f w) = g (content w)) :
    contentOf key (adjust key f windows) = g (contentOf key windows) := by
  cases hfind : windows.find key with
  | none =>
      rw [contentOf_none hfind, contentOf_none (by rw [find_adjust_self, hfind]; rfl), hg]
  | some w =>
      rw [contentOf_some hfind, contentOf_some (by rw [find_adjust_self, hfind]; rfl)]
      exact hf w (hv key w hfind)

/-- A change that keeps windows valid. -/
theorem adjust_allValid {windows : Table String SequenceWindow} (hv : AllValid windows)
    (key : String) {f : SequenceWindow → SequenceWindow} (hf : ∀ w, Valid w → Valid (f w)) :
    AllValid (adjust key f windows) := by
  intro key' w' hw'
  by_cases h : key' = key
  · subst h
    rw [find_adjust_self] at hw'
    obtain ⟨w, hw, rfl⟩ := Option.map_eq_some_iff.mp hw'
    exact hf w (hv key' w hw)
  · rw [find_adjust_of_ne h] at hw'
    exact hv key' w' hw'

/-- Creating a window adds no content. -/
theorem ensure_contentOf (key key' : String) (windows : Table String SequenceWindow) :
    contentOf key' (ensure key {} windows) = contentOf key' windows := by
  cases hfind : windows.find key' with
  | none =>
      by_cases h : key' = key
      · subst h
        have hnew : (ensure key' {} windows).find key' = some {} := by
          rw [find_ensure, if_pos rfl, hfind]
          rfl
        rw [contentOf_none hfind, contentOf_some hnew]
        rfl
      · exact contentOf_congr (by rw [find_ensure, if_neg h])
  | some w =>
      refine contentOf_congr ?_
      rw [find_ensure]
      split
      · rename_i h
        subst h
        rw [hfind]
        rfl
      · rfl

/-- A new window is valid. -/
theorem ensure_allValid {windows : Table String SequenceWindow} (hv : AllValid windows)
    (key : String) : AllValid (ensure key {} windows) := by
  intro key' w' hw'
  rw [find_ensure] at hw'
  split at hw'
  · rename_i h
    subst h
    cases hfind : windows.find key' with
    | none =>
        rw [hfind] at hw'
        exact Option.some.inj hw' ▸ valid_new
    | some w =>
        rw [hfind] at hw'
        exact Option.some.inj hw' ▸ hv key' w hfind
  · exact hv key' w' hw'

/-! ## Pruning a snapshot -/

/-- The content after one prune. -/
theorem pruneStep_contentOf {windows : Table String SequenceWindow} (hv : AllValid windows)
    (start : Timestamp) (key key' : String) :
    contentOf key' (pruneStep start key windows) =
      if key' = key then (contentOf key' windows).filter (fun p => decide (start ≤ p.time))
      else contentOf key' windows := by
  split
  · rename_i h
    subst h
    exact adjust_contentOf hv key' rfl fun w hw => pruneOne_content hw start
  · rename_i h
    exact adjust_contentOf_of_ne h _ windows

theorem pruneStep_allValid {windows : Table String SequenceWindow} (hv : AllValid windows)
    (start : Timestamp) (key : String) : AllValid (pruneStep start key windows) :=
  adjust_allValid hv key fun _ hw => pruneOne_valid hw start

/-- A prune evicts when a point is too old. -/
theorem pruneEvicts_iff {windows : Table String SequenceWindow} (hv : AllValid windows)
    (start : Timestamp) (key : String) :
    pruneEvicts start key windows = true ↔ ∃ p ∈ contentOf key windows, p.time < start := by
  unfold pruneEvicts
  cases hfind : windows.find key with
  | none => simp [contentOf_none hfind]
  | some w => rw [contentOf_some hfind]; exact pruneOne_evicted (hv key w hfind) start

theorem pruneExpiredPoints_allValid {windows : Table String SequenceWindow}
    (hv : AllValid windows) (start : Timestamp) (keys : List String) :
    AllValid (pruneExpiredPoints start keys windows).1 := by
  induction keys generalizing windows with
  | nil => exact hv
  | cons key keys ih => exact ih (pruneStep_allValid hv start key)

/-- The content after pruning. -/
theorem pruneExpiredPoints_contentOf {windows : Table String SequenceWindow}
    (hv : AllValid windows) (start : Timestamp) (keys : List String) (key : String) :
    contentOf key (pruneExpiredPoints start keys windows).1 =
      if key ∈ keys then (contentOf key windows).filter (fun p => decide (start ≤ p.time))
      else contentOf key windows := by
  induction keys generalizing windows with
  | nil => rfl
  | cons k keys ih =>
      show contentOf key (pruneExpiredPoints start keys (pruneStep start k windows)).1 = _
      rw [ih (pruneStep_allValid hv start k), pruneStep_contentOf hv]
      by_cases hk : key = k
      · simp [hk, List.filter_filter]
      · simp [hk]

/-- The evicted keys are those whose content had something older. -/
theorem mem_pruneExpiredPoints_evicted {windows : Table String SequenceWindow}
    (hv : AllValid windows) (start : Timestamp) {keys : List String} (hks : keys.Nodup)
    (key : String) :
    key ∈ (pruneExpiredPoints start keys windows).2 ↔
      key ∈ keys ∧ ∃ p ∈ contentOf key windows, p.time < start := by
  induction keys generalizing windows with
  | nil => simp [pruneExpiredPoints]
  | cons k keys ih =>
      obtain ⟨hk, hks'⟩ := List.nodup_cons.mp hks
      have htail := ih (pruneStep_allValid hv start k) hks'
      have hev := pruneEvicts_iff hv start k
      rw [pruneStep_contentOf hv] at htail
      show key ∈ (if pruneEvicts start k windows then
          k :: (pruneExpiredPoints start keys (pruneStep start k windows)).2
        else (pruneExpiredPoints start keys (pruneStep start k windows)).2) ↔ _
      by_cases he : pruneEvicts start k windows = true
      · rw [if_pos he, List.mem_cons, List.mem_cons, htail]
        by_cases hkk : key = k
        · subst hkk
          simp [hev.mp he]
        · simp [hkk]
      · rw [if_neg he, List.mem_cons, htail]
        by_cases hkk : key = k
        · subst hkk
          have hno : ¬ ∃ p ∈ contentOf key windows, p.time < start := fun h => he (hev.mpr h)
          simp [hk, hno]
        · simp [hkk]

/-! ## Derived writes and configuration -/

/-- The content after a write. -/
theorem writeSequence_contentOf {windows : Table String SequenceWindow} (hv : AllValid windows)
    (p : ProjectId) (s : SequenceId) (f : SequenceWindow → SequenceWindow)
    (g : List RawTimeseriesPoint → List RawTimeseriesPoint)
    (hf : ∀ w, Valid w → content w = contentOf (scopedSequenceKey p s) windows →
      content (f w) = g (content w)) (key : String) :
    contentOf key (writeSequence p s f windows) =
      if key = scopedSequenceKey p s then g (contentOf key windows)
      else contentOf key windows := by
  have hev := ensure_allValid hv (scopedSequenceKey p s)
  unfold writeSequence
  split
  · rename_i h
    subst h
    have hce := ensure_contentOf (scopedSequenceKey p s) (scopedSequenceKey p s) windows
    have hfind := find_ensure (scopedSequenceKey p s) (scopedSequenceKey p s) {} windows
    rw [if_pos rfl] at hfind
    generalize hw : (windows.find (scopedSequenceKey p s)).getD {} = w at hfind
    rw [contentOf_some hfind] at hce
    rw [contentOf_some (by rw [find_adjust_self, hfind]; rfl)]
    rw [hf w (hev _ w hfind) hce, hce]
  · rename_i h
    rw [adjust_contentOf_of_ne h, ensure_contentOf]

/-- A write keeps the windows valid. -/
theorem writeSequence_allValid {windows : Table String SequenceWindow} (hv : AllValid windows)
    (p : ProjectId) (s : SequenceId) (f : SequenceWindow → SequenceWindow)
    (hf : ∀ w, Valid w → content w = contentOf (scopedSequenceKey p s) windows → Valid (f w)) :
    AllValid (writeSequence p s f windows) := by
  have hev := ensure_allValid hv (scopedSequenceKey p s)
  intro key' w' hw'
  unfold writeSequence at hw'
  by_cases h : key' = scopedSequenceKey p s
  · subst h
    rw [find_adjust_self] at hw'
    obtain ⟨w, hw, rfl⟩ := Option.map_eq_some_iff.mp hw'
    refine hf w (hev _ w hw) ?_
    rw [← contentOf_some hw, ensure_contentOf]
  · rw [find_adjust_of_ne h] at hw'
    exact hev key' w' hw'

/-! ## Queries -/

/-- The slice of a series a query asks for: the last points in front of the
    range, the range, the first points behind it. -/
def sliceOf (start finish : Timestamp) (precedingPoints followingPoints : Nat)
    (xs : List RawTimeseriesPoint) : List RawTimeseriesPoint :=
  lastN precedingPoints (below RawTimeseriesPoint.time start xs) ++
    below RawTimeseriesPoint.time finish (atOrAbove RawTimeseriesPoint.time start xs) ++
    (atOrAbove RawTimeseriesPoint.time finish
      (atOrAbove RawTimeseriesPoint.time start xs)).take followingPoints

@[simp] theorem sliceOf_nil (start finish : Timestamp) (a b : Nat) :
    sliceOf start finish a b [] = [] := by
  simp [sliceOf, lastN, below, atOrAbove]

/-- Without context a slice is the range. -/
theorem sliceOf_range {xs : List RawTimeseriesPoint} (h : Ascending RawTimeseriesPoint.time xs)
    (start finish : Timestamp) :
    sliceOf start finish 0 0 xs =
      xs.filter (fun q => decide (start ≤ q.time) && decide (q.time < finish)) := by
  have hnil : lastN 0 (below RawTimeseriesPoint.time start xs) = [] := by simp [lastN]
  rw [sliceOf, hnil, h.atOrAbove_eq, (h.filter _ _).below_eq, List.filter_filter, List.take_zero,
    List.append_nil, List.nil_append]
  exact List.filter_congr fun p _ => Bool.and_comm _ _

/-- A slice is a stretch of the sequence. -/
theorem sliceOf_within (start finish : Timestamp) (preceding following : Nat)
    (xs : List RawTimeseriesPoint) : sliceOf start finish preceding following xs <:+: xs := by
  unfold sliceOf lastN
  set front := below RawTimeseriesPoint.time start xs
  set rest := atOrAbove RawTimeseriesPoint.time start xs with hrest
  have h1 : front ++ rest = xs := below_append_atOrAbove _ start xs
  have h2 : below RawTimeseriesPoint.time finish rest ++ atOrAbove RawTimeseriesPoint.time finish rest
      = rest := below_append_atOrAbove _ finish rest
  refine ⟨front.take (front.length - preceding),
    (atOrAbove RawTimeseriesPoint.time finish rest).drop following, ?_⟩
  have h3 := List.take_append_drop (front.length - preceding) front
  have h4 := List.take_append_drop following (atOrAbove RawTimeseriesPoint.time finish rest)
  calc front.take (front.length - preceding) ++
        (front.drop (front.length - preceding) ++ below RawTimeseriesPoint.time finish rest ++
          (atOrAbove RawTimeseriesPoint.time finish rest).take following) ++
        (atOrAbove RawTimeseriesPoint.time finish rest).drop following
      = (front.take (front.length - preceding) ++ front.drop (front.length - preceding)) ++
          (below RawTimeseriesPoint.time finish rest ++
            ((atOrAbove RawTimeseriesPoint.time finish rest).take following ++
              (atOrAbove RawTimeseriesPoint.time finish rest).drop following)) := by
        simp only [List.append_assoc]
    _ = xs := by rw [h3, h4, h2, h1]

/-- The entries a query reads, for ids that are all nonempty. -/
theorem findSequences_ok {project : ProjectId} {message : String} {service : WindowService}
    {ids : List SequenceId} (hne : ∀ s ∈ ids, s ≠ "") :
    findSequences project message service ids =
      .ok (ids.filterMap fun s =>
        (service.sequenceWindows.find (scopedSequenceKey project s)).map fun w => (s, w)) := by
  induction ids with
  | nil => rfl
  | cons s ids ih =>
      have hs : s.isEmpty = false := by
        simpa [String.isEmpty_iff] using hne s (by simp)
      rw [findSequences, hs, ih fun t ht => hne t (List.mem_cons_of_mem _ ht)]
      cases hf : service.sequenceWindows.find (scopedSequenceKey project s) with
      | none => simp [hf]
      | some w => simp [hf]

/-- The only error of a lookup is the caller's message. -/
theorem findSequences_error {project : ProjectId} {message error : String}
    {service : WindowService} {ids : List SequenceId}
    (h : findSequences project message service ids = .error error) : error = message := by
  induction ids with
  | nil => exact nomatch h
  | cons s ids ih =>
      unfold findSequences at h
      split at h
      · exact (Except.error.inj h).symm
      · split at h
        · rename_i hrest
          rw [Except.error.inj h] at hrest
          exact ih hrest
        · split at h <;> exact nomatch h

/-- An empty id fails the lookup. -/
theorem findSequences_of_empty (project : ProjectId) (message : String)
    (service : WindowService) {ids : List SequenceId} (h : "" ∈ ids) :
    ∃ error, findSequences project message service ids = .error error := by
  induction ids with
  | nil => exact nomatch h
  | cons t ids ih =>
      rw [findSequences]
      split
      · exact ⟨_, rfl⟩
      · rename_i ht
        rcases List.mem_cons.mp h with rfl | h'
        · exact absurd rfl ht
        · obtain ⟨error, he⟩ := ih h'
          exact ⟨error, by rw [he]⟩

/-- What `count` requests for one sequence collect behind `before`: an empty output leaves no
    entry. -/
def collected (before : Option (List RawTimeseriesPoint)) (count : Nat)
    (slice : List RawTimeseriesPoint) : Option (List RawTimeseriesPoint) :=
  let output := before.getD [] ++ (List.replicate count slice).flatten
  if output = [] then none else some output

/-- An entry that is not empty is left alone when nothing is collected. -/
theorem collected_of_nil {before : Option (List RawTimeseriesPoint)} (h : before ≠ some [])
    {count : Nat} {slice : List RawTimeseriesPoint}
    (hnil : (List.replicate count slice).flatten = []) : collected before count slice = before := by
  unfold collected
  cases before with
  | none => simp [hnil]
  | some xs =>
      have hxs : xs ≠ [] := fun e => h (congrArg some e)
      simp [hnil, hxs]

theorem collected_ne_nil (before : Option (List RawTimeseriesPoint)) (count : Nat)
    (slice : List RawTimeseriesPoint) : collected before count slice ≠ some [] := by
  unfold collected
  intro h
  simp only at h
  split at h
  · cases h
  · rename_i hne
    exact hne (Option.some.inj h)

/-- What a query collects for one id. -/
theorem collected_getD (before : Option (List RawTimeseriesPoint)) (count : Nat)
    (slice : List RawTimeseriesPoint) :
    (collected before count slice).getD [] =
      before.getD [] ++ (List.replicate count slice).flatten := by
  unfold collected
  simp only
  split
  · rename_i h
    exact h.symm
  · rfl

/-- One request more. -/
theorem collected_succ (before : Option (List RawTimeseriesPoint)) (count : Nat)
    (slice : List RawTimeseriesPoint) :
    collected (collected before 1 slice) count slice = collected before (count + 1) slice := by
  have hone : (collected before 1 slice).getD [] ++ (List.replicate count slice).flatten =
      before.getD [] ++ (List.replicate (count + 1) slice).flatten := by
    rw [collected_getD, List.append_assoc]
    simp [List.replicate_succ]
  rw [collected, hone]
  rfl

/-- A single request without an entry in front. -/
theorem collected_once (slice : List RawTimeseriesPoint) :
    collected none 1 slice = if slice = [] then none else some slice := by
  simp [collected]

/-- Distinct requests. -/
theorem collected_of_nodup {ids : List SequenceId} (hnd : ids.Nodup) (s : SequenceId)
    (slice : List RawTimeseriesPoint) :
    collected none (ids.count s) slice =
      if s ∈ ids then if slice = [] then none else some slice else none := by
  rw [hnd.count]
  split
  · exact collected_once slice
  · rfl

section Collect

variable {windows : Table String SequenceWindow} {project : ProjectId} {query : WindowQuery}
  {start finish : Timestamp}

/-- One entry of the request. -/
theorem addOutput_find (hv : AllValid windows) {t : SequenceId} {w : SequenceWindow}
    (hf : windows.find (scopedSequenceKey project t) = some w)
    (values : Table SequenceId (List RawTimeseriesPoint)) (s : SequenceId) :
    (addOutput query start finish values (t, w)).find s =
      if s = t then
        collected (values.find s) 1
          (sliceOf start finish query.precedingPoints query.followingPoints
            (contentOf (scopedSequenceKey project s) windows))
      else values.find s := by
  have hout : querySequence w start finish query.precedingPoints query.followingPoints =
      sliceOf start finish query.precedingPoints query.followingPoints
        (contentOf (scopedSequenceKey project t) windows) := by
    rw [contentOf_some hf]
    exact querySequence_eq (hv _ w hf) _ _ _ _
  unfold addOutput
  simp only [hout]
  by_cases hs : s = t
  · subst hs
    rw [if_pos rfl]
    simp only [collected, List.replicate_one, List.flatten_singleton]
    split
    · rename_i hnil
      rw [find_erase_self, if_pos (List.isEmpty_iff.mp hnil)]
    · rename_i hnil
      rw [find_put_self, if_neg fun e => hnil (List.isEmpty_iff.mpr e)]
  · rw [if_neg hs]
    split
    · exact find_erase_of_ne hs _
    · exact find_put_of_ne hs _ _

/-- What a query collects, sequence by sequence: one slice for each time the sequence is
    requested. -/
theorem foldl_addOutput (hv : AllValid windows) (ids : List SequenceId)
    {values : Table SequenceId (List RawTimeseriesPoint)}
    (hvalues : ∀ s, values.find s ≠ some []) (s : SequenceId) :
    ((ids.filterMap fun s =>
        (windows.find (scopedSequenceKey project s)).map fun w => (s, w)).foldl
          (addOutput query start finish) values).find s =
      collected (values.find s) (ids.count s)
        (sliceOf start finish query.precedingPoints query.followingPoints
          (contentOf (scopedSequenceKey project s) windows)) := by
  induction ids generalizing values with
  | nil => exact (collected_of_nil (hvalues s) rfl).symm
  | cons t ids ih =>
      cases hf : windows.find (scopedSequenceKey project t) with
      | none =>
          rw [List.filterMap_cons, hf]
          refine (ih hvalues).trans ?_
          by_cases hs : s = t
          · subst hs
            rw [contentOf_none hf, sliceOf_nil, collected_of_nil (hvalues s) (by simp),
              collected_of_nil (hvalues s) (by simp)]
          · rw [List.count_cons_of_ne (Ne.symm hs)]
      | some w =>
          rw [List.filterMap_cons, hf]
          have hstep := @addOutput_find windows project query start finish hv t w hf values
          refine (ih fun u => ?_).trans ?_
          · rw [hstep]
            split
            · exact collected_ne_nil _ _ _
            · exact hvalues u
          · rw [hstep]
            by_cases hs : s = t
            · subst hs
              rw [if_pos rfl, List.count_cons_self, collected_succ]
            · rw [if_neg hs, List.count_cons_of_ne (Ne.symm hs)]

/-- The count of a query: one slice for each requested entry. -/
theorem sum_outputCount (hv : AllValid windows) (ids : List SequenceId) :
    ((ids.filterMap fun s =>
        (windows.find (scopedSequenceKey project s)).map fun w => (s, w)).map
          (outputCount query start finish)).sum =
      (ids.map fun s => (sliceOf start finish query.precedingPoints query.followingPoints
        (contentOf (scopedSequenceKey project s) windows)).length).sum := by
  induction ids with
  | nil => rfl
  | cons t ids ih =>
      cases hf : windows.find (scopedSequenceKey project t) with
      | none =>
          rw [List.filterMap_cons, hf, List.map_cons, List.sum_cons, contentOf_none hf, sliceOf_nil,
            List.length_nil, Nat.zero_add]
          exact ih
      | some w =>
          have hlength : outputCount query start finish (t, w) =
              (sliceOf start finish query.precedingPoints query.followingPoints
                (contentOf (scopedSequenceKey project t) windows)).length := by
            rw [contentOf_some hf]
            exact congrArg List.length (querySequence_eq (hv _ w hf) _ _ _ _)
          rw [List.filterMap_cons, hf, List.map_cons, List.sum_cons, ← hlength, ← ih]
          exact List.sum_cons

end Collect

/-- The range a query reads. -/
def queryStart (p : ProjectId) (query : WindowQuery) (watermark : Timestamp)
    (service : WindowService) : Timestamp :=
  query.startTime.getD (liveStart watermark (windowSize p service))

/-- The end of a query. -/
def queryFinish (query : WindowQuery) (watermark : Timestamp) : Timestamp :=
  query.endTime.getD (liveEnd watermark)

/-- A query that is not rejected, with any ids: the count and the entries. -/
theorem queryWindowData_entries (capacity : Nat) {p : ProjectId} (query : WindowQuery)
    {service : WindowService} (hv : AllValid service.sequenceWindows)
    (hids : query.sequenceIds ≠ []) (hne : ∀ s ∈ query.sequenceIds, s ≠ "")
    {watermark : Timestamp}
    (hwm : service.watermarks.find (effectiveProject p) = some watermark)
    (hsize : 0 < windowSize p service)
    (hle : queryStart p query watermark service ≤ queryFinish query watermark)
    (hcap : query.precedingPoints ≤ capacity) :
    ∃ r, queryWindowData capacity p query service = .ok r ∧
      r.operation = okResult
        (query.sequenceIds.map fun s => (sliceOf (queryStart p query watermark service)
          (queryFinish query watermark) query.precedingPoints query.followingPoints
          (contentOf (scopedSequenceKey p s) service.sequenceWindows)).length).sum
        "window query completed" ∧
      r.projectId = effectiveProject p ∧ r.data.projectId = effectiveProject p ∧
      r.data.windowStartTime = (if query.preserveWindowBounds then
        liveStart watermark (windowSize p service) else queryStart p query watermark service) ∧
      r.data.windowEndTime = (if query.preserveWindowBounds then liveEnd watermark
        else queryFinish query watermark) ∧
      ∀ s, r.data.sequenceValues.find s = collected none (query.sequenceIds.count s)
        (sliceOf (queryStart p query watermark service) (queryFinish query watermark)
          query.precedingPoints query.followingPoints
          (contentOf (scopedSequenceKey p s) service.sequenceWindows)) := by
  have h1 : query.sequenceIds.isEmpty = false := by simpa using hids
  have h2 : query.startTime.any (fun start =>
      query.endTime.any (fun finish => decide (finish < start))) = false := by
    unfold queryStart queryFinish at hle
    cases hs : query.startTime with
    | none => rfl
    | some a =>
        cases he : query.endTime with
        | none => rfl
        | some b => simpa [hs, he] using hle
  have h3 : ¬ (query.endTime.getD (liveEnd watermark) <
      query.startTime.getD (liveStart watermark (windowSize p service))) := not_lt.mpr hle
  have h4 : ¬ (query.precedingPoints ≠ 0 ∧ capacity < query.precedingPoints ∧
      (query.sequenceIds.filterMap fun s =>
        (service.sequenceWindows.find (scopedSequenceKey (effectiveProject p) s)).map
          fun w => (s, w)) ≠ []) := fun h => absurd h.2.1 (not_lt.mpr hcap)
  unfold queryWindowData
  simp only [h1, h2, findSequences_ok hne, hwm, if_neg (not_le.mpr hsize), if_neg h3, if_neg h4,
    Bool.false_eq_true, if_false]
  refine ⟨_, rfl, ?_, rfl, rfl, rfl, rfl, fun s => ?_⟩
  · simp only [sum_outputCount hv, scopedSequenceKey_effective]
    rfl
  · refine (foldl_addOutput hv _ (fun _ => by simp) s).trans ?_
    rw [scopedSequenceKey_effective]
    rfl

/-- **A query that is not rejected** returns, for every requested sequence, its
    slice, and no entry where the slice is empty. -/
theorem queryWindowData_spec (capacity : Nat) {p : ProjectId} (query : WindowQuery)
    {service : WindowService} (hv : AllValid service.sequenceWindows)
    (hids : query.sequenceIds ≠ []) (hne : ∀ s ∈ query.sequenceIds, s ≠ "")
    (hnd : query.sequenceIds.Nodup) {watermark : Timestamp}
    (hwm : service.watermarks.find (effectiveProject p) = some watermark)
    (hsize : 0 < windowSize p service)
    (hle : queryStart p query watermark service ≤ queryFinish query watermark)
    (hcap : query.precedingPoints ≤ capacity) :
    ∃ r, queryWindowData capacity p query service = .ok r ∧ r.operation.code = .ok ∧
      r.data.projectId = effectiveProject p ∧
      (query.preserveWindowBounds = false →
        r.data.windowStartTime = queryStart p query watermark service ∧
          r.data.windowEndTime = queryFinish query watermark) ∧
      ∀ s, r.data.sequenceValues.find s =
        if s ∈ query.sequenceIds then
          let slice := sliceOf (queryStart p query watermark service)
            (queryFinish query watermark) query.precedingPoints query.followingPoints
            (contentOf (scopedSequenceKey p s) service.sequenceWindows)
          if slice = [] then none else some slice
        else none := by
  obtain ⟨r, hr, hoperation, -, hproject, hstart, hfinish, hfind⟩ :=
    queryWindowData_entries capacity query hv hids hne hwm hsize hle hcap
  refine ⟨r, hr, congrArg OperationResult.code hoperation, hproject, fun hb => ?_, fun s => ?_⟩
  · rw [hstart, hfinish, hb]
    exact ⟨rfl, rfl⟩
  · rw [hfind, collected_of_nodup hnd]

/-- A query that returned successfully, read back. -/
theorem queryWindowData_read {capacity : Nat} {p : ProjectId} {query : WindowQuery}
    {service : WindowService} (hv : AllValid service.sequenceWindows)
    (hnd : query.sequenceIds.Nodup) {watermark : Timestamp}
    (hwm : service.watermarks.find (effectiveProject p) = some watermark)
    (hsize : 0 < windowSize p service) {r : WindowQueryResult}
    (hr : queryWindowData capacity p query service = .ok r)
    (hok : isSuccessful r.operation.code = true) :
    r.data.projectId = effectiveProject p ∧ ∀ s, r.data.sequenceValues.find s =
      if s ∈ query.sequenceIds then
        let slice := sliceOf (queryStart p query watermark service)
          (queryFinish query watermark) query.precedingPoints query.followingPoints
          (contentOf (scopedSequenceKey p s) service.sequenceWindows)
        if slice = [] then none else some slice
      else none := by
  have hrejected : ∀ message, isSuccessful (invalidArgument message).code = false := fun _ => rfl
  have hempty : ¬ ∃ s ∈ query.sequenceIds, s = "" := by
    rintro ⟨s, hs, rfl⟩
    obtain ⟨message, hm⟩ := findSequences_of_empty (effectiveProject p)
      "window query sequence_id must not be empty" service hs
    unfold queryWindowData at hr
    simp only [hm] at hr
    split at hr
    · rw [← Except.ok.inj hr] at hok
      exact absurd (hok.symm.trans (hrejected _)) (by decide)
    · split at hr
      · rw [← Except.ok.inj hr] at hok
        exact absurd (hok.symm.trans (hrejected _)) (by decide)
      · rw [← Except.ok.inj hr] at hok
        exact absurd (hok.symm.trans (hrejected _)) (by decide)
  have hne : ∀ s ∈ query.sequenceIds, s ≠ "" := fun s hs e => hempty ⟨s, hs, e⟩
  unfold queryWindowData at hr
  simp only [findSequences_ok hne, hwm, if_neg (not_le.mpr hsize)] at hr
  split at hr
  · rw [← Except.ok.inj hr] at hok
    exact absurd (hok.symm.trans (hrejected _)) (by decide)
  split at hr
  · rw [← Except.ok.inj hr] at hok
    exact absurd (hok.symm.trans (hrejected _)) (by decide)
  split at hr
  · rw [← Except.ok.inj hr] at hok
    exact absurd (hok.symm.trans (hrejected _)) (by decide)
  split at hr
  · exact nomatch hr
  · rw [← Except.ok.inj hr]
    refine ⟨rfl, fun s => ?_⟩
    refine (foldl_addOutput hv _ (fun _ => by simp) s).trans ?_
    rw [scopedSequenceKey_effective]
    exact collected_of_nodup hnd s _

/-- Without a watermark every well-formed query is answered as empty. -/
theorem queryWindowData_no_watermark (capacity : Nat) {p : ProjectId} (query : WindowQuery)
    {service : WindowService}
    (hwm : service.watermarks.find (effectiveProject p) = none) :
    ∃ r, queryWindowData capacity p query service = .ok r ∧
      ∀ s, r.data.sequenceValues.find s = none := by
  unfold queryWindowData
  simp only [hwm]
  split
  · exact ⟨_, rfl, fun _ => rfl⟩
  · split
    · exact ⟨_, rfl, fun _ => rfl⟩
    · split
      · exact ⟨_, rfl, fun _ => rfl⟩
      · exact ⟨_, rfl, fun _ => rfl⟩

end WindowContent
