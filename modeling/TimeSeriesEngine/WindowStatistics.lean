import TimeSeriesEngine.SequenceStatistics
import TimeSeriesEngine.UpdateRange
import TimeSeriesEngine.WindowRuns

/-!
# What a statistics query reports

The cached statistics of a window are those of its content whenever a query
reads them (`read_statistics`), after every run of the service.  So
`queryWindowStatistics` recomputes nothing and still reports, for each requested
sequence, the summary of the numbers retained at that moment.

A project without a watermark is answered as empty, although derived writes can
be retained before the first update.
-/

namespace WindowStatistics

open TseTypes KeyedTable OrderedSeries SeqWindow SeqContent SeqStatistics MonotoneDeque HotWindow
open WindowContent WindowUpdate WindowRefinement WindowRuns UpdateRange Transition

/-! ## Summaries -/

/-- The numbers among the points. -/
def numbers (points : List RawTimeseriesPoint) : List ℚ :=
  points.filterMap fun q => numericValue q.value

/-- Count, average, minimum and maximum of a list of numbers. -/
structure Summarises (values : List ℚ) (s : SequenceWindowStatistics) : Prop where
  count : s.count = values.length
  average : s.average = values.sum / values.length
  minimum : s.minimum ∈ values ∧ ∀ v ∈ values, s.minimum ≤ v
  maximum : s.maximum ∈ values ∧ ∀ v ∈ values, v ≤ s.maximum

/-- A list has one summary. -/
theorem Summarises.unique {values : List ℚ} {s t : SequenceWindowStatistics}
    (hs : Summarises values s) (ht : Summarises values t) : s = t := by
  have hmin : s.minimum = t.minimum :=
    le_antisymm (hs.minimum.2 _ ht.minimum.1) (ht.minimum.2 _ hs.minimum.1)
  have hmax : s.maximum = t.maximum :=
    le_antisymm (ht.maximum.2 _ hs.maximum.1) (hs.maximum.2 _ ht.maximum.1)
  cases s
  cases t
  simp only [SequenceWindowStatistics.mk.injEq]
  exact ⟨hs.count.trans ht.count.symm, hs.average.trans ht.average.symm, hmax, hmin⟩

theorem map_numericEntries (points : List RawTimeseriesPoint) :
    (numericEntries points).map Prod.snd = numbers points := by
  rw [numericEntries, numbers, List.map_filterMap]
  congr 1
  funext p
  cases numericValue p.value <;> rfl

/-- A cache that describes points with a number holds their summary. -/
theorem summary_of_statistics {points : List RawTimeseriesPoint} {w : SequenceWindow}
    (h : StatisticsOf points w) (hne : numbers points ≠ []) :
    ∃ minimum minimums maximum maximums, w.statisticsMinimum = minimum :: minimums ∧
      w.statisticsMaximum = maximum :: maximums ∧
      Summarises (numbers points)
        { count := w.statisticsCount
          average := w.statisticsSum / w.statisticsCount
          maximum := maximum.2
          minimum := minimum.2 } := by
  have hmap := map_numericEntries points
  have hentries : numericEntries points ≠ [] := by
    intro hnil
    rw [hnil] at hmap
    exact hne hmap.symm
  have hlen : (numericEntries points).length = (numbers points).length := by
    rw [← hmap, List.length_map]
  have hvalue : ∀ v, v ∈ numbers points ↔ ∃ e ∈ numericEntries points, e.2 = v := by
    intro v
    rw [← hmap, List.mem_map]
  obtain ⟨low, lows, hlow, hlowmem, hlowle⟩ :=
    survivors_head (fun x y : ℚ => x ≤ y) hentries
  obtain ⟨high, highs, hhigh, hhighmem, hhighle⟩ :=
    survivors_head (fun x y : ℚ => x ≥ y) hentries
  refine ⟨low, lows, high, highs, h.minimum.trans hlow, h.maximum.trans hhigh,
    h.count.trans hlen, ?_, ⟨(hvalue _).mpr ⟨low, hlowmem, rfl⟩, fun v hv => ?_⟩,
    ⟨(hvalue _).mpr ⟨high, hhighmem, rfl⟩, fun v hv => ?_⟩⟩
  · show w.statisticsSum / w.statisticsCount = _
    rw [h.sum, h.count, hmap, hlen]
  · obtain ⟨e, he, rfl⟩ := (hvalue v).mp hv
    exact hlowle e he
  · obtain ⟨e, he, rfl⟩ := (hvalue v).mp hv
    exact hhighle e he

/-! ## What every run keeps -/

/-- The representation and the cache of a window are in order. -/
def Sound (w : SequenceWindow) : Prop := Valid w ∧ Exact w

/-- Sound statistics are kept by every operation. -/
theorem kept_sound : Kept Sound where
  new := ⟨valid_new, exact_new⟩
  update := fun _ prepared hi h =>
    ⟨updateSequence_valid h.1 hi, updateSequence_exact h.1 h.2 prepared⟩
  prune := fun _ start h => ⟨pruneOne_valid h.1 start, pruneOne_exact h.1 h.2 start⟩
  replace := fun w data _ => ⟨replaceSequence_valid w data, replaceSequence_exact w data⟩
  patch := fun w startTime endTime data hle h =>
    ⟨patchSequence_valid h.1 hle data, patchSequence_exact w startTime endTime data⟩
  rebuild := fun _ h => ⟨rebuildStatistics_valid h.1, rebuildStatistics_exact h.1⟩

/-- The cache a statistics query reads describes the content. -/
theorem read_statistics {w : SequenceWindow} (h : Sound w) :
    StatisticsOf (content w) (if w.statisticsValid then w else rebuildStatistics w) := by
  by_cases hvalid : w.statisticsValid = true
  · obtain ⟨hlate, hstat⟩ := h.2 hvalid
    have hcontent : content w = active w := by
      rw [content, hlate, assignAll_nil]
    rw [if_pos hvalid, hcontent]
    exact hstat
  · rw [if_neg hvalid]
    exact (rebuildStatistics_spec h.1).2.2

/-- An operation leaves the configured sizes alone or sets one of them. -/
theorem call_windowSizes (service : WindowService) (call : ServiceCall) :
    (callStep service call).windowSizes = service.windowSizes ∨
      ∃ project size, 0 < size ∧
        (callStep service call).windowSizes = put project size service.windowSizes := by
  obtain ⟨p, op⟩ := call
  cases op with
  | configure size =>
      show (configureWindowSize p size service).1.windowSizes = _ ∨ ∃ project chosen, 0 < chosen ∧
        (configureWindowSize p size service).1.windowSizes = _
      unfold configureWindowSize
      by_cases hs : size ≤ 0
      · rw [if_pos hs]
        exact Or.inl rfl
      · rw [if_neg hs]
        exact Or.inr ⟨_, size, not_le.mp hs, rfl⟩
  | update data override =>
      show (updateWindowIncremental p data override service).1.windowSizes = _ ∨
        ∃ project chosen, 0 < chosen ∧
          (updateWindowIncremental p data override service).1.windowSizes = _
      rcases readBatch_cases p data override with ⟨hacc, _⟩ | ⟨hrej, _⟩
      · rw [update_windowSizes hacc]
        cases override with
        | none => exact Or.inl rfl
        | some size => exact Or.inr ⟨_, size, hacc.size size rfl, rfl⟩
      · rw [(update_rejected hrej service).1]
        exact Or.inl rfl
  | replace s data =>
      refine Or.inl ?_
      show (replaceDerivedSequence p s data service).1.windowSizes = _
      unfold replaceDerivedSequence
      cases validateReplace p s data with
      | some error => rfl
      | none => rfl
  | patch s startTime endTime data =>
      refine Or.inl ?_
      show (patchDerivedSequence p s startTime endTime data service).1.windowSizes = _
      unfold patchDerivedSequence
      cases validatePatch p s startTime endTime data with
      | some error => rfl
      | none => rfl
  | query query => exact Or.inl rfl
  | statistics ids =>
      refine Or.inl ?_
      show (queryWindowStatistics p ids service).1.windowSizes = _
      rcases queryWindowStatistics_service p ids service with hsame | hread
      · rw [hsame]
      · rw [hread]

/-- Window sizes are only ever set to positive values. -/
theorem windowSize_pos (calls : List ServiceCall) (p : ProjectId) :
    0 < windowSize p (run callStep {} calls) := by
  have hstep : ∀ (service : WindowService) (call : ServiceCall), True →
      (∀ project size, service.windowSizes.find project = some size → 0 < size) →
        ∀ project size, (callStep service call).windowSizes.find project = some size →
          0 < size := by
    intro service call _ h project size hfind
    rcases call_windowSizes service call with hsame | ⟨other, chosen, hpos, hput⟩
    · exact h project size (hsame ▸ hfind)
    · rw [hput, find_put] at hfind
      split at hfind
      · exact Option.some.inj hfind ▸ hpos
      · exact h project size hfind
  have hrun := @run_invariant _ _ callStep
    (fun service => ∀ project size, service.windowSizes.find project = some size → 0 < size) _
    hstep {} (fun _ _ hfind => by cases hfind) calls fun _ _ => trivial
  unfold windowSize
  cases hfind : (run callStep {} calls).windowSizes.find (effectiveProject p) with
  | none => exact (by decide : (0 : Int) < kDefaultWindowSizeMs)
  | some size => exact hrun _ _ hfind

/-! ## The statistics loop -/

/-- Every point is a finite number. -/
def AllNumbers (points : List RawTimeseriesPoint) : Prop :=
  ∀ q ∈ points, (numericValue q.value).isSome = true

/-- No numbers, no points. -/
theorem numbers_eq_nil {points : List RawTimeseriesPoint} (h : AllNumbers points) :
    numbers points = [] ↔ points = [] := by
  constructor
  · intro hnil
    cases points with
    | nil => rfl
    | cons p ps =>
        have hp := List.filterMap_eq_nil_iff.mp hnil p List.mem_cons_self
        have hsome := h p List.mem_cons_self
        rw [hp] at hsome
        cases hsome
  · rintro rfl
    rfl

/-- The message of a rejected statistics query. -/
def nonNumericMessage (s : SequenceId) : String :=
  "window aggregate constraint values must be finite numeric values for sequence: " ++ s

variable {windows : Table String SequenceWindow}

/-- The windows after one turn of the loop. -/
theorem readTurn_windows (h : EachWindow Sound windows) {key : String} {w : SequenceWindow}
    (hw : windows.find key = some w) :
    EachWindow Sound
        (adjust key (fun _ => if w.statisticsValid then w else rebuildStatistics w) windows) ∧
      ∀ key', contentOf key'
        (adjust key (fun _ => if w.statisticsValid then w else rebuildStatistics w) windows) =
          contentOf key' windows := by
  refine ⟨h.adjust key fun _ _ => ?_, (rebuild_spec (fun k v hv => (h k v hv).1) hw).2⟩
  split
  · exact h key w hw
  · exact kept_sound.rebuild w (h key w hw)

/-- A turn on a sequence of numbers goes on, with its summary noted. -/
theorem statisticsLoop_number (h : EachWindow Sound windows) (project : ProjectId)
    {s : SequenceId} (hnum : AllNumbers (contentOf (scopedSequenceKey project s) windows))
    (rest : List SequenceId) (statistics : Table SequenceId SequenceWindowStatistics)
    (count : Nat) :
    ∃ windows' statistics' count',
      statisticsLoop project (s :: rest) windows statistics count =
        statisticsLoop project rest windows' statistics' count' ∧
      EachWindow Sound windows' ∧ (∀ key, contentOf key windows' = contentOf key windows) ∧
      ((contentOf (scopedSequenceKey project s) windows = [] ∧ statistics' = statistics) ∨
        contentOf (scopedSequenceKey project s) windows ≠ [] ∧ ∃ st,
          Summarises (numbers (contentOf (scopedSequenceKey project s) windows)) st ∧
            statistics' = emplace s st statistics) := by
  rw [statisticsLoop]
  cases hf : windows.find (scopedSequenceKey project s) with
  | none => exact ⟨windows, statistics, count, rfl, h, fun _ => rfl,
      Or.inl ⟨contentOf_none hf, rfl⟩⟩
  | some w =>
      obtain ⟨heach, hcontent⟩ := readTurn_windows h hf
      have hstat := read_statistics (h _ w hf)
      rw [contentOf_some hf] at hnum ⊢
      simp only
      generalize (if w.statisticsValid = true then w else rebuildStatistics w) = v
        at heach hcontent hstat ⊢
      have hzero : v.statisticsNonNumericCount = 0 :=
        hstat.nonNumeric.trans (nonNumericCount_eq_zero.mpr hnum)
      have hcount : v.statisticsCount = (numbers (content w)).length := by
        rw [hstat.count, ← map_numericEntries, List.length_map]
      rw [if_neg (by simp [hzero])]
      by_cases hempty : content w = []
      · have hnone : v.statisticsCount = 0 := by
          rw [hcount, (numbers_eq_nil hnum).mpr hempty]
          rfl
        rw [if_pos hnone]
        exact ⟨_, _, _, rfl, heach, hcontent, Or.inl ⟨hempty, rfl⟩⟩
      · have hsome : v.statisticsCount ≠ 0 := by
          rw [hcount]
          exact fun hz => hempty ((numbers_eq_nil hnum).mp (List.length_eq_zero_iff.mp hz))
        obtain ⟨low, lows, high, highs, hlow, hhigh, hsum⟩ :=
          summary_of_statistics hstat fun hnil => hempty ((numbers_eq_nil hnum).mp hnil)
        rw [if_neg hsome]
        simp only [hlow, hhigh]
        exact ⟨_, _, _, rfl, heach, hcontent, Or.inr ⟨hempty, _, hsum, rfl⟩⟩

/-- A turn on a sequence with anything else ends the query. -/
theorem statisticsLoop_nonNumeric (h : EachWindow Sound windows) (project : ProjectId)
    {s : SequenceId} (hnum : ¬ AllNumbers (contentOf (scopedSequenceKey project s) windows))
    (rest : List SequenceId) (statistics : Table SequenceId SequenceWindowStatistics)
    (count : Nat) :
    (statisticsLoop project (s :: rest) windows statistics count).2 =
      (KeyedTable.empty, .error (nonNumericMessage s)) := by
  rw [statisticsLoop]
  cases hf : windows.find (scopedSequenceKey project s) with
  | none =>
      refine absurd (fun q hq => ?_) hnum
      rw [contentOf_none hf] at hq
      cases hq
  | some w =>
      have hstat := read_statistics (h _ w hf)
      rw [contentOf_some hf] at hnum
      simp only
      generalize (if w.statisticsValid = true then w else rebuildStatistics w) = v at hstat ⊢
      have hpos : v.statisticsNonNumericCount ≠ 0 := by
        rw [hstat.nonNumeric]
        exact fun hz => hnum (nonNumericCount_eq_zero.mp hz)
      rw [if_pos hpos]
      rfl

theorem find_emplace (s t : SequenceId) (st : SequenceWindowStatistics)
    (statistics : Table SequenceId SequenceWindowStatistics) :
    (emplace s st statistics).find t =
      if t = s then some ((statistics.find s).getD st) else statistics.find t :=
  find_ensure s t st statistics

/-- The loop over sequences of numbers collects their summaries. -/
theorem statisticsLoop_ok (h : EachWindow Sound windows) (project : ProjectId)
    {ids : List SequenceId}
    (hnum : ∀ s ∈ ids, AllNumbers (contentOf (scopedSequenceKey project s) windows))
    (statistics : Table SequenceId SequenceWindowStatistics) (count : Nat) :
    (∃ n, (statisticsLoop project ids windows statistics count).2.2 = .ok n) ∧
      ∀ s st, (statisticsLoop project ids windows statistics count).2.1.find s = some st ↔
        statistics.find s = some st ∨
          statistics.find s = none ∧ s ∈ ids ∧
            contentOf (scopedSequenceKey project s) windows ≠ [] ∧
            Summarises (numbers (contentOf (scopedSequenceKey project s) windows)) st := by
  induction ids generalizing windows statistics count with
  | nil =>
      refine ⟨⟨count, rfl⟩, fun s st => ?_⟩
      simp [statisticsLoop]
  | cons t ids ih =>
      obtain ⟨windows', statistics', count', heq, heach, hcontent, hturn⟩ :=
        statisticsLoop_number h project (hnum t List.mem_cons_self) ids statistics count
      obtain ⟨hok, hfind⟩ := ih heach (fun s hs => by
        rw [hcontent]
        exact hnum s (List.mem_cons_of_mem _ hs)) statistics' count'
      rw [heq]
      refine ⟨hok, fun s st => ?_⟩
      rw [hfind s st, hcontent]
      rcases hturn with ⟨hempty, rfl⟩ | ⟨hne, noted, hnoted, rfl⟩
      · -- nothing retained, nothing noted
        refine or_congr_right (and_congr_right fun _ => ?_)
        rw [List.mem_cons]
        constructor
        · rintro ⟨hs, hrest⟩
          exact ⟨Or.inr hs, hrest⟩
        · rintro ⟨rfl | hs, hrest⟩
          · exact absurd hempty hrest.1
          · exact ⟨hs, hrest⟩
      · rw [find_emplace]
        by_cases hst : s = t
        · subst hst
          rw [if_pos rfl]
          cases hold : statistics.find s with
          | some old => simp
          | none =>
              constructor
              · rintro (hsome | ⟨hnone, _⟩)
                · rw [Option.getD_none] at hsome
                  exact Or.inr ⟨rfl, List.mem_cons_self, hne, Option.some.inj hsome ▸ hnoted⟩
                · cases hnone
              · rintro (hsome | ⟨_, _, _, hsum⟩)
                · cases hsome
                · rw [Option.getD_none, hsum.unique hnoted]
                  exact Or.inl rfl
        · rw [if_neg hst]
          refine or_congr_right (and_congr_right fun _ => and_congr_left fun _ => ?_)
          rw [List.mem_cons]
          exact ⟨Or.inr, fun hs => hs.resolve_left hst⟩

/-- The loop stops at the first sequence that holds anything but numbers. -/
theorem statisticsLoop_error (h : EachWindow Sound windows) (project : ProjectId)
    {front rest : List SequenceId} {s : SequenceId}
    (hfront : ∀ t ∈ front, AllNumbers (contentOf (scopedSequenceKey project t) windows))
    (hnum : ¬ AllNumbers (contentOf (scopedSequenceKey project s) windows))
    (statistics : Table SequenceId SequenceWindowStatistics) (count : Nat) :
    (statisticsLoop project (front ++ s :: rest) windows statistics count).2 =
      (KeyedTable.empty, .error (nonNumericMessage s)) := by
  induction front generalizing windows statistics count with
  | nil => exact statisticsLoop_nonNumeric h project hnum rest statistics count
  | cons t front ih =>
      obtain ⟨windows', statistics', count', heq, heach, hcontent, _⟩ :=
        statisticsLoop_number h project (hfront t List.mem_cons_self) (front ++ s :: rest)
          statistics count
      rw [List.cons_append, heq]
      refine ih heach (fun u hu => ?_) ?_ statistics' count'
      · rw [hcontent]
        exact hfront u (List.mem_cons_of_mem _ hu)
      · rwa [hcontent]

/-! ## The query -/

/-- The result describes exactly what is retained. -/
structure StatisticsReported (p : ProjectId) (ids : List SequenceId) (service : WindowService)
    (r : WindowStatisticsResult) : Prop where
  rejected : r.operation.code = .invalidArgument ↔
    ∃ s ∈ ids, ∃ q ∈ retained p s service, numericValue q.value = none
  message : r.operation.code = .invalidArgument →
    ∃ s ∈ ids, (∃ q ∈ retained p s service, numericValue q.value = none) ∧
      r.operation = invalidArgument (nonNumericMessage s) ∧
      ∀ t, r.data.sequenceStatistics.find t = none
  accepted : r.operation.code = .invalidArgument ∨ r.operation.code = .ok
  reported : r.operation.code = .ok → ∀ s st, r.data.sequenceStatistics.find s = some st ↔
    s ∈ ids ∧ retained p s service ≠ [] ∧ Summarises (numbers (retained p s service)) st

theorem not_allNumbers {points : List RawTimeseriesPoint} :
    ¬ AllNumbers points ↔ ∃ q ∈ points, numericValue q.value = none := by
  unfold AllNumbers
  simp only [not_forall, Option.not_isSome_iff_eq_none, exists_prop]

/-- The first element that fails a test. -/
theorem exists_first {α : Type} {P : α → Prop} {xs : List α} (h : ∃ x ∈ xs, ¬ P x) :
    ∃ front x rest, xs = front ++ x :: rest ∧ (∀ y ∈ front, P y) ∧ ¬ P x := by
  induction xs with
  | nil =>
      obtain ⟨x, hx, _⟩ := h
      cases hx
  | cons a xs ih =>
      by_cases ha : P a
      · obtain ⟨x, hx, hPx⟩ := h
        have hxs : x ∈ xs := by
          rcases List.mem_cons.mp hx with rfl | hx
          · exact absurd ha hPx
          · exact hx
        obtain ⟨front, y, rest, rfl, hfront, hy⟩ := ih ⟨x, hxs, hPx⟩
        refine ⟨a :: front, y, rest, rfl, fun z hz => ?_, hy⟩
        rcases List.mem_cons.mp hz with rfl | hz
        · exact ha
        · exact hfront z hz
      · exact ⟨[], a, xs, rfl, fun _ h => absurd h List.not_mem_nil, ha⟩

/-- With a watermark, a query for nonempty ids runs the loop. -/
theorem queryWindowStatistics_eq {p : ProjectId} {ids : List SequenceId}
    {service : WindowService} (hids : ids ≠ []) (hne : ∀ s ∈ ids, s ≠ "")
    {watermark : Timestamp} (hwm : service.watermarks.find (effectiveProject p) = some watermark)
    (hsize : 0 < windowSize p service) :
    (queryWindowStatistics p ids service).2 =
      { operation :=
          match (statisticsLoop (effectiveProject p) ids service.sequenceWindows
            KeyedTable.empty 0).2.2 with
          | .ok count => okResult count "window statistics query completed"
          | .error message => invalidArgument message
        data :=
          { windowStartTime := windowStart watermark (windowSize p service)
            windowEndTime := liveEnd watermark
            sequenceStatistics := (statisticsLoop (effectiveProject p) ids
              service.sequenceWindows KeyedTable.empty 0).2.1
            projectId := effectiveProject p } } := by
  have hempty : ids.isEmpty = false := by simpa using hids
  obtain ⟨windows, statistics, outcome, hloop⟩ : ∃ windows statistics outcome,
      statisticsLoop (effectiveProject p) ids service.sequenceWindows KeyedTable.empty 0 =
        (windows, statistics, outcome) := ⟨_, _, _, rfl⟩
  -- both outcomes fill the same answer
  cases outcome with
  | ok count =>
      simp only [queryWindowStatistics, hempty, Bool.false_eq_true, if_false, findSequences_ok hne,
        hwm, if_neg (not_le.mpr hsize), hloop]
  | error message =>
      simp only [queryWindowStatistics, hempty, Bool.false_eq_true, if_false, findSequences_ok hne,
        hwm, if_neg (not_le.mpr hsize), hloop]

/-- What a query for statistics reports. -/
theorem statisticsReported {p : ProjectId} {ids : List SequenceId} {service : WindowService}
    (heach : EachWindow Sound service.sequenceWindows) (hids : ids ≠ [])
    (hne : ∀ s ∈ ids, s ≠ "") {watermark : Timestamp}
    (hwm : service.watermarks.find (effectiveProject p) = some watermark)
    (hsize : 0 < windowSize p service) :
    StatisticsReported p ids service (queryWindowStatistics p ids service).2 := by
  have hkey : ∀ s, contentOf (scopedSequenceKey (effectiveProject p) s) service.sequenceWindows =
      retained p s service := by
    intro s
    rw [scopedSequenceKey_effective]
    rfl
  rw [queryWindowStatistics_eq hids hne hwm hsize]
  by_cases hbad : ∃ s ∈ ids, ¬ AllNumbers (retained p s service)
  · obtain ⟨front, s, rest, rfl, hfront, hs⟩ := exists_first hbad
    have hloop := @statisticsLoop_error _ heach (effectiveProject p) front rest s
      (fun t ht => by rw [hkey]; exact hfront t ht) (by rw [hkey]; exact hs) KeyedTable.empty 0
    have hmem : s ∈ front ++ s :: rest := List.mem_append_right _ List.mem_cons_self
    rw [hloop]
    refine ⟨⟨fun _ => ⟨s, hmem, not_allNumbers.mp hs⟩, fun _ => rfl⟩,
      fun _ => ⟨s, hmem, not_allNumbers.mp hs, rfl, fun _ => rfl⟩, Or.inl rfl, fun hok => ?_⟩
    cases hok
  · have hall : ∀ s ∈ ids, AllNumbers (retained p s service) :=
      fun s hs => not_not.mp fun hn => hbad ⟨s, hs, hn⟩
    obtain ⟨⟨n, hn⟩, hfind⟩ := statisticsLoop_ok heach (effectiveProject p)
      (fun s hs => by rw [hkey]; exact hall s hs) KeyedTable.empty 0
    have hnone : ¬ ∃ s ∈ ids, ∃ q ∈ retained p s service, numericValue q.value = none := by
      rintro ⟨s, hs, hq⟩
      exact not_allNumbers.mpr hq (hall s hs)
    refine ⟨⟨fun hcode => ?_, fun h => absurd h hnone⟩, fun hcode => ?_, Or.inr ?_,
      fun _ s st => ?_⟩
    · rw [hn] at hcode
      cases hcode
    · rw [hn] at hcode
      cases hcode
    · rw [hn]
      rfl
    · refine (hfind s st).trans ?_
      rw [hkey]
      constructor
      · rintro (h | ⟨_, h⟩)
        · cases h
        · exact h
      · exact fun h => Or.inr ⟨rfl, h⟩

/-- **Incremental statistics equal recomputation.**  After every run of
    operations of any projects, once the project has a watermark, a statistics
    query for nonempty ids reports the summary of exactly the retained points and
    is rejected exactly when one of them is not a number; without a watermark it
    reports nothing. -/
theorem statistics_recomputed (calls : List ServiceCall) (p : ProjectId)
    (ids : List SequenceId) (hids : ids ≠ []) (hne : ∀ s ∈ ids, s ≠ "") :
    if ((run callStep {} calls).watermarks.find (effectiveProject p)).isSome then
      StatisticsReported p ids (run callStep {} calls)
        (queryWindowStatistics p ids (run callStep {} calls)).2
    else
      (queryWindowStatistics p ids (run callStep {} calls)).2.operation.code = .ok ∧
        ∀ s, (queryWindowStatistics p ids (run callStep {} calls)).2.data.sequenceStatistics.find
          s = none := by
  have heach := kept_sound.run calls
  have hsize := windowSize_pos calls p
  generalize run callStep {} calls = service at heach hsize ⊢
  cases hwm : service.watermarks.find (effectiveProject p) with
  | none =>
      have hempty : ids.isEmpty = false := by simpa using hids
      rw [if_neg (by simp)]
      unfold queryWindowStatistics
      simp only [hempty, Bool.false_eq_true, if_false, findSequences_ok hne, hwm]
      exact ⟨rfl, fun _ => rfl⟩
  | some watermark =>
      rw [if_pos Option.isSome_some]
      exact statisticsReported heach hids hne hwm hsize

/-- A whole number at a time. -/
private def measured (s : SequenceId) (t : Timestamp) (n : Int) : RawTimeseriesPoint :=
  { time := t, sequenceId := s, value := .int64 n }

/-- An append, a late correction and an eviction. -/
theorem statistics_recomputed_correction :
    if ((run callStep {} [⟨"p", .update { points := [measured "s" 1 5, measured "s" 2 7] } (some 4)⟩,
        ⟨"p", .update { points := [measured "s" 2 9, measured "s" 6 1] } none⟩]).watermarks.find
          (effectiveProject "p")).isSome then
      StatisticsReported "p" ["s"] (run callStep {}
          [⟨"p", .update { points := [measured "s" 1 5, measured "s" 2 7] } (some 4)⟩,
            ⟨"p", .update { points := [measured "s" 2 9, measured "s" 6 1] } none⟩])
        (queryWindowStatistics "p" ["s"] (run callStep {}
          [⟨"p", .update { points := [measured "s" 1 5, measured "s" 2 7] } (some 4)⟩,
            ⟨"p", .update { points := [measured "s" 2 9, measured "s" 6 1] } none⟩])).2
    else
      (queryWindowStatistics "p" ["s"] (run callStep {}
          [⟨"p", .update { points := [measured "s" 1 5, measured "s" 2 7] } (some 4)⟩,
            ⟨"p", .update { points := [measured "s" 2 9, measured "s" 6 1] } none⟩])).2.operation.code
          = .ok ∧
        ∀ s, (queryWindowStatistics "p" ["s"] (run callStep {}
          [⟨"p", .update { points := [measured "s" 1 5, measured "s" 2 7] } (some 4)⟩,
            ⟨"p", .update { points := [measured "s" 2 9, measured "s" 6 1] } none⟩])).2.data.sequenceStatistics.find
          s = none :=
  statistics_recomputed _ "p" ["s"] (by decide) (by decide)

/-- A derived series written before the first update is retained, but the
    statistics of its project are still empty. -/
theorem derived_statistics_before_update :
    retained "p" "d" (run callStep {} [⟨"p", .replace "d" { points := [measured "d" 5 1] }⟩]) =
        [measured "d" 5 1] ∧
      (queryWindowStatistics "p" ["d"] (run callStep {}
        [⟨"p", .replace "d" { points := [measured "d" 5 1] }⟩])).2.operation.code = .ok ∧
      (queryWindowStatistics "p" ["d"] (run callStep {}
        [⟨"p", .replace "d" { points := [measured "d" 5 1] }⟩])).2.data.sequenceStatistics.find
          "d" = none := by
  decide +kernel

end WindowStatistics
