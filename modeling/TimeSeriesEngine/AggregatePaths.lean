import TimeSeriesEngine.WindowStatistics
import TimeSeriesEngine.ConstraintScan

/-!
# Two ways to the statistics of a window

Continuous ingest takes the statistics of an aggregate rule from the cache of
the retained points; an on-demand check builds them from a default query, over
the points inside the live window.  Eviction keeps a point at
`watermark - windowSize`, one step in front of the live window, so the two agree
exactly when every retained point is live.
-/

namespace AggregatePaths

open TseTypes KeyedTable OrderedSeries SeqWindow SeqContent SeqStatistics HotWindow WindowContent
open WindowUpdate WindowRefinement WindowRuns UpdateRange WindowStatistics ConstraintCheck
open ConstraintScan Transition

/-! ## Statistics built from a query -/

/-- A fold that picks one of two values ends at an extreme value of the list. -/
theorem foldl_select {α : Type} {r : α → α → Prop} [IsTrans α r] [Std.Refl r] {op : α → α → α}
    (hop : ∀ a b, (op a b = a ∨ op a b = b) ∧ r (op a b) a ∧ r (op a b) b) (rest : List α)
    (first : α) :
    rest.foldl op first ∈ first :: rest ∧ ∀ v ∈ first :: rest, r (rest.foldl op first) v := by
  induction rest generalizing first with
  | nil =>
      refine ⟨List.mem_cons_self, fun v hv => ?_⟩
      rw [List.mem_singleton.mp hv]
      exact Std.Refl.refl first
  | cons x rest ih =>
      obtain ⟨hmem, hall⟩ := ih (op first x)
      obtain ⟨hpick, hfirst, hx⟩ := hop first x
      have hbest := hall _ List.mem_cons_self
      rw [List.foldl_cons]
      refine ⟨?_, fun v hv => ?_⟩
      · rcases List.mem_cons.mp hmem with h | h
        · rw [h]
          rcases hpick with h' | h'
          · rw [h']
            exact List.mem_cons_self
          · rw [h']
            exact List.mem_cons_of_mem _ List.mem_cons_self
        · exact List.mem_cons_of_mem _ (List.mem_cons_of_mem _ h)
      · rcases List.mem_cons.mp hv with rfl | hv
        · exact IsTrans.trans _ _ _ hbest hfirst
        · rcases List.mem_cons.mp hv with rfl | hv
          · exact IsTrans.trans _ _ _ hbest hx
          · exact hall v (List.mem_cons_of_mem _ hv)

/-- The values computed from a list of numbers summarise it. -/
theorem summarises_statisticsOf (first : ℚ) (rest : List ℚ) :
    Summarises (first :: rest) (statisticsOf first rest) where
  count := rfl
  average := rfl
  minimum := foldl_select (r := fun a b : ℚ => a ≤ b)
    (fun a b => ⟨min_choice a b, min_le_left a b, min_le_right a b⟩) rest first
  maximum := foldl_select (r := fun a b : ℚ => b ≤ a)
    (fun a b => ⟨max_choice a b, le_max_left a b, le_max_right a b⟩) rest first

/-- The points a window covers. -/
def inside (start finish : Timestamp) (points : List RawTimeseriesPoint) :
    List RawTimeseriesPoint :=
  points.filter fun q => decide (start ≤ q.time) && decide (q.time < finish)

theorem inside_cons_of_pos {start finish : Timestamp} {q : RawTimeseriesPoint}
    (h : start ≤ q.time ∧ q.time < finish) (points : List RawTimeseriesPoint) :
    inside start finish (q :: points) = q :: inside start finish points :=
  List.filter_cons_of_pos (by simpa using h)

theorem inside_cons_of_neg {start finish : Timestamp} {q : RawTimeseriesPoint}
    (h : ¬ (start ≤ q.time ∧ q.time < finish)) (points : List RawTimeseriesPoint) :
    inside start finish (q :: points) = inside start finish points :=
  List.filter_cons_of_neg (by simpa using h)

/-- The numbers in the range of a window, where all points are numbers. -/
theorem windowNumbers_eq (start finish : Timestamp) {points : List RawTimeseriesPoint}
    (h : AllNumbers points) :
    windowNumbers start finish points = some (numbers (inside start finish points)) := by
  induction points with
  | nil => rfl
  | cons q points ih =>
      have hrest := ih fun r hr => h r (List.mem_cons_of_mem _ hr)
      have hout : (q.time < start ∨ finish ≤ q.time) ↔ ¬ (start ≤ q.time ∧ q.time < finish) := by
        rw [not_and_or, not_le, not_lt]
      rw [windowNumbers, hrest]
      by_cases hq : start ≤ q.time ∧ q.time < finish
      · obtain ⟨value, hvalue⟩ := Option.isSome_iff_exists.mp (h q List.mem_cons_self)
        rw [if_neg fun hnot => hout.mp hnot hq, hvalue, inside_cons_of_pos hq]
        simp only [numbers, List.filterMap_cons, hvalue]
      · rw [if_pos (hout.mpr hq), inside_cons_of_neg hq]

/-- For a sequence the first term does not name, that term is no matter. -/
theorem mapped_other {rule : ConstraintRule} {term : ConstraintTerm} {s : SequenceId}
    (hs : s ≠ mappedSequence rule term) (terms : List ConstraintTerm) (seen : List SequenceId) :
    (s ∉ mappedSequence rule term :: seen ↔ s ∉ seen) ∧
      ((∃ t ∈ term :: terms, mappedSequence rule t = s) ↔
        ∃ t ∈ terms, mappedSequence rule t = s) := by
  constructor
  · rw [List.mem_cons, not_or, and_iff_right hs]
  · rw [List.exists_mem_cons_iff, or_iff_right hs.symm]

/-- What the rule's terms collect, when every mapped sequence holds numbers. -/
theorem buildStatistics_spec {rule : ConstraintRule} {data : WindowData}
    {terms : List ConstraintTerm}
    (hdata : ∀ term ∈ terms, ∃ points,
      data.sequenceValues.find (mappedSequence rule term) = some points ∧ AllNumbers points)
    {statistics : Table SequenceId SequenceWindowStatistics} {seen : List SequenceId}
    (hseen : ∀ s, s ∉ seen → statistics.find s = none) :
    ∃ built, buildStatistics rule data terms statistics seen = .ok built ∧
      ∀ s st, built.find s = some st ↔ statistics.find s = some st ∨
        s ∉ seen ∧ (∃ term ∈ terms, mappedSequence rule term = s) ∧
          ∃ points, data.sequenceValues.find s = some points ∧
            numbers (inside data.windowStartTime data.windowEndTime points) ≠ [] ∧
            Summarises (numbers (inside data.windowStartTime data.windowEndTime points)) st := by
  induction terms generalizing statistics seen with
  | nil => exact ⟨statistics, rfl, fun s st => by simp⟩
  | cons term terms ih =>
      have hterms : ∀ t ∈ terms, ∃ points,
          data.sequenceValues.find (mappedSequence rule t) = some points ∧ AllNumbers points :=
        fun t ht => hdata t (List.mem_cons_of_mem _ ht)
      obtain ⟨points, hpoints, hnum⟩ := hdata term List.mem_cons_self
      rw [buildStatistics]
      by_cases hin : mappedSequence rule term ∈ seen
      · obtain ⟨built, hbuilt, hfind⟩ := ih hterms hseen
        rw [if_pos hin]
        refine ⟨built, hbuilt, fun s st => (hfind s st).trans ?_⟩
        refine or_congr_right (and_congr_right fun hs => and_congr_left fun _ => ?_)
        have hnew : mappedSequence rule term ≠ s := by
          rintro rfl
          exact hs hin
        rw [List.exists_mem_cons_iff, or_iff_right hnew]
      · rw [if_neg hin, hpoints]
        simp only [windowNumbers_eq _ _ hnum]
        cases hlist : numbers (inside data.windowStartTime data.windowEndTime points) with
        | nil =>
            have hkept : ∀ s, s ∉ mappedSequence rule term :: seen → statistics.find s = none :=
              fun s hs => hseen s fun h => hs (List.mem_cons_of_mem _ h)
            obtain ⟨built, hbuilt, hfind⟩ := ih hterms hkept
            refine ⟨built, hbuilt, fun s st => (hfind s st).trans (or_congr_right ?_)⟩
            by_cases hs : s = mappedSequence rule term
            · -- this very sequence has no number in the window
              subst hs
              constructor
              · rintro ⟨hnot, _⟩
                exact absurd List.mem_cons_self hnot
              · rintro ⟨_, _, points', hpoints', hne, _⟩
                rw [hpoints] at hpoints'
                cases hpoints'
                exact absurd hlist hne
            · obtain ⟨hmem, hmapped⟩ := mapped_other hs terms seen
              rw [hmem, hmapped]
        | cons first rest =>
            have hnoted : ∀ s, s ∉ mappedSequence rule term :: seen →
                (put (mappedSequence rule term) (statisticsOf first rest) statistics).find s =
                  none := by
              intro s hs
              obtain ⟨hne, hold⟩ := not_or.mp fun h => hs (List.mem_cons.mpr h)
              rw [find_put, if_neg hne]
              exact hseen s hold
            obtain ⟨built, hbuilt, hfind⟩ := ih hterms hnoted
            refine ⟨built, hbuilt, fun s st => (hfind s st).trans ?_⟩
            rw [find_put]
            by_cases hs : s = mappedSequence rule term
            · -- the sequence noted by this very term
              subst hs
              rw [if_pos rfl, hseen _ hin]
              constructor
              · rintro (hst | ⟨hnot, _⟩)
                · refine Or.inr ⟨hin, ⟨term, List.mem_cons_self, rfl⟩, points, hpoints, ?_, ?_⟩
                  · rw [hlist]
                    exact List.cons_ne_nil _ _
                  · rw [hlist, ← Option.some.inj hst]
                    exact summarises_statisticsOf first rest
                · exact absurd List.mem_cons_self hnot
              · rintro (hst | ⟨_, _, points', hpoints', _, hsum⟩)
                · cases hst
                · rw [hpoints] at hpoints'
                  cases hpoints'
                  rw [hlist] at hsum
                  rw [hsum.unique (summarises_statisticsOf first rest)]
                  exact Or.inl rfl
            · obtain ⟨hmem, hmapped⟩ := mapped_other hs terms seen
              rw [if_neg hs, hmem, hmapped]

/-! ## Comparing the two -/

/-- Every retained point of the sequence is inside the default live window. -/
def AllLive (p : ProjectId) (s : SequenceId) (watermark : Timestamp) (service : WindowService) :
    Prop :=
  ∀ q ∈ retained p s service,
    liveStart watermark (windowSize p service) ≤ q.time ∧ q.time < liveEnd watermark

theorem exists_summary {values : List ℚ} (h : values ≠ []) : ∃ s, Summarises values s := by
  cases values with
  | nil => exact absurd rfl h
  | cons first rest => exact ⟨_, summarises_statisticsOf first rest⟩

theorem numbers_length {points : List RawTimeseriesPoint} (h : AllNumbers points) :
    (numbers points).length = points.length := by
  induction points with
  | nil => rfl
  | cons q points ih =>
      obtain ⟨value, hvalue⟩ := Option.isSome_iff_exists.mp (h q List.mem_cons_self)
      have hrest := ih fun r hr => h r (List.mem_cons_of_mem _ hr)
      simp only [numbers, List.filterMap_cons, hvalue, List.length_cons]
      exact congrArg (· + 1) hrest

/-- Dropping points from the front and the end of a window changes its summary. -/
theorem summary_eq_iff {start finish : Timestamp} {points : List RawTimeseriesPoint}
    (h : AllNumbers points) {whole part : SequenceWindowStatistics}
    (hwhole : Summarises (numbers points) whole)
    (hpart : Summarises (numbers (inside start finish points)) part) :
    whole = part ↔ ∀ q ∈ points, start ≤ q.time ∧ q.time < finish := by
  have hinside : AllNumbers (inside start finish points) :=
    fun q hq => h q (List.mem_of_mem_filter hq)
  constructor
  · intro heq
    have hlen : (inside start finish points).length = points.length := by
      rw [← numbers_length hinside, ← numbers_length h, ← hpart.count, ← hwhole.count, heq]
    have hall := List.length_filter_eq_length_iff.mp hlen
    intro q hq
    simpa using hall q hq
  · intro hall
    have heq : inside start finish points = points :=
      List.filter_eq_self.mpr fun q hq => by simpa using hall q hq
    rw [heq] at hpart
    exact hwhole.unique hpart

/-- An aggregate rule reads the end of the window and the statistics of its own sequences only. -/
theorem evaluateAggregateRule_congr {rule : ConstraintRule} {a b : WindowStatisticsData}
    (hend : a.windowEndTime = b.windowEndTime)
    (hfind : ∀ term ∈ rule.terms, a.sequenceStatistics.find (mappedSequence rule term) =
      b.sequenceStatistics.find (mappedSequence rule term)) :
    evaluateAggregateRule rule a = evaluateAggregateRule rule b := by
  have hresolve : ∀ terms : List ConstraintTerm,
      (∀ term ∈ terms, a.sequenceStatistics.find (mappedSequence rule term) =
        b.sequenceStatistics.find (mappedSequence rule term)) →
      resolveTerms rule (resolveAggregate a) terms = resolveTerms rule (resolveAggregate b) terms := by
    intro terms
    induction terms with
    | nil => exact fun _ => rfl
    | cons term terms ih =>
        intro h
        have hterm : resolveAggregate a term (mappedSequence rule term) =
            resolveAggregate b term (mappedSequence rule term) := by
          rw [resolveAggregate, resolveAggregate, h term List.mem_cons_self, hend]
        rw [resolveTerms, resolveTerms, hterm, ih fun t ht => h t (List.mem_cons_of_mem _ ht)]
  have hany : (rule.terms.any fun term =>
      (a.sequenceStatistics.find (mappedSequence rule term)).isNone) =
        rule.terms.any fun term =>
          (b.sequenceStatistics.find (mappedSequence rule term)).isNone := by
    rw [Bool.eq_iff_iff, List.any_eq_true, List.any_eq_true]
    constructor
    · rintro ⟨term, hterm, hnone⟩
      exact ⟨term, hterm, by rw [← hfind term hterm]; exact hnone⟩
    · rintro ⟨term, hterm, hnone⟩
      exact ⟨term, hterm, by rw [hfind term hterm]; exact hnone⟩
  rw [evaluateAggregateRule, evaluateAggregateRule, hany, hend, evaluateRuleAt, evaluateRuleAt,
    hresolve rule.terms hfind]

/-- What the two paths compute for a rule over the sequences `ids`. -/
structure PathsCompared (capacity : Nat) (p : ProjectId) (ids : List SequenceId)
    (rule : ConstraintRule) (watermark : Timestamp) (service : WindowService)
    (cached : WindowStatisticsResult) (r : WindowQueryResult)
    (built : Table SequenceId SequenceWindowStatistics) : Prop where
  cachedOk : cached.operation.code = .ok
  queried : queryWindowData capacity p { sequenceIds := ids } service = .ok r
  queriedOk : r.operation.code = .ok
  buildOk : buildStatistics rule r.data rule.terms KeyedTable.empty [] = .ok built
  agree : ∀ term ∈ rule.terms, ∃ whole live,
    cached.data.sequenceStatistics.find (mappedSequence rule term) = some whole ∧
      built.find (mappedSequence rule term) = some live ∧
      (whole = live ↔ AllLive p (mappedSequence rule term) watermark service)
  verdict : ∀ properties, validateConstraintRule rule = .ok properties →
    properties.kind = .windowAggregate →
    (∀ term ∈ rule.terms, AllLive p (mappedSequence rule term) watermark service) →
      checkWindowRule r.data none rule = checkStatisticsRule cached.data rule

/-- A query of sequences that each have a live point returns their live points. -/
theorem query_live (capacity : Nat) {p : ProjectId} {service : WindowService}
    (hv : AllValid service.sequenceWindows) {watermark : Timestamp}
    (hwm : service.watermarks.find (effectiveProject p) = some watermark)
    (hsize : 0 < windowSize p service) {ids : List SequenceId} (hids : ids ≠ [])
    (hne : ∀ s ∈ ids, s ≠ "") (hnd : ids.Nodup)
    (hlive : ∀ s ∈ ids, ∃ q ∈ retained p s service,
      liveStart watermark (windowSize p service) ≤ q.time ∧ q.time < liveEnd watermark) :
    ∃ r, queryWindowData capacity p { sequenceIds := ids } service = .ok r ∧
      r.operation.code = .ok ∧
      r.data.windowStartTime = liveStart watermark (windowSize p service) ∧
      r.data.windowEndTime = liveEnd watermark ∧
      ∀ s ∈ ids, r.data.sequenceValues.find s =
        some (inside (liveStart watermark (windowSize p service)) (liveEnd watermark)
          (retained p s service)) := by
  obtain ⟨s₀, hs₀⟩ := List.exists_mem_of_ne_nil _ hids
  obtain ⟨q₀, _, hfirst, hlast⟩ := hlive s₀ hs₀
  obtain ⟨r, hr, hrok, -, hbounds, hrfind⟩ := queryWindowData_spec capacity
    { sequenceIds := ids } hv hids hne hnd hwm hsize (le_of_lt (lt_of_le_of_lt hfirst hlast))
    (Nat.zero_le _)
  obtain ⟨hrstart, hrend⟩ := hbounds rfl
  refine ⟨r, hr, hrok, hrstart, hrend, fun s hs => ?_⟩
  obtain ⟨q, hq, hqlive⟩ := hlive s hs
  have hrange : sliceOf (liveStart watermark (windowSize p service)) (liveEnd watermark) 0 0
      (retained p s service) =
        inside (liveStart watermark (windowSize p service)) (liveEnd watermark)
          (retained p s service) :=
    sliceOf_range (hv.ascending _) _ (liveEnd watermark)
  have hmem : q ∈ inside (liveStart watermark (windowSize p service)) (liveEnd watermark)
      (retained p s service) :=
    List.mem_filter.mpr ⟨hq, by simpa using hqlive⟩
  rw [hrfind, if_pos hs]
  refine (if_neg ?_).trans (congrArg some hrange)
  exact fun hnil => List.ne_nil_of_mem hmem (hrange.symm.trans hnil)

theorem inside_inside (start finish : Timestamp) (points : List RawTimeseriesPoint) :
    inside start finish (inside start finish points) = inside start finish points :=
  List.filter_eq_self.mpr fun _ hq => (List.mem_filter.mp hq).2

/-- **The two aggregate paths agree exactly on live sequences.**  In any state a
    run of the service can reach, for a rule over sequences of numbers that each
    have a point in the default live window: both paths succeed, and for each
    mapped sequence they give the same statistics if and only if every retained
    point of it is live.  When that is so for all of them, continuous ingest and an
    on-demand check give the rule the same verdict. -/
theorem aggregate_paths_compared (capacity : Nat) (calls : List ServiceCall) (p : ProjectId)
    {watermark : Timestamp}
    (hwm : (run callStep {} calls).watermarks.find (effectiveProject p) = some watermark)
    {ids : List SequenceId} (hids : ids ≠ []) (hne : ∀ s ∈ ids, s ≠ "") (hnd : ids.Nodup)
    (hlive : ∀ s ∈ ids, ∃ q ∈ retained p s (run callStep {} calls),
      liveStart watermark (windowSize p (run callStep {} calls)) ≤ q.time ∧
        q.time < liveEnd watermark)
    (hnum : ∀ s ∈ ids, AllNumbers (retained p s (run callStep {} calls)))
    {rule : ConstraintRule} (hrule : ∀ term ∈ rule.terms, mappedSequence rule term ∈ ids) :
    ∃ r built, PathsCompared capacity p ids rule watermark (run callStep {} calls)
      (queryWindowStatistics p ids (run callStep {} calls)).2 r built := by
  have heach := kept_sound.run calls
  have hv := reachable_valid calls
  have hsize := windowSize_pos calls p
  generalize run callStep {} calls = service at hwm hlive hnum heach hv hsize ⊢
  -- the cached side
  have hcached := statisticsReported heach hids hne hwm hsize
  have hcode : (queryWindowStatistics p ids service).2.operation.code = .ok := by
    refine hcached.accepted.resolve_left fun hrej => ?_
    obtain ⟨s, hs, q, hq, hnone⟩ := hcached.rejected.mp hrej
    have hsome := hnum s hs q hq
    rw [hnone] at hsome
    cases hsome
  -- the queried side
  obtain ⟨r, hr, hrok, hrstart, hrend, hslice⟩ :=
    query_live capacity hv hwm hsize hids hne hnd hlive
  set start := liveStart watermark (windowSize p service) with hstart
  have hinside : ∀ s ∈ ids, AllNumbers (inside start (liveEnd watermark) (retained p s service)) :=
    fun s hs q hq => hnum s hs q (List.mem_of_mem_filter hq)
  obtain ⟨built, hbuilt, hbfind⟩ := @buildStatistics_spec rule r.data rule.terms
    (fun term hterm => ⟨_, hslice _ (hrule term hterm), hinside _ (hrule term hterm)⟩)
    KeyedTable.empty [] fun _ _ => rfl
  have hagree : ∀ term ∈ rule.terms, ∃ whole live,
      (queryWindowStatistics p ids service).2.data.sequenceStatistics.find
          (mappedSequence rule term) = some whole ∧
        built.find (mappedSequence rule term) = some live ∧
        (whole = live ↔ AllLive p (mappedSequence rule term) watermark service) := by
    intro term hterm
    have hs := hrule term hterm
    generalize hmapped : mappedSequence rule term = s at hs ⊢
    obtain ⟨q, hq, hqlive⟩ := hlive s hs
    have hqin : q ∈ inside start (liveEnd watermark) (retained p s service) :=
      List.mem_filter.mpr ⟨hq, by simpa using hqlive⟩
    have hwholene : numbers (retained p s service) ≠ [] := fun hnil =>
      List.ne_nil_of_mem hq ((numbers_eq_nil (hnum s hs)).mp hnil)
    have hlivene : numbers (inside start (liveEnd watermark) (retained p s service)) ≠ [] :=
      fun hnil => List.ne_nil_of_mem hqin ((numbers_eq_nil (hinside s hs)).mp hnil)
    obtain ⟨whole, hwhole⟩ := exists_summary hwholene
    obtain ⟨live, hlivesum⟩ := exists_summary hlivene
    refine ⟨whole, live, (hcached.reported hcode s whole).mpr ⟨hs, List.ne_nil_of_mem hq, hwhole⟩,
      (hbfind s live).mpr (Or.inr ⟨List.not_mem_nil, ⟨term, hterm, hmapped⟩, _, hslice s hs, ?_, ?_⟩),
      summary_eq_iff (hnum s hs) hwhole hlivesum⟩
    · rw [hrstart, hrend, inside_inside]
      exact hlivene
    · rw [hrstart, hrend, inside_inside]
      exact hlivesum
  refine ⟨r, built, hcode, hr, hrok, hbuilt, hagree, fun properties hprops hkind hall => ?_⟩
  have hsame : evaluateAggregateRule rule
      { windowStartTime := r.data.windowStartTime
        windowEndTime := r.data.windowEndTime
        sequenceStatistics := built
        projectId := r.data.projectId } =
      evaluateAggregateRule rule (queryWindowStatistics p ids service).2.data := by
    refine evaluateAggregateRule_congr ?_ fun term hterm => ?_
    · rw [queryWindowStatistics_eq hids hne hwm hsize]
      exact hrend
    · obtain ⟨whole, live, hwhole, hlivefind, hiff⟩ := hagree term hterm
      rw [hwhole, hiff.mpr (hall term hterm)]
      exact hlivefind
  simp only [checkWindowRule, checkStatisticsRule, hprops, hkind, hbuilt, if_true, ne_eq,
    not_true_eq_false, if_false, hsame]

/-- A whole number at a time. -/
private def sampled (t : Timestamp) (n : Int) : RawTimeseriesPoint :=
  { time := t, sequenceId := "s", value := .int64 n }

/-- A bound of 60 on the average of `s`. -/
private def averageRule : ConstraintRule :=
  { constraintId := "average"
    variableMapping := put "x" "s" KeyedTable.empty
    upperBound := some (.finite 60)
    terms :=
      [{ variableName := "x"
         coefficient := .finite 1
         aggregation := .average
         sampleOffset_le := Nat.zero_le uint64Max }] }

/-- Points at 0 and 9 in a window of size 10, on both paths. -/
theorem aggregate_paths_compared_two_points :
    ∃ r built, PathsCompared 0 "p" ["s"] averageRule 9
      (run callStep {} [⟨"p", .update { points := [sampled 0 0, sampled 9 100] } (some 10)⟩])
      (queryWindowStatistics "p" ["s"]
        (run callStep {}
          [⟨"p", .update { points := [sampled 0 0, sampled 9 100] } (some 10)⟩])).2 r built :=
  aggregate_paths_compared 0
    [⟨"p", .update { points := [sampled 0 0, sampled 9 100] } (some 10)⟩] "p" (by decide +kernel)
    (by decide) (by decide) (by decide) (by decide +kernel) (by unfold AllNumbers; decide +kernel)
    (by decide)

/-- The service after points at 0 and 10 with a window size of 10. -/
private def boundaryService : WindowService :=
  run callStep {} [⟨"p", .update { points := [sampled 0 0, sampled 10 100] } (some 10)⟩]

/-- Eviction keeps both points, the live window `[1, 11)` holds one.  Continuous
    ingest finds the average in bounds, an on-demand check finds it violated. -/
theorem boundary_point_counted :
    (queryWindowStatistics "p" ["s"] boundaryService).2.data.sequenceStatistics.find "s" =
        some { count := 2, average := 50, maximum := 100, minimum := 0 } ∧
      ((queryWindowData 0 "p" { sequenceIds := ["s"] } boundaryService).toOption.bind fun r =>
        (buildStatistics averageRule r.data averageRule.terms KeyedTable.empty []).toOption.bind
          fun built => built.find "s") =
        some { count := 1, average := 100, maximum := 100, minimum := 100 } ∧
      (checkStatisticsRule (queryWindowStatistics "p" ["s"] boundaryService).2.data
        averageRule).toOption.map (fun tally => tally.violations.length) = some 0 ∧
      ((queryWindowData 0 "p" { sequenceIds := ["s"] } boundaryService).toOption.bind fun r =>
        (checkWindowRule r.data none averageRule).toOption.map
          fun tally => tally.violations.length) = some 1 := by
  decide +kernel

end AggregatePaths
